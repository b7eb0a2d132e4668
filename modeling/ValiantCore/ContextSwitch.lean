import ValiantCore.AArch64
import ValiantCore.Runs

/-! `context_switch`, as `arch/aarch64/context_switch64.S` has it, and the tasks that call
it. A task that has called it is parked: its frame lies on its own stack and its slot points
to the frame, whatever the others do in the meantime. -/
namespace ValiantCore
namespace ContextSwitch

open Memory AArch64

/-- `context_switch(old_sp, new_sp)`: `x0` is the slot to store `sp` in, `x1` the new `sp`. -/
def contextSwitch : List Instr :=
  [.stpPre 19 20 (-16),
    .stpPre 21 22 (-16),
    .stpPre 23 24 (-16),
    .stpPre 25 26 (-16),
    .stpPre 27 28 (-16),
    .stpPre 29 30 (-16),
    .movFromSp 2,
    .str 2 0,
    .movToSp 1,
    .ldpPost 29 30 16,
    .ldpPost 27 28 16,
    .ldpPost 25 26 16,
    .ldpPost 23 24 16,
    .ldpPost 21 22 16,
    .ldpPost 19 20 16,
    .ret]

def savedPairs : Pairs := [(19,20),(21,22),(23,24),(25,26),(27,28),(29,30)]

/-- A frame from its lowest address on. -/
def frameRegs : List (Fin 31) := regs savedPairs.reverse

theorem mem_frameRegs : ∀ k : Fin 31, 19 ≤ k → k ∈ frameRegs := by decide

/-- The middle of `context_switch`, where the stack changes. -/
def changeStack : List Instr := [.movFromSp 2,.str 2 0,.movToSp 1]

theorem contextSwitch_eq : contextSwitch =
    push savedPairs++(changeStack++(pop savedPairs.reverse++[.ret])) := by
  simp [contextSwitch,savedPairs,changeStack,push,pop]

theorem changeStack_mem (m : Machine) :
    (exec m changeStack).mem = store64 m.mem (m.x 0) m.sp := by
  simp [changeStack,step]

theorem changeStack_sp (m : Machine) : (exec m changeStack).sp = m.x 1 := by
  simp [changeStack,step]

/-- The memory once the outgoing task is saved: its registers below its `sp`, and the
address of this frame in its slot. -/
def saved (m : Machine) : Mem := store64 (exec m (push savedPairs)).mem (m.x 0) (m.sp-96)

section Saved
variable (m : Machine)

theorem saved_slot : load64 (saved m) (m.x 0) = m.sp-96 := load64_store64 _ _ _

variable {m}

theorem saved_of_notMem {b : Word} (hframe : b ∉ span (m.sp-96) 96) (hslot : b ∉ span (m.x 0) 8) :
    saved m b = m.mem b := by
  rw [saved,store64_of_notMem hslot]
  exact exec_push_mem (by decide) hframe

theorem load64_saved {a : Word} (hframe : Disjoint (span a 8) (span (m.sp-96) 96))
    (hslot : Disjoint (span a 8) (span (m.x 0) 8)) : load64 (saved m) a = load64 m.mem a := by
  apply load64_congr
  intro b hb
  exact saved_of_notMem (Set.disjoint_left.mp hframe hb) (Set.disjoint_left.mp hslot hb)

theorem saved_frame (h : Disjoint (span (m.sp-96) 96) (span (m.x 0) 8)) :
    Holds (saved m) (m.sp-96) (frameRegs.map m.x) := by
  have hpush := @exec_push_holds m savedPairs [] (by decide) trivial
  rw [List.append_nil,exec_push_sp] at hpush
  apply hpush.congr (by simp [savedPairs])
  intro b hb
  exact (store64_of_notMem (Set.disjoint_left.mp h (by simpa [savedPairs] using hb))).symm

end Saved

def between (m : Machine) : Machine := exec (exec m (push savedPairs)) changeStack

section Switched
variable (m : Machine)

theorem between_mem : (between m).mem = saved m := by
  rw [between,changeStack_mem,exec_push_x,exec_push_sp]
  rfl

theorem between_sp : (between m).sp = m.x 1 := by
  rw [between,changeStack_sp,exec_push_x]

theorem exec_contextSwitch : exec m contextSwitch =
    step (exec (between m) (pop savedPairs.reverse)) .ret := by
  rw [contextSwitch_eq,exec_append,exec_append,exec_append,between,exec_cons,exec_nil]

theorem contextSwitch_mem : (exec m contextSwitch).mem = saved m := by
  rw [exec_contextSwitch,step_ret_mem,exec_pop_mem,between_mem]

theorem contextSwitch_sp : (exec m contextSwitch).sp = m.x 1+96 := by
  rw [exec_contextSwitch,step_ret_sp,exec_pop_sp,between_sp]
  rfl

theorem contextSwitch_pc : (exec m contextSwitch).pc = load64 (saved m) (m.x 1+8) := by
  have hlast : (30 : Fin 31) ∉ regs [(27,28),(25,26),(23,24),(21,22),(19,20)] := by decide
  rw [exec_contextSwitch,step_ret_pc,savedPairs]
  simp only [List.reverse_cons,List.reverse_nil,List.nil_append,List.cons_append]
  rw [exec_pop_cons,exec_pop_x_of_notMem hlast,step_ldpPost_x,Function.update_self,between_mem,
    between_sp]

variable {m}

theorem contextSwitch_x {v : Fin 31 → Word} (h : Holds (saved m) (m.x 1) (frameRegs.map v))
    {k : Fin 31} (hk : k ∈ frameRegs) : (exec m contextSwitch).x k = v k := by
  rw [← between_mem,← between_sp] at h
  rw [exec_contextSwitch,step_ret_x]
  exact exec_pop_x h hk

end Switched

/-- Where the tasks keep their things: `stack_ptr` slots and stacks that do not overlap. -/
structure Layout (T : Type) where
  slot : T → Word
  stack : T → Set Word
  slot_slot : ∀ i j, i ≠ j → Disjoint (span (slot i) 8) (span (slot j) 8)
  stack_stack : ∀ i j, i ≠ j → Disjoint (stack i) (stack j)
  slot_stack : ∀ i j, Disjoint (span (slot i) 8) (stack j)

/-- Task `cur` has the processor. `atCall` remembers every task's machine at its last call
of `context_switch`; nothing reads it. -/
structure State (T : Type) where
  cur : T
  machine : Machine
  atCall : T → Option Machine

/-- A call of `context_switch` to `next`, from the machine `before`. -/
structure Call (T : Type) where
  next : T
  before : Machine

def stepCall {T : Type} [DecidableEq T] (s : State T) (c : Call T) : State T × Unit :=
  (⟨c.next,exec c.before contextSwitch,Function.update s.atCall s.cur (some c.before)⟩,())

/-- The state after some calls, from one in which no task has called yet. -/
def after {T : Type} [DecidableEq T] (cur : T) (m : Machine) (calls : List (Call T)) : State T :=
  Runs.exec stepCall ⟨cur,m,fun _ => none⟩ calls

/-- The running task calls with the arguments that `schedule_next` passes. There is room
for the frame on its stack, and since it resumed no stack and no slot but its own was written. -/
structure Proper {T : Type} (L : Layout T) (s : State T) (c : Call T) : Prop where
  other : c.next ≠ s.cur
  oldSp : c.before.x 0 = L.slot s.cur
  newSp : c.before.x 1 = load64 c.before.mem (L.slot c.next)
  room : span (c.before.sp-96) 96 ⊆ L.stack s.cur
  slotsKept : ∀ i ≠ s.cur, ∀ b ∈ span (L.slot i) 8, c.before.mem b = s.machine.mem b
  stacksKept : ∀ i ≠ s.cur, ∀ b ∈ L.stack i, c.before.mem b = s.machine.mem b

/-- The machine `m` continues where the call from the machine `own` returns. -/
structure Resumes (m own : Machine) : Prop where
  pc : m.pc = own.x 30
  sp : m.sp = own.sp
  x : ∀ k : Fin 31, 19 ≤ k → m.x k = own.x k

/-- Task `j` is switched out: its slot points to the frame of its last call. -/
structure Parked {T : Type} (L : Layout T) (m : Mem) (j : T) (own : Machine) : Prop where
  slot : load64 m (L.slot j) = own.sp-96
  frame : Holds m (own.sp-96) (frameRegs.map own.x)
  room : span (own.sp-96) 96 ⊆ L.stack j

section Parking
variable {T : Type} {L : Layout T} {s : State T} {c : Call T} {j : T} {own : Machine}

theorem Parked.congr {m m' : Mem} (h : Parked L m j own)
    (hslot : ∀ b ∈ span (L.slot j) 8, m b = m' b) (hstack : ∀ b ∈ L.stack j, m b = m' b) :
    Parked L m' j own := by
  constructor
  · rw [← load64_congr hslot]
    exact h.slot
  · exact h.frame.congr (by simp [frameRegs,savedPairs]) fun b hb => hstack b (h.room hb)
  · exact h.room

theorem Proper.keeps (hc : Proper L s c) (hj : j ≠ s.cur) (h : Parked L s.machine.mem j own) :
    Parked L (saved c.before) j own := by
  apply h.congr
  · intro b hb
    rw [saved_of_notMem,hc.slotsKept j hj b hb]
    · exact fun hframe => Set.disjoint_left.mp (L.slot_stack j s.cur) hb (hc.room hframe)
    · rw [hc.oldSp]
      exact Set.disjoint_left.mp (L.slot_slot j s.cur hj) hb
  · intro b hb
    rw [saved_of_notMem,hc.stacksKept j hj b hb]
    · exact fun hframe => Set.disjoint_left.mp (L.stack_stack j s.cur hj) hb (hc.room hframe)
    · rw [hc.oldSp]
      exact Set.disjoint_right.mp (L.slot_stack s.cur j) hb

theorem Proper.parks (hc : Proper L s c) : Parked L (saved c.before) s.cur c.before := by
  constructor
  · rw [← hc.oldSp]
    exact saved_slot _
  · apply saved_frame
    rw [hc.oldSp]
    exact (L.slot_stack s.cur s.cur).symm.mono_left hc.room
  · exact hc.room

theorem Proper.resumes (hc : Proper L s c) (h : Parked L s.machine.mem c.next own) :
    Resumes (exec c.before contextSwitch) own := by
  have hkept := hc.keeps hc.other h
  have hx : c.before.x 1 = own.sp-96 := by
    rw [hc.newSp,load64_congr (hc.slotsKept c.next hc.other)]
    exact h.slot
  have hframe : Holds (saved c.before) (c.before.x 1) (frameRegs.map own.x) := by
    rw [hx]
    exact hkept.frame
  constructor
  · have hret : (exec c.before contextSwitch).pc = (exec c.before contextSwitch).x 30 := by
      rw [exec_contextSwitch,step_ret_pc,step_ret_x]
    rw [hret,contextSwitch_x hframe (by decide)]
  · rw [contextSwitch_sp,hx,BitVec.sub_add_cancel]
  · exact fun k hk => contextSwitch_x hframe (mem_frameRegs k hk)

end Parking

/-- Every task but the running one that has called is parked at its last call. -/
def AllParked {T : Type} (L : Layout T) (s : State T) : Prop :=
  ∀ j ≠ s.cur, ∀ own, s.atCall j = some own → Parked L s.machine.mem j own

section RoundTrip
variable {T : Type} [DecidableEq T] {L : Layout T}

theorem allParked_step {s : State T} {c : Call T} (hs : AllParked L s)
    (hc : Proper L s c) : AllParked L (stepCall s c).1 := by
  intro j hj own hown
  change Parked L (exec c.before contextSwitch).mem j own
  rw [contextSwitch_mem]
  by_cases hcur : j = s.cur
  · subst hcur
    obtain rfl : c.before = own := by simpa [stepCall] using hown
    exact hc.parks
  · apply hc.keeps hcur
    apply hs j hcur
    simpa [stepCall,Function.update_of_ne hcur] using hown

theorem allParked_after {cur : T} {m : Machine} {calls : List (Call T)}
    (h : Runs.EveryStep (fun pre c => Proper L (after cur m pre) c) calls) :
    Runs.Always (fun pre => AllParked L (after cur m pre)) calls := by
  apply Runs.always_of_everyStep (R := fun pre => AllParked L (after cur m pre)) ?_ ?_ h
  · intro j hj own hown
    simp [after] at hown
  · intro pre c hs hc
    rw [after,Runs.exec_concat]
    exact allParked_step hs hc

/-- In a run of proper calls, every switch to a task that has called before lets it
continue behind its last call, with `x19` to `x30` and `sp` as they were there. -/
theorem round_trip {cur : T} {m : Machine} {calls : List (Call T)}
    (h : Runs.EveryStep (fun pre c => Proper L (after cur m pre) c) calls) :
    Runs.EveryStep (fun pre c => ∀ own, (after cur m pre).atCall c.next = some own →
      Resumes (after cur m (pre++[c])).machine own) calls := by
  intro pre c hpre own hown
  have hc := h pre c hpre
  have hparked := allParked_after h pre (Runs.prefix_of_concat hpre) c.next hc.other own hown
  rw [after,Runs.exec_concat]
  exact hc.resumes hparked

end RoundTrip

/-- Two tasks, with their slots in one table and a page of stack each. -/
def twoTasks : Layout Bool where
  slot i := bif i then 0x1008 else 0x1000
  stack i := span (bif i then 0x4000 else 0x2000) 0x1000
  slot_slot i j hij := by
    apply span_disjoint <;> revert i j <;> decide
  stack_stack i j hij := by
    apply span_disjoint <;> revert i j <;> decide
  slot_stack i j := by
    apply span_disjoint <;> revert i j <;> decide

/-- The first task calls with a stack pointer of `0x3000`, the second with one of `0x5000`. -/
def firstCaller : Machine := ⟨fun k => [0x1000,0].getD k.val 7,0x3000,0x80000,fun _ => 0⟩
def secondCaller : Machine := ⟨fun k => [0x1008,0x2fa0].getD k.val 8,0x5000,0x80000,saved firstCaller⟩

theorem round_trip_twoTasks :
    Resumes (after false firstCaller [⟨true,firstCaller⟩,⟨false,secondCaller⟩]).machine firstCaller := by
  have hfirst : Proper twoTasks (after false firstCaller []) ⟨true,firstCaller⟩ := by
    constructor
    · decide
    · rfl
    · decide +kernel
    · exact span_subset (by decide)
    · exact fun i hi b hb => rfl
    · exact fun i hi b hb => rfl
  have hsecond : Proper twoTasks (after false firstCaller [⟨true,firstCaller⟩]) ⟨false,secondCaller⟩ := by
    have hmem : (after false firstCaller [⟨true,firstCaller⟩]).machine.mem = secondCaller.mem :=
      contextSwitch_mem firstCaller
    constructor
    · decide
    · rfl
    · exact (saved_slot firstCaller).symm
    · exact span_subset (by decide)
    · rw [hmem]
      exact fun i hi b hb => rfl
    · rw [hmem]
      exact fun i hi b hb => rfl
  have hrun : Runs.EveryStep (fun pre c => Proper twoTasks (after false firstCaller pre) c)
      [⟨true,firstCaller⟩,⟨false,secondCaller⟩] := by
    apply (Runs.everyStep_cons stepCall (Proper twoTasks) _ _ _).mpr ⟨hfirst,?_⟩
    apply (Runs.everyStep_cons stepCall (Proper twoTasks) _ _ _).mpr ⟨hsecond,?_⟩
    apply Runs.everyStep_nil
  apply round_trip hrun [⟨true,firstCaller⟩] ⟨false,secondCaller⟩ (List.prefix_refl _)
  rfl

end ContextSwitch
end ValiantCore
