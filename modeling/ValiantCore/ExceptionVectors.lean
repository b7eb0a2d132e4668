import ValiantCore.AArch64System
import ValiantCore.Interruption

/-! The exception vectors of `arch/aarch64/exceptions.S`. `SAVE_AND_CALL` is 39 instructions
long, a vector has room for 32, and `.align 7` moves on to the next one: every entry takes two
vectors, the first of which belongs to the exception before. So the processor finds a whole
entry for synchronous exceptions and for FIQ, and for IRQ and SError the end of one. -/
namespace ValiantCore
namespace ExceptionVectors

open Memory AArch64System
open AArch64 (Pairs regs)

inductive Handler
  | syncHandler
  | irqHandlerAarch64
  | fiqHandlerAarch64
  | serrorHandler
  deriving DecidableEq

/-- `SAVE_AND_CALL` up to the frame. -/
def saveFrame : List Plain :=
  [.subSp 256,
    .stp 0 1 0,
    .stp 2 3 16,
    .stp 4 5 32,
    .stp 6 7 48,
    .stp 8 9 64,
    .stp 10 11 80,
    .stp 12 13 96,
    .stp 14 15 112,
    .stp 16 17 128,
    .stp 18 19 144,
    .stp 20 21 160,
    .stp 22 23 176,
    .stp 24 25 192,
    .stp 26 27 208,
    .stp 28 29 224,
    .str 30 240]

def arguments (type : Word) : List Plain := [.mrsEsr 0,.mrsElr 1,.mov 2 type]

def restoreFrame : List Plain :=
  [.ldp 0 1 0,
    .ldp 2 3 16,
    .ldp 4 5 32,
    .ldp 6 7 48,
    .ldp 8 9 64,
    .ldp 10 11 80,
    .ldp 12 13 96,
    .ldp 14 15 112,
    .ldp 16 17 128,
    .ldp 18 19 144,
    .ldp 20 21 160,
    .ldp 22 23 176,
    .ldp 24 25 192,
    .ldp 26 27 208,
    .ldp 28 29 224,
    .ldr 30 240,
    .addSp 256]

def beforeEret (handler : Handler) (type : Word) : List (Instr Handler) :=
  (saveFrame++arguments type).map .plain++.bl handler::restoreFrame.map .plain

def saveAndCall (handler : Handler) (type : Word) : List (Instr Handler) :=
  beforeEret handler type++[.eret]

def syncUnhandled : ℕ := 0x984

def branch : List (Line Handler) := [.align 7,.instr (.b syncUnhandled)]

def entry (handler : Handler) (type : Word) : List (Line Handler) :=
  .align 7::(saveAndCall handler type).map .instr

def vectorTableEl1 : List (Line Handler) :=
  [.align 11]++
    branch++branch++branch++branch++
    entry .syncHandler 0++entry .irqHandlerAarch64 1++entry .fiqHandlerAarch64 2++
    entry .serrorHandler 3++
    branch++branch++branch++branch++
    branch++branch++branch++branch++
    [.instr (.b syncUnhandled)]

def placed : List (ℕ × Instr Handler) := place 0 vectorTableEl1

def code (o : ℕ) : Option (Instr Handler) := placed.lookup o

/-- The label is where the last line puts it. -/
example : placed.getLast? = some (syncUnhandled,.b syncUnhandled) := by decide +kernel

/-- Exceptions from EL1 with `SP_EL1`. Only the first and the last write `esr_el1`. -/
inductive Exception
  | sync (syndrome : Word)
  | irq
  | fiq
  | serror (syndrome : Word)

/-- Where the processor goes, from `vbar_el1`. -/
def vector : Exception → ℕ
  | .sync _ => 0x200
  | .irq => 0x280
  | .fiq => 0x300
  | .serror _ => 0x380

def syndrome (m : Core) : Exception → Word
  | .sync s => s
  | .serror s => s
  | _ => m.esr

/-- What the processor does to take an exception: D, A, I and F are masked. -/
def taken (vbar : Word) (e : Exception) (m : Core) : Core :=
  { m with
    elr := m.pc
    spsr := m.pstate
    esr := syndrome m e
    pstate := m.pstate ||| 0x3c0
    pc := vbar+BitVec.ofNat 64 (vector e) }

/-- An exception and what the table makes of it, up to its `eret`. -/
def handle (vbar : Word) (C : Calls Handler) (e : Exception) (m : Core) : Option Core :=
  runToEret vbar C code 64 (taken vbar e m)

section Layout

theorem placed_sync : Placed code 0x200 (saveAndCall .syncHandler 0) := by
  decide +kernel

theorem placed_fiq : Placed code 0x300 (saveAndCall .irqHandlerAarch64 1) := by
  decide +kernel

def restoreTail : List Plain := restoreFrame.drop 11

theorem placed_irq : Placed code 0x280 (restoreTail.map .plain++[.eret]) := by
  decide +kernel

end Layout

section Pops
variable (vbar : Word) (C : Calls Handler) (m : Core)

/-- What an entry saves, from the bottom of its frame on. -/
def framePairs : Pairs :=
  [(0,1),(2,3),(4,5),(6,7),(8,9),(10,11),(12,13),(14,15),(16,17),(18,19),(20,21),(22,23),(24,25),
    (26,27),(28,29)]

/-- The pairs that the end of an entry loads. -/
def tailPairs : Pairs := framePairs.drop 11

theorem restoreTail_eq : restoreTail = Plain.ldps 176 tailPairs++[.ldr 30 240,.addSp 256] := rfl

/-- The word that register `k` is loaded from, in a frame at `sp`. -/
def slot (mem : Mem) (sp : Word) (k : Fin 31) : Word := load64 mem (sp+BitVec.ofNat 64 (8*k.val))

theorem regs_tailPairs : regs tailPairs = [22,23,24,25,26,27,28,29] := by decide

theorem holds_tail (mem : Mem) (sp : Word) :
    Holds mem (sp+176) ((regs tailPairs).map (slot mem sp)) := by
  simp only [regs_tailPairs,Holds,slot,BitVec.add_assoc,List.map_cons,List.map_nil]
  exact ⟨rfl,rfl,rfl,rfl,rfl,rfl,rfl,rfl,trivial⟩

theorem slot_30 (mem : Mem) (sp : Word) : slot mem sp 30 = load64 mem (sp+240) := rfl

theorem mem_tailPairs : ∀ k : Fin 31, 22 ≤ k → k ≠ 30 → k ∈ regs tailPairs := by decide
theorem notMem_tailPairs : ∀ k : Fin 31, k < 22 → k ∉ regs tailPairs := by decide

/-- An exception that finds the end of an entry: it takes a frame off the stack that it never
put there. -/
def popped : Core :=
  { m with
    x := fun k => if k < 22 then m.x k else slot m.mem m.sp k
    sp := m.sp+256
    elr := m.pc
    spsr := m.pstate }

theorem exec_restoreTail : exec vbar C (taken vbar .irq m) (restoreTail.map .plain++[.eret]) =
    some (popped m) := by
  rw [exec_append,exec_plain,Option.bind_some,restoreTail_eq,Plain.exec_append,Plain.exec_ldps]
  have hx : Function.update (Plain.loaded m.mem (m.sp+176) m.x tailPairs) 30
      (load64 m.mem (m.sp+240)) = fun k => if k < 22 then m.x k else slot m.mem m.sp k := by
    funext k
    by_cases hlow : k < 22
    · have hne : k ≠ 30 := by omega
      rw [if_pos hlow,Function.update_of_ne hne,Plain.loaded_of_notMem (notMem_tailPairs k hlow)]
    · by_cases h30 : k = 30
      · rw [if_neg hlow,h30,Function.update_self,slot_30]
      · rw [if_neg hlow,Function.update_of_ne h30,
          Plain.loaded_of_holds (holds_tail m.mem m.sp) (mem_tailPairs k (by omega) h30)]
  simp only [taken,Plain.exec,Plain.step,exec,step,Option.bind_some,popped,Option.some.injEq]
  rw [← hx]
  rfl

theorem handle_irq : handle vbar C .irq m = some (popped m) := by
  have hfalls : ∀ i ∈ restoreTail.map Instr.plain, (i : Instr Handler).falls = true := by decide
  have hpc : (taken vbar .irq m).pc = vbar+BitVec.ofNat 64 0x280 := rfl
  rw [handle,runToEret_placed placed_irq hfalls (by decide) (by decide) hpc,exec_restoreTail]

/-- Requests that are still there when the one before has returned. -/
def storm : ℕ → Core → Option Core
  | 0, m => some m
  | n+1, m => (handle vbar C .irq m).bind fun m' => storm n m'

@[simp] theorem popped_pc : (popped m).pc = m.pc := rfl
@[simp] theorem popped_pstate : (popped m).pstate = m.pstate := rfl
@[simp] theorem popped_mem : (popped m).mem = m.mem := rfl
@[simp] theorem popped_sp : (popped m).sp = m.sp+256 := rfl
theorem popped_x (k : Fin 31) :
    (popped m).x k = if k < 22 then m.x k else slot m.mem m.sp k := rfl

theorem storm_eq (n : ℕ) : storm vbar C n m = some (popped^[n] m) := by
  induction n generalizing m with
  | zero => rfl
  | succ n ih => rw [storm,handle_irq,Option.bind_some,ih,Function.iterate_succ_apply]

theorem iterate_popped (n : ℕ) : (popped^[n] m).pc = m.pc ∧ (popped^[n] m).pstate = m.pstate ∧
    (popped^[n] m).mem = m.mem ∧ (popped^[n] m).sp = m.sp+BitVec.ofNat 64 (256*n) ∧
    ∀ k < 22, (popped^[n] m).x k = m.x k := by
  induction n with
  | zero => simp
  | succ n ih =>
    obtain ⟨hpc,hpstate,hmem,hsp,hx⟩ := ih
    rw [Function.iterate_succ_apply']
    refine ⟨hpc,hpstate,hmem,?_,?_⟩
    · rw [popped_sp,hsp]
      bv_omega
    · intro k hk
      rw [popped_x,if_pos hk,hx k hk]

/-- `n+1` interrupt requests: each takes 256 bytes off the interrupted stack, `x22` to `x30`
come from there, and nothing is saved, called or acknowledged. -/
theorem irqs_pop_frames (n : ℕ) : ∃ m', storm vbar C (n+1) m = some m' ∧
    m'.pc = m.pc ∧ m'.pstate = m.pstate ∧ m'.mem = m.mem ∧
    m'.sp = m.sp+BitVec.ofNat 64 (256*(n+1)) ∧
    ∀ k, m'.x k = if k < 22 then m.x k else
      load64 m.mem (m.sp+BitVec.ofNat 64 (256*n)+BitVec.ofNat 64 (8*k.val)) := by
  obtain ⟨hpc,hpstate,hmem,hsp,-⟩ := iterate_popped m (n+1)
  obtain ⟨-,-,hmem',hsp',hx⟩ := iterate_popped m n
  refine ⟨_,storm_eq vbar C m (n+1),hpc,hpstate,hmem,hsp,?_⟩
  intro k
  rw [Function.iterate_succ_apply',popped_x,slot,hmem',hsp']
  split
  · exact hx k ‹_›
  · rfl

end Pops

section Entry

def frameRegs : List (Fin 31) := regs framePairs++[30]

theorem mem_framePairs : ∀ k : Fin 31, k ≠ 30 → k ∈ regs framePairs := by decide

@[simp] theorem length_frame (x : Fin 31 → Word) : (frameRegs.map x).length = 31 := rfl

theorem saveFrame_eq : saveFrame = .subSp 256::(Plain.stps 0 framePairs++[.str 30 240]) := rfl
theorem restoreFrame_eq : restoreFrame = Plain.ldps 0 framePairs++[.ldr 30 240,.addSp 256] := rfl

theorem exec_saveFrame (m : Core) : Plain.exec m saveFrame = { m with
    sp := m.sp-256
    mem := storeAll m.mem (m.sp-256) (frameRegs.map m.x)
    pc := m.pc+68 } := by
  rw [saveFrame_eq,Plain.exec_cons,Plain.exec_append,Plain.exec_stps,frameRegs,List.map_append,
    storeAll_append]
  simp only [Plain.exec,Plain.step,BitVec.ofNat_eq_ofNat,BitVec.add_zero,BitVec.add_assoc]
  rfl

theorem exec_restoreFrame {m : Core} {v : Fin 31 → Word} (h : Holds m.mem m.sp (frameRegs.map v)) :
    Plain.exec m restoreFrame = { m with x := v, sp := m.sp+256, pc := m.pc+68 } := by
  rw [frameRegs,List.map_append] at h
  have h30 : load64 m.mem (m.sp+240) = v 30 := h.append_right.1
  have hx : Function.update (Plain.loaded m.mem m.sp m.x framePairs) 30 (load64 m.mem (m.sp+240)) =
      v := by
    funext k
    by_cases hk : k = 30
    · rw [hk,Function.update_self,h30]
    · rw [Function.update_of_ne hk,Plain.loaded_of_holds h.append_left (mem_framePairs k hk)]
  rw [restoreFrame_eq,Plain.exec_append,Plain.exec_ldps]
  simp only [Plain.exec,Plain.step,BitVec.ofNat_eq_ofNat,BitVec.add_zero,BitVec.add_assoc]
  rw [← hx]
  rfl

def called (m : Core) (type : Word) : Core := { m with
  x := Function.update (Function.update (Function.update m.x 0 m.esr) 1 m.elr) 2 type
  sp := m.sp-256
  mem := storeAll m.mem (m.sp-256) (frameRegs.map m.x)
  pc := m.pc+80 }

theorem exec_beforeCall (m : Core) (type : Word) :
    Plain.exec m (saveFrame++arguments type) = called m type := by
  rw [Plain.exec_append,exec_saveFrame]
  simp only [arguments,Plain.exec,Plain.step,called,BitVec.add_assoc]
  rfl

theorem called_arguments (m : Core) (type : Word) : (called m type).x 0 = m.esr ∧
    (called m type).x 1 = m.elr ∧ (called m type).x 2 = type ∧
    Holds (called m type).mem (called m type).sp (frameRegs.map m.x) :=
  ⟨rfl,rfl,rfl,storeAll_holds (by rw [length_frame]; decide)⟩

variable (vbar : Word) (C : Calls Handler)

/-- An entry whose function comes back, and leaves the frame and the exception registers as
they are, brings the machine back. -/
theorem exec_saveAndCall {m m' : Core} {h : Handler} {type : Word}
    (hcall : step vbar C (called m type) (.bl h) = some m') (hsp : m'.sp = m.sp-256)
    (hframe : Holds m'.mem m'.sp (frameRegs.map m.x)) :
    exec vbar C m (saveAndCall h type) = some { m' with
      x := m.x, sp := m.sp, pc := m'.elr, pstate := m'.spsr } := by
  have hback : m'.sp+256 = m.sp := by
    rw [hsp]
    bv_omega
  rw [saveAndCall,beforeEret,exec_append,exec_append,exec_plain,exec_beforeCall,Option.bind_some,exec,
    hcall,Option.bind_some,exec_plain,exec_restoreFrame hframe,Option.bind_some,hback]
  rfl

end Entry

/-- The entry that an exception finds at its vector. -/
def entryOf : Exception → Option (Handler × Word)
  | .sync _ => some (.syncHandler,0)
  | .fiq => some (.irqHandlerAarch64,1)
  | _ => none

theorem falls_beforeEret (h : Handler) (type : Word) : ∀ i ∈ beforeEret h type, i.falls = true := by
  intro i hi
  simp only [beforeEret,List.mem_append,List.mem_map,List.mem_cons] at hi
  obtain ⟨p,-,rfl⟩ | rfl | ⟨p,-,rfl⟩ := hi <;> rfl

theorem placed_entryOf {e : Exception} {h : Handler} {type : Word} (he : entryOf e = some (h,type)) :
    Placed code (vector e) (saveAndCall h type) ∧ vector e < 0x400 := by
  cases e with
  | sync s =>
    cases he
    exact ⟨placed_sync,by simp [vector]⟩
  | irq => cases he
  | fiq =>
    cases he
    exact ⟨placed_fiq,by simp [vector]⟩
  | serror s => cases he

theorem handle_entryOf (vbar : Word) (C : Calls Handler) {e : Exception} {h : Handler} {type : Word}
    (he : entryOf e = some (h,type)) (m : Core) :
    handle vbar C e m = exec vbar C (taken vbar e m) (saveAndCall h type) := by
  obtain ⟨hplaced,hlt⟩ := placed_entryOf he
  have hlen : (beforeEret h type).length = 38 := rfl
  exact runToEret_placed hplaced (falls_beforeEret h type) (by omega) (by omega) rfl

section View
variable (own : Set Word) (lo : Word)

/-- What a program sees: the registers, and memory outside of its stack below `sp`, down to
the end `lo` of the stack, and of what is the functions' own. -/
structure View (s t : Core) : Prop where
  x : s.x = t.x
  sp : s.sp = t.sp
  pc : s.pc = t.pc
  pstate : s.pstate = t.pstate
  mem : ∀ b, b ∉ span lo (s.sp-lo).toNat → b ∉ own → s.mem b = t.mem b

variable {own lo}

theorem View.refl (s : Core) : View own lo s s := ⟨rfl,rfl,rfl,rfl,fun _ _ _ => rfl⟩

theorem View.trans {r s t : Core} (h : View own lo r s) (h' : View own lo s t) : View own lo r t := by
  refine ⟨h.x.trans h'.x,h.sp.trans h'.sp,h.pc.trans h'.pc,h.pstate.trans h'.pstate,?_⟩
  intro b hb hown
  rw [h.mem b hb hown]
  rw [h.sp] at hb
  exact h'.mem b hb hown

variable (own lo)

/-- What an entry relies on: with `need` bytes of stack the function comes back, its stack
pointer and the exception registers are as before, and it writes below its stack pointer and
to what is its own. -/
def Keeps (need : ℕ) (C : Calls Handler) (h : Handler) : Prop :=
  ∀ m : Core, need ≤ (m.sp-lo).toNat → ∃ m', C.call h m = some m' ∧ m'.sp = m.sp ∧
    m'.elr = m.elr ∧ m'.spsr = m.spsr ∧
    ∀ b, b ∉ span lo (m.sp-lo).toNat → b ∉ own → m'.mem b = m.mem b

/-- The exception finds an entry, with a function that keeps to this, and room for both. -/
def Safe (need : ℕ) (C : Calls Handler) (e : Exception) (m : Core) : Prop :=
  ∃ h type, entryOf e = some (h,type) ∧ Keeps own lo need C h ∧ 256+need ≤ (m.sp-lo).toNat ∧
    Disjoint own (span (m.sp-256) 256)

variable {own lo} (vbar : Word) {C : Calls Handler} {need : ℕ}

theorem handle_unnoticed (e : Exception) (m : Core) (h : Safe own lo need C e m) :
    Interruption.Unnoticed (handle vbar C) (View own lo) e m := by
  obtain ⟨f,type,he,hkeeps,hroom,hdisj⟩ := h
  let t := called (taken vbar e m) type
  have hsp : t.sp = m.sp-256 := rfl
  have hlo : (t.sp-lo).toNat = (m.sp-lo).toNat-256 := by
    rw [hsp]
    bv_omega
  have hneed : need ≤ (t.sp-lo).toNat := by omega
  obtain ⟨m',hcall,hsp',helr,hspsr,hmem⟩ :=
    hkeeps { t with x := Function.update t.x 30 (t.pc+4) } hneed
  have hframe : Holds m'.mem m'.sp (frameRegs.map m.x) := by
    rw [hsp']
    apply (called_arguments (taken vbar e m) type).2.2.2.congr (by rw [length_frame]; decide)
    intro b hb
    rw [length_frame] at hb
    change (b-(m.sp-256)).toNat < 248 at hb
    have hb' : b ∈ span (m.sp-256) 256 := mem_span.mpr (by omega)
    refine (hmem b ?_ (Set.disjoint_right.mp hdisj hb')).symm
    show b ∉ span lo (t.sp-lo).toNat
    rw [mem_span] at hb' ⊢
    bv_omega
  refine ⟨_,(handle_entryOf vbar C he m).trans
    (exec_saveAndCall vbar C hcall (hsp'.trans hsp) hframe),rfl,rfl,helr,hspsr,?_⟩
  intro b hb hown
  change b ∉ span lo (m.sp-lo).toNat at hb
  rw [mem_span] at hb
  have hbelow : b ∉ span lo (t.sp-lo).toNat := by
    rw [mem_span]
    omega
  have hnotframe : b ∉ span (m.sp-256) (8*(frameRegs.map m.x).length) := by
    rw [mem_span,length_frame]
    bv_omega
  exact (hmem b hbelow hown).trans (storeAll_of_notMem (by rw [length_frame]; decide) hnotframe)

/-- A program that is interrupted by exceptions that find their entry, any number of times and
anywhere, ends with the registers, the state and the memory it would have ended with alone. -/
theorem exceptions_unnoticed {A : Type} {act : A → Core → Core}
    (hact : ∀ a s t, View own lo s t → View own lo (act a s) (act a t))
    {es : List (Interruption.Event A Exception)} {m : Core}
    (h : Interruption.Guarded act (handle vbar C) (Safe own lo need C) m es) :
    ∃ m', Interruption.exec act (handle vbar C) m es = some m' ∧
      View own lo m' (Interruption.alone act m (Interruption.acts es)) := by
  have htrans : ∀ r s t, View own lo r s → View own lo s t → View own lo r t :=
    fun _ _ _ => View.trans
  exact Interruption.exec_view htrans hact (handle_unnoticed vbar) h (View.refl m)

end View

section Example

/-- Functions that clobber the general registers and come back. -/
def clobber : Calls Handler where
  call _ m := some { m with x := fun _ => 0, pc := m.x 30 }
  returns := by
    rintro _ m m' h
    cases h
    rfl

theorem clobber_keeps (h : Handler) : Keeps ∅ 0 0 clobber h :=
  fun m _ => ⟨{ m with x := fun _ => 0, pc := m.x 30 },rfl,rfl,rfl,rfl,fun _ _ _ => rfl⟩

def stores (a : Fin 31 × Word) (m : Core) : Core := Plain.step m (.str a.1 a.2)

theorem stores_view {own : Set Word} {lo : Word} (a : Fin 31 × Word) (s t : Core)
    (h : View own lo s t) : View own lo (stores a s) (stores a t) := by
  refine ⟨h.x,h.sp,congrArg (·+4) h.pc,h.pstate,?_⟩
  intro b hb hown
  show store64 s.mem (s.sp+a.2) (s.x a.1) b = store64 t.mem (t.sp+a.2) (t.x a.1) b
  rw [← h.sp,← h.x]
  by_cases hin : b ∈ span (s.sp+a.2) 8
  · rw [mem_span] at hin
    rw [store64,store64,if_pos hin,if_pos hin]
  · rw [store64_of_notMem hin,store64_of_notMem hin]
    exact h.mem b hb hown

def start : Core := ⟨fun _ => 7,0x1000,0x4000,0x3c5,0,0,0,fun _ => 0⟩

/-- A store, an FIQ, and another store. -/
theorem exceptions_unnoticed_stores : ∃ m', Interruption.exec stores (handle 0x80000 clobber) start
      [.act (3,8),.interrupt .fiq,.act (4,16)] = some m' ∧
    View ∅ 0 m' (Interruption.alone stores start [(3,8),(4,16)]) := by
  refine @exceptions_unnoticed ∅ 0 0x80000 clobber 0 _ _ stores_view _ _ ⟨?_,fun _ _ => trivial⟩
  exact ⟨.irqHandlerAarch64,1,rfl,clobber_keeps _,by decide,Set.empty_disjoint _⟩

end Example

end ExceptionVectors
end ValiantCore
