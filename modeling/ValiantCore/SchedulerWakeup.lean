import ValiantCore.SchedulerIpc

/-! A receiver that waits for messages in a loop: it calls `ipc_receive(id)` and, when
there is nothing for it, `task_block(id)`. Between any two of its calls the rest of the
kernel makes calls of its own, sends to the receiver among them. -/
namespace ValiantCore
namespace Scheduler

def HasMail (id : ℕ) (s : Sched) : Prop := ∃ m ∈ queued s, m.toId = id

/-- The lost wakeup: the receiver is blocked and a message for it is queued. -/
def Stranded (id : ℕ) (s : Sched) : Prop := s.stateOf id = .blocked ∧ HasMail id s

instance (id : ℕ) (s : Sched) : Decidable (Stranded id s) := by
  unfold Stranded HasMail
  infer_instance

/-- The two calls that only the receiver makes. -/
def OwnCall (id : ℕ) : Op → Prop
  | .ipcReceive i => i = id
  | .taskBlock i => i = id
  | _ => False

/-- The next call of the receiver. Between a failed `ipc_receive` and the `task_block` it
leads to, `crossed` tells whether a message for the receiver has been accepted. -/
inductive Phase
  | receiving
  | blocking (crossed : Bool)
  deriving DecidableEq

structure Loop where
  sched : Sched
  phase : Phase

/-- One call: the receiver's next one, or one that somebody else makes. -/
inductive Turn (id : ℕ)
  | receiver
  | other (op : Op) (h : ¬ OwnCall id op)

/-- `ipc_send` will queue its message, and its receiver is `id`. -/
def acceptsFor (id : ℕ) (s : Sched) : Op → Bool
  | .ipcSend fromId toId _ _ =>
    fromId < maxTasks && toId < maxTasks && !(s.stateOf toId = .dead : Bool) && toId = id &&
      (Slots.firstSlot ipcQueueSize (fun i => !(s.ipcQueue i).used)).isSome
  | _ => false

def Phase.cross (crossing : Bool) : Phase → Phase
  | .receiving => .receiving
  | .blocking crossed => .blocking (crossed || crossing)

/-- `task_block` returns to its caller, so the receiver may well go on with its loop. -/
def Loop.step (id : ℕ) (l : Loop) : Turn id → Loop × Out
  | .receiver =>
    match l.phase with
    | .receiving =>
      let r := Scheduler.step l.sched (.ipcReceive id)
      (⟨r.1,if r.2 = .received none then .blocking false else .receiving⟩,r.2)
    | .blocking _ =>
      let r := Scheduler.step l.sched (.taskBlock id)
      (⟨r.1,.receiving⟩,r.2)
  | .other op _ =>
    let r := Scheduler.step l.sched op
    (⟨r.1,l.phase.cross (acceptsFor id l.sched op)⟩,r.2)

def loopAfter (id : ℕ) (s : Sched) (turns : List (Turn id)) : Loop :=
  Runs.exec (Loop.step id) ⟨s,.receiving⟩ turns

/-- The receiver blocks after a message has crossed its failed `ipc_receive`. -/
def BlocksAcross {id : ℕ} (l : Loop) : Turn id → Prop
  | .receiver => l.phase = .blocking true
  | .other _ _ => False

instance {id : ℕ} (l : Loop) (t : Turn id) : Decidable (BlocksAcross l t) := by
  cases t <;> unfold BlocksAcross <;> infer_instance

theorem loopAfter_concat (id : ℕ) (s : Sched) (turns : List (Turn id)) (t : Turn id) :
    loopAfter id s (turns++[t]) = ((loopAfter id s turns).step id t).1 := by
  apply Runs.exec_concat

theorem acceptsFor_iff (id : ℕ) (s : Sched) (op : Op) :
    acceptsFor id s op = true ↔ ∃ m, sentBy ⟨s,op,(step s op).2⟩ = [m] ∧ m.toId = id := by
  cases op with
  | ipcSend fromId toId data len =>
    rcases ipcSend_cases s fromId toId data len with ⟨h,hcause⟩ | ⟨i,hi,hf,ht,hd,hfree,hfirst,h⟩
    · constructor
      · intro ha
        simp only [acceptsFor,Bool.and_eq_true,decide_eq_true_eq,Bool.not_eq_true',
          decide_eq_false_iff_not,Option.isSome_iff_exists] at ha
        obtain ⟨⟨⟨⟨hf,ht⟩,hd⟩,-⟩,i,hslot⟩ := ha
        obtain ⟨hi,hfree,-⟩ := Slots.firstSlot_eq_some.mp hslot
        rcases hcause with hc | hc | hc | hc
        · omega
        · omega
        · exact absurd hc hd
        · simp [hc i hi] at hfree
      · rintro ⟨m,hm,-⟩
        simp [sentBy,step,h] at hm
    · have hslot := firstSlot_free hi hfree hfirst
      simp [acceptsFor,hf,ht,hd,hslot,sentBy,step,h]
  | _ => simp [acceptsFor,sentBy]

theorem hasMail_other {id : ℕ} (s : Sched) {op : Op} (hop : ¬ OwnCall id op) :
    HasMail id (step s op).1 ↔ HasMail id s ∨ acceptsFor id s op = true := by
  rw [acceptsFor_iff]
  rcases ledger_step s op with ⟨hq,hs,-⟩ | ⟨low,m,high,hq,hq',hs,-⟩ | ⟨low,m,high,hq,hq',hs,-,hcall,-⟩
  · simp [HasMail,hq,hs]
  · simp only [HasMail,hq,hq',hs,List.mem_append,List.mem_cons,List.cons.injEq,and_true]
    constructor
    · rintro ⟨x,hx | rfl | hx,hto⟩
      · exact Or.inl ⟨x,Or.inl hx,hto⟩
      · exact Or.inr ⟨x,rfl,hto⟩
      · exact Or.inl ⟨x,Or.inr hx,hto⟩
    · rintro (⟨x,hx | hx,hto⟩ | ⟨x,rfl,hto⟩)
      · exact ⟨x,Or.inl hx,hto⟩
      · exact ⟨x,Or.inr (Or.inr hx),hto⟩
      · exact ⟨m,Or.inr (Or.inl rfl),hto⟩
  · have hne : m.toId ≠ id := by
      intro heq
      rw [hcall] at hop
      exact hop heq
    simp only [HasMail,hq,hq',hs,List.mem_append,List.mem_cons,List.nil_eq,reduceCtorEq,false_and,
      exists_false,or_false]
    constructor
    · rintro ⟨x,hx | hx,hto⟩
      · exact ⟨x,Or.inl hx,hto⟩
      · exact ⟨x,Or.inr (Or.inr hx),hto⟩
    · rintro ⟨x,hx | rfl | hx,hto⟩
      · exact ⟨x,Or.inl hx,hto⟩
      · exact absurd hto hne
      · exact ⟨x,Or.inr hx,hto⟩

theorem blocked_other {id : ℕ} {s : Sched} (hs : Sane s) (hid : id < maxTasks) {op : Op}
    (hop : ¬ OwnCall id op) (hb : (step s op).1.stateOf id = .blocked) :
    s.stateOf id = .blocked ∧ acceptsFor id s op = false := by
  have hwas : s.stateOf id = .blocked := by
    rcases step_moves hs.current_lt op hid with heq | hm
    · exact heq ▸ hb
    · rw [hb] at hm
      cases hm
      exact absurd rfl hop
  refine ⟨hwas,?_⟩
  by_contra hacc
  obtain ⟨m,hm,rfl⟩ := (acceptsFor_iff id s op).mp (by simpa using hacc)
  cases op with
  | ipcSend fromId toId data len =>
    by_cases hret : (step s (.ipcSend fromId toId data len)).2 = .int 0
    · obtain rfl : (⟨fromId,toId,data,len⟩ : Message) = m := by simpa [sentBy,hret] using hm
      have hzero : (ipcSend s fromId toId data len).2 = 0 := by simpa [step] using hret
      simp [step,ipcSend_stateOf,hzero,hwas] at hb
    · simp [sentBy,hret] at hm
  | _ => simp [sentBy] at hm

/-- What a waiting loop keeps up while no block crosses a message. -/
structure Awake (id : ℕ) (l : Loop) : Prop where
  sane : Sane l.sched
  not_stranded : ¬ Stranded id l.sched
  crossed_iff : ∀ crossed, l.phase = .blocking crossed → (crossed = true ↔ HasMail id l.sched)

theorem awake_other {id : ℕ} (hid : id < maxTasks) {l : Loop} (hl : Awake id l) {op : Op}
    (hop : ¬ OwnCall id op) : Awake id (l.step id (.other op hop)).1 where
  sane := sane_step hl.sane op
  not_stranded := by
    rintro ⟨hb,hmail⟩
    obtain ⟨hwas,hacc⟩ := blocked_other hl.sane hid hop hb
    rcases (hasMail_other l.sched hop).mp hmail with hold | hnew
    · exact hl.not_stranded ⟨hwas,hold⟩
    · simp [hacc] at hnew
  crossed_iff := by
    intro crossed hphase
    rw [show (l.step id (.other op hop)).1.sched = (step l.sched op).1 from rfl,hasMail_other l.sched hop]
    cases hp : l.phase with
    | receiving => simp [Loop.step,hp,Phase.cross] at hphase
    | blocking c =>
      have hc := hl.crossed_iff c hp
      obtain rfl : (c || acceptsFor id l.sched op) = crossed := by
        simpa [Loop.step,hp,Phase.cross] using hphase
      rw [← hc,Bool.or_eq_true]

theorem awake_receive {id : ℕ} (hid : id < maxTasks) {l : Loop} (hl : Awake id l)
    (hp : l.phase = .receiving) : Awake id (l.step id .receiver).1 := by
  have hsched : (l.step id .receiver).1.sched = (ipcReceive l.sched id).1 := by
    simp [Loop.step,hp,step]
  refine ⟨?_,?_,?_⟩
  · simpa [hsched,step] using sane_step hl.sane (.ipcReceive id)
  · rintro ⟨hb,m,hm,hto⟩
    rw [hsched,ipcReceive_stateOf] at hb
    refine hl.not_stranded ⟨hb,m,?_,hto⟩
    rw [hsched] at hm
    rcases queued_receive l.sched id with ⟨-,hs,-⟩ | ⟨low,x,high,hq,hq',-⟩
    · exact hs ▸ hm
    · rw [hq'] at hm
      rw [hq]
      simp only [List.mem_append,List.mem_cons] at hm ⊢
      tauto
  · intro crossed hphase
    rcases queued_receive l.sched id with ⟨hr,hs,hlarge | hnone⟩ | ⟨low,x,high,-,-,-,-,hr⟩
    · omega
    · obtain rfl : crossed = false := by simpa [Loop.step,hp,step,hr] using hphase.symm
      rw [hsched,hs]
      simpa [HasMail] using hnone
    · simp [Loop.step,hp,step,hr] at hphase

theorem stranded_block_iff {id : ℕ} (hid : id < maxTasks) {l : Loop} (hl : Awake id l) {crossed : Bool}
    (hp : l.phase = .blocking crossed) :
    Stranded id (l.step id .receiver).1.sched ↔ crossed = true := by
  have hsched : (l.step id .receiver).1.sched = taskBlock l.sched id := by
    simp [Loop.step,hp,step]
  have hqueue : queued (taskBlock l.sched id) = queued l.sched := by
    unfold taskBlock
    split_ifs <;> rfl
  rw [hl.crossed_iff crossed hp,hsched,Stranded,taskBlock_stateOf,HasMail,hqueue]
  simp [hid,HasMail]

theorem awake_block {id : ℕ} (hid : id < maxTasks) {l : Loop} (hl : Awake id l)
    (hp : l.phase = .blocking false) : Awake id (l.step id .receiver).1 where
  sane := by simpa [Loop.step,hp] using sane_step hl.sane (.taskBlock id)
  not_stranded := by simp [stranded_block_iff hid hl hp]
  crossed_iff := by simp [Loop.step,hp]

/-- Whatever the other calls are and however they are interleaved with the loop of the
receiver, its wakeup is never lost exactly when it never blocks after a message has
crossed its failed `ipc_receive`. -/
theorem wakeup_iff {id : ℕ} (hid : id < maxTasks) (s : Sched) (ops : List Op)
    (hstart : ¬ Stranded id (after s ops)) (turns : List (Turn id)) :
    Runs.Always (fun pre => ¬ Stranded id (loopAfter id (after s ops) pre).sched) turns ↔
      Runs.EveryStep (fun pre t => ¬ BlocksAcross (loopAfter id (after s ops) pre) t) turns := by
  apply Runs.always_iff_everyStep (R := fun pre => Awake id (loopAfter id (after s ops) pre))
  · exact ⟨sane_after s ops,hstart,fun crossed h => Phase.noConfusion h⟩
  · intro pre t hl hgood
    rw [loopAfter_concat]
    cases t with
    | receiver =>
      cases hp : (loopAfter id (after s ops) pre).phase with
      | receiving => exact awake_receive hid hl hp
      | blocking crossed =>
        cases crossed with
        | false => exact awake_block hid hl hp
        | true => exact absurd hp hgood
    | other op hop => exact awake_other hid hl hop
  · exact fun pre hl => hl.not_stranded
  · intro pre t hl hnot hblocks
    rw [loopAfter_concat] at hnot
    cases t with
    | receiver => exact hnot ((stranded_block_iff hid hl hblocks).mpr rfl)
    | other op hop => exact hblocks

/-- Task 1 finds nothing, blocks, and is woken by the message that comes then. -/
theorem woken_in_time :
    Runs.Always (fun pre => ¬ Stranded 1 (loopAfter 1 (after boot [.taskCreate 4096 5 []]) pre).sched)
      [.receiver,.receiver,.other (.ipcSend 0 1 7 0) id,.receiver] := by
  refine (wakeup_iff (by decide) boot _ (by decide +kernel) _).mpr ?_
  have hcons := Runs.everyStep_cons (Loop.step 1) (fun l t => ¬ BlocksAcross l t)
  refine (hcons _ _ _).mpr ⟨by decide +kernel,(hcons _ _ _).mpr ⟨by decide +kernel,?_⟩⟩
  refine (hcons _ _ _).mpr ⟨by decide +kernel,(hcons _ _ _).mpr ⟨by decide +kernel,?_⟩⟩
  exact Runs.everyStep_nil _

/-- The message comes between the `ipc_receive` that fails and the `task_block`. -/
theorem lost_wakeup :
    ¬ Runs.Always (fun pre => ¬ Stranded 1 (loopAfter 1 (after boot [.taskCreate 4096 5 []]) pre).sched)
      [.receiver,.other (.ipcSend 0 1 7 0) id,.receiver] := by
  intro h
  exact h _ (List.prefix_refl _) (by decide +kernel)

end Scheduler
end ValiantCore
