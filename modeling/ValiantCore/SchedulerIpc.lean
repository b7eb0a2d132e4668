import ValiantCore.SchedulerInvariants
import Mathlib.Algebra.FreeMonoid.Basic
import Mathlib.Algebra.Order.Group.Multiset

/-! The message queue of the scheduler as a ledger: what was sent is what was received
and what is still queued. The order of delivery is the order of the slots, which is the
order of sending only while no send fills a free slot below an older message. -/
namespace ValiantCore
namespace Scheduler

/-- What a queue slot holds: nothing unless its `used` flag is set. -/
def IpcMsg.content (m : IpcMsg) : Option Message := if m.used then some m.toMessage else none

def queued (s : Sched) : List Message := Slots.contents IpcMsg.content ipcQueueSize s.ipcQueue

theorem mem_queued {s : Sched} {m : Message} :
    m ∈ queued s ↔ ∃ i < ipcQueueSize, (s.ipcQueue i).used = true ∧ (s.ipcQueue i).toMessage = m := by
  simp only [queued,Slots.mem_contents,IpcMsg.content,Option.ite_none_right_eq_some,Option.some.injEq]

theorem queued_init (s : Sched) : queued (initScheduler s) = [] := by
  apply List.eq_nil_iff_forall_not_mem.mpr
  intro m hm
  obtain ⟨i,hi,hu,-⟩ := mem_queued.mp hm
  simp [initScheduler,hi] at hu

theorem ipcQueue_step (s : Sched) (op : Op)
    (hsend : ∀ fromId toId data len, op ≠ .ipcSend fromId toId data len)
    (hrecv : ∀ id, op ≠ .ipcReceive id) : (step s op).1.ipcQueue = s.ipcQueue :=
  (step_leaves s op).2.2 hsend hrecv

/-- A successful send puts its message between what the lower slots hold and what the
slots above the free one hold. -/
theorem queued_send (s : Sched) (fromId toId data len : ℕ) :
    ((ipcSend s fromId toId data len).2 = -1 ∧ (ipcSend s fromId toId data len).1 = s) ∨
    ((ipcSend s fromId toId data len).2 = 0 ∧ fromId < maxTasks ∧ toId < maxTasks ∧
      s.stateOf toId ≠ .dead ∧ ∃ low high, queued s = low++high ∧
      queued (ipcSend s fromId toId data len).1 = low++⟨fromId,toId,data,len⟩::high ∧
      ∀ m ∈ high, ∃ i j, i < j ∧ j < ipcQueueSize ∧ (s.ipcQueue i).used = false ∧
        (s.ipcQueue j).used = true ∧ (s.ipcQueue j).toMessage = m) := by
  rcases ipcSend_cases s fromId toId data len with ⟨h,-⟩ | ⟨i,hi,hf,ht,hd,hfree,-,h⟩
  · exact Or.inl ⟨by rw [h],by rw [h]⟩
  · right
    obtain ⟨above,hmem,hcont⟩ := Slots.contents_update IpcMsg.content hi s.ipcQueue
    refine ⟨by rw [h],hf,ht,hd,Slots.contents IpcMsg.content i s.ipcQueue,above,?_,?_,?_⟩
    · have hold := hcont (s.ipcQueue i)
      rw [Function.update_eq_self] at hold
      simpa [queued,IpcMsg.content,hfree] using hold
    · have hnew := hcont ⟨⟨fromId,toId,data,len⟩,true⟩
      rw [h]
      simp only [queued] at hnew ⊢
      split_ifs <;> simpa [IpcMsg.content] using hnew
    · intro m hm
      obtain ⟨j,hij,hj,hv⟩ := hmem m hm
      simp only [IpcMsg.content,Option.ite_none_right_eq_some,Option.some.injEq] at hv
      exact ⟨i,j,hij,hj,hfree,hv.1,hv.2⟩

theorem queued_receive (s : Sched) (id : ℕ) :
    ((ipcReceive s id).2 = none ∧ (ipcReceive s id).1 = s ∧
      (maxTasks ≤ id ∨ ∀ m ∈ queued s, m.toId ≠ id)) ∨
    ∃ low m high, queued s = low++m::high ∧ queued (ipcReceive s id).1 = low++high ∧
      m.toId = id ∧ (∀ x ∈ low, x.toId ≠ id) ∧ (ipcReceive s id).2 = some (m.data,m.len) := by
  rcases ipcReceive_cases s id with ⟨h,hnone⟩ | ⟨i,hi,-,hused,hto,hfirst,h⟩
  · refine Or.inl ⟨by rw [h],by rw [h],hnone.imp_right fun hn m hm => ?_⟩
    obtain ⟨i,hi,hu,rfl⟩ := mem_queued.mp hm
    exact hn i hi hu
  · right
    obtain ⟨above,-,hcont⟩ := Slots.contents_update IpcMsg.content hi s.ipcQueue
    refine ⟨Slots.contents IpcMsg.content i s.ipcQueue,(s.ipcQueue i).toMessage,above,?_,?_,hto,?_,by rw [h]⟩
    · have hold := hcont (s.ipcQueue i)
      rw [Function.update_eq_self] at hold
      simpa [queued,IpcMsg.content,hused] using hold
    · have hnew := hcont { s.ipcQueue i with used := false }
      rw [h]
      simpa [queued,IpcMsg.content] using hnew
    · intro x hx
      obtain ⟨j,hj,hv⟩ := (Slots.mem_contents _).mp hx
      simp only [IpcMsg.content,Option.ite_none_right_eq_some,Option.some.injEq] at hv
      obtain ⟨hu,rfl⟩ := hv
      exact hfirst j hj hu

/-- The message a step has accepted, if it is a successful `ipc_send`. -/
def sentBy (e : Runs.Event Sched Op Out) : List Message :=
  match e.op with
  | .ipcSend fromId toId data len => if e.out = .int 0 then [⟨fromId,toId,data,len⟩] else []
  | _ => []

/-- The message a step has handed out, if it is a successful `ipc_receive`: the first
queued message addressed to the receiver. -/
def receivedBy (e : Runs.Event Sched Op Out) : List Message :=
  match e.op with
  | .ipcReceive id =>
    if e.out = .received none then [] else ((queued e.before).find? fun m => m.toId = id).toList
  | _ => []

def sent (s : Sched) (ops : List Op) : List Message :=
  (Runs.trace step (initScheduler s) ops).flatMap sentBy

def received (s : Sched) (ops : List Op) : List Message :=
  (Runs.trace step (initScheduler s) ops).flatMap receivedBy

theorem find_first {low high : List Message} {m : Message} {id : ℕ} (hm : m.toId = id)
    (hlow : ∀ x ∈ low, x.toId ≠ id) :
    (low++m::high).find? (fun m => m.toId = id) = some m := by
  rw [List.find?_append,List.find?_eq_none.mpr (by simpa using hlow)]
  simp [hm]

theorem ledger_step (s : Sched) (op : Op) :
    (queued (step s op).1 = queued s ∧ sentBy ⟨s,op,(step s op).2⟩ = [] ∧
      receivedBy ⟨s,op,(step s op).2⟩ = []) ∨
    (∃ low m high, queued s = low++high ∧ queued (step s op).1 = low++m::high ∧
      sentBy ⟨s,op,(step s op).2⟩ = [m] ∧ receivedBy ⟨s,op,(step s op).2⟩ = [] ∧
      op = .ipcSend m.fromId m.toId m.data m.len ∧ m.fromId < maxTasks ∧ m.toId < maxTasks ∧
      s.stateOf m.toId ≠ .dead ∧
      ∀ x ∈ high, ∃ i j, i < j ∧ j < ipcQueueSize ∧ (s.ipcQueue i).used = false ∧
        (s.ipcQueue j).used = true ∧ (s.ipcQueue j).toMessage = x) ∨
    (∃ low m high, queued s = low++m::high ∧ queued (step s op).1 = low++high ∧
      sentBy ⟨s,op,(step s op).2⟩ = [] ∧ receivedBy ⟨s,op,(step s op).2⟩ = [m] ∧
      op = .ipcReceive m.toId ∧ ∀ x ∈ low, x.toId ≠ m.toId) := by
  by_cases hsend : ∃ fromId toId data len, op = .ipcSend fromId toId data len
  · obtain ⟨fromId,toId,data,len,rfl⟩ := hsend
    rcases queued_send s fromId toId data len with ⟨hr,hs⟩ | ⟨hr,hf,ht,hd,low,high,hq,hq',hh⟩
    · exact Or.inl ⟨by simp [step,hs],by simp [sentBy,step,hr],rfl⟩
    · exact Or.inr (Or.inl ⟨low,⟨fromId,toId,data,len⟩,high,hq,hq',by simp [sentBy,step,hr],rfl,
        rfl,hf,ht,hd,hh⟩)
  · by_cases hrecv : ∃ id, op = .ipcReceive id
    · obtain ⟨id,rfl⟩ := hrecv
      rcases queued_receive s id with ⟨hr,hs,-⟩ | ⟨low,m,high,hq,hq',hm,hlow,hr⟩
      · exact Or.inl ⟨by simp [step,hs],rfl,by simp [receivedBy,step,hr]⟩
      · refine Or.inr (Or.inr ⟨low,m,high,hq,hq',rfl,?_,by rw [hm],by rwa [hm]⟩)
        simp [receivedBy,step,hr,hq,find_first hm hlow]
    · have h1 : ∀ fromId toId data len, op ≠ .ipcSend fromId toId data len :=
        fun f t d l h => hsend ⟨f,t,d,l,h⟩
      have h2 : ∀ id, op ≠ .ipcReceive id := fun id h => hrecv ⟨id,h⟩
      refine Or.inl ⟨by rw [queued,queued,ipcQueue_step s op h1 h2],?_,?_⟩
      · cases op <;> first | rfl | exact absurd rfl (h1 _ _ _ _)
      · cases op <;> first | rfl | exact absurd rfl (h2 _)

/-- Nothing is lost and nothing is duplicated, over any run. -/
theorem ledger (s : Sched) (ops : List Op) :
    (sent s ops : Multiset Message) = (received s ops : Multiset Message) + queued (after s ops) := by
  have hb := Runs.exec_ledger step sentBy receivedBy queued
    (fun l => (l : Multiset Message)) rfl (fun _ _ => rfl) (fun _ _ => True) ?_ (s := initScheduler s)
    (show Runs.EveryStep _ ops from fun _ _ _ => trivial)
  · rw [queued_init] at hb
    simpa [sent,received,after] using hb.symm
  · intro s op _
    rcases ledger_step s op with ⟨hq,hs,hr⟩ | ⟨low,m,high,hq,hq',hs,hr,-⟩ | ⟨low,m,high,hq,hq',hs,hr,-⟩
    · simp [hq,hs,hr]
    · rw [hq,hq',hs,hr]
      simp only [Multiset.coe_add,List.nil_append]
      exact Multiset.coe_eq_coe.mpr (List.perm_middle.trans (List.perm_append_singleton _ _).symm)
    · rw [hq,hq',hs,hr]
      simp only [Multiset.coe_add,List.append_nil]
      exact Multiset.coe_eq_coe.mpr (by simpa using List.perm_middle.symm)

theorem queued_toId (s : Sched) (ops : List Op) : ∀ m ∈ queued (after s ops), m.toId < maxTasks := by
  refine Runs.exec_invariant step (fun s => ∀ m ∈ queued s, m.toId < maxTasks) ?_ ?_ ops
  · intro s op hs x hx
    rcases ledger_step s op with ⟨hq,-⟩ | ⟨low,m,high,hq,hq',-,-,-,-,ht,-⟩ | ⟨low,m,high,hq,hq',-⟩
    · exact hs x (hq ▸ hx)
    · rw [hq',List.mem_append,List.mem_cons] at hx
      rcases hx with hx | rfl | hx
      · exact hs x (by simp [hq,hx])
      · exact ht
      · exact hs x (by simp [hq,hx])
    · rw [hq',List.mem_append] at hx
      rcases hx with hx | hx <;> exact hs x (by simp [hq,hx])
  · simp [queued_init]

/-- The ledger of every run, with the exact conditions under which a send or a receive
fails; a failing call leaves the whole state as it was. -/
theorem ipc_conservation (s : Sched) (ops : List Op) :
    ((sent s ops : Multiset Message) = (received s ops : Multiset Message) + queued (after s ops)) ∧
    (∀ id data len, (ipcReceive (after s ops) id).2 = some (data,len) →
      ∃ m ∈ queued (after s ops), m.toId = id ∧ m.data = data ∧ m.len = len ∧
        receivedBy ⟨after s ops,.ipcReceive id,.received (some (data,len))⟩ = [m]) ∧
    (∀ id, (ipcReceive (after s ops) id).2 = none →
      (∀ m ∈ queued (after s ops), m.toId ≠ id) ∧ (ipcReceive (after s ops) id).1 = after s ops) ∧
    (∀ fromId toId data len, (ipcSend (after s ops) fromId toId data len).2 = -1 ↔
      maxTasks ≤ fromId ∨ maxTasks ≤ toId ∨ (after s ops).stateOf toId = .dead ∨
        ∀ i < ipcQueueSize, ((after s ops).ipcQueue i).used = true) ∧
    (∀ fromId toId data len, (ipcSend (after s ops) fromId toId data len).2 = -1 →
      (ipcSend (after s ops) fromId toId data len).1 = after s ops) := by
  refine ⟨ledger s ops,?_,?_,?_,?_⟩
  · intro id data len hr
    rcases queued_receive (after s ops) id with ⟨hn,-⟩ | ⟨low,m,high,hq,-,hm,hlow,hres⟩
    · simp [hn] at hr
    · obtain ⟨rfl,rfl⟩ : m.data = data ∧ m.len = len := by simpa [hres] using hr
      exact ⟨m,by simp [hq],hm,rfl,rfl,by simp [receivedBy,hq,find_first hm hlow]⟩
  · intro id hr
    rcases queued_receive (after s ops) id with ⟨-,hs,hlarge | hnone⟩ | ⟨low,m,high,-,-,-,-,hres⟩
    · exact ⟨fun m hm heq => absurd (queued_toId s ops m hm) (by omega),hs⟩
    · exact ⟨hnone,hs⟩
    · simp [hres] at hr
  · intro fromId toId data len
    rcases ipcSend_cases (after s ops) fromId toId data len with
      ⟨h,hcause⟩ | ⟨i,hi,hf,ht,hd,hfree,-,h⟩
    · exact ⟨fun _ => hcause,fun _ => by rw [h]⟩
    · constructor
      · intro hr
        simp [h] at hr
      · rintro (hc | hc | hc | hc)
        · omega
        · omega
        · exact absurd hc hd
        · simp [hc i hi] at hfree
  · intro fromId toId data len hr
    rcases queued_send (after s ops) fromId toId data len with ⟨-,hs⟩ | ⟨h0,-⟩
    · exact hs
    · rw [h0] at hr
      exact absurd hr (by decide)

/-- What receiver `id` has been handed so far is the beginning of what was sent to it. -/
def Fifo (id : ℕ) (s : Sched) (ops : List Op) : Prop :=
  (received s ops).filter (fun m => m.toId = id) <+: (sent s ops).filter (fun m => m.toId = id)

instance (id : ℕ) (s : Sched) (ops : List Op) : Decidable (Fifo id s ops) :=
  inferInstanceAs (Decidable (_ <+: _))

/-- A send that succeeds while a free slot lies below an older message to its receiver. -/
def Overtakes (s : Sched) : Op → Prop
  | .ipcSend fromId toId _ _ => fromId < maxTasks ∧ toId < maxTasks ∧ s.stateOf toId ≠ .dead ∧
      ∃ i j, i < j ∧ j < ipcQueueSize ∧ (s.ipcQueue i).used = false ∧
        (s.ipcQueue j).used = true ∧ (s.ipcQueue j).toId = toId
  | _ => False

theorem fifo_step (id : ℕ) (s : Sched) (op : Op) (hop : ¬ Overtakes s op) :
    (receivedBy ⟨s,op,(step s op).2⟩).filter (fun m => m.toId = id) ++
        (queued (step s op).1).filter (fun m => m.toId = id) =
      (queued s).filter (fun m => m.toId = id) ++
        (sentBy ⟨s,op,(step s op).2⟩).filter (fun m => m.toId = id) := by
  rcases ledger_step s op with ⟨hq,hs,hr⟩ | ⟨low,m,high,hq,hq',hs,hr,hcall,hf,ht,hd,hhigh⟩ |
    ⟨low,m,high,hq,hq',hs,hr,-,hlow⟩
  · simp [hq,hs,hr]
  · rw [hq,hq',hs,hr]
    by_cases hm : m.toId = id
    · -- no older message for this receiver lies above the slot that was filled
      have hnone : high.filter (fun m => m.toId = id) = [] := by
        rw [List.filter_eq_nil_iff]
        intro x hx hxid
        obtain ⟨i,j,hij,hj,hfree,hu,rfl⟩ := hhigh x hx
        rw [hcall] at hop
        exact hop ⟨hf,ht,hd,i,j,hij,hj,hfree,hu,(of_decide_eq_true hxid).trans hm.symm⟩
      simp [hm,hnone]
    · simp [hm]
  · rw [hq,hq',hs,hr]
    by_cases hm : m.toId = id
    · have hnone : low.filter (fun m => m.toId = id) = [] := by
        rw [List.filter_eq_nil_iff]
        intro x hx hxid
        exact hlow x hx ((of_decide_eq_true hxid).trans hm.symm)
      simp [hm,hnone]
    · simp [hm]

/-- Along a run in which no send overtakes, every receiver gets its messages in the order
in which they were sent. -/
theorem fifo_of_no_overtaking (s : Sched) (ops : List Op)
    (h : Runs.EveryStep (fun pre op => ¬ Overtakes (after s pre) op) ops) (id : ℕ) :
    Runs.Always (Fifo id s) ops := by
  intro pre hpre
  have hguard : Runs.EveryStep (fun p op => ¬ Overtakes (after s p) op) pre :=
    fun p op hp => h p op (hp.trans hpre)
  have hb := Runs.exec_ledger step sentBy receivedBy queued
    (fun l : List Message => FreeAddMonoid.ofList (l.filter fun m : Message => m.toId = id)) rfl
    (fun _ _ => by simp)
    (fun s op => ¬ Overtakes s op) (fun s op hop => fifo_step id s op hop) hguard
  have hl := congrArg FreeAddMonoid.toList hb
  simp only [queued_init,FreeAddMonoid.toList_add,FreeAddMonoid.toList_ofList,List.filter_nil,
    List.nil_append] at hl
  exact ⟨_,hl⟩

/-- A run for task 1 in which every send finds the queue empty. -/
theorem fifo_in_turn : Fifo 1 boot
    [.taskCreate 4096 5 [],.ipcSend 0 1 1 0,.ipcReceive 1,.ipcSend 0 1 2 0,.ipcReceive 1] := by
  refine fifo_of_no_overtaking boot _ ?_ 1 _ (List.prefix_refl _)
  have hempty : ∀ {s : Sched} {fromId toId data len : ℕ},
      (∀ j < ipcQueueSize, (s.ipcQueue j).used = false) →
      ¬ Overtakes s (.ipcSend fromId toId data len) := by
    rintro s fromId toId data len h ⟨-,-,-,i,j,-,hj,-,hu,-⟩
    simp [h j hj] at hu
  have hcons := Runs.everyStep_cons step (fun s op => ¬ Overtakes s op)
  refine (hcons _ _ _).mpr ⟨id,(hcons _ _ _).mpr ⟨hempty (by decide +kernel),?_⟩⟩
  refine (hcons _ _ _).mpr ⟨id,(hcons _ _ _).mpr ⟨hempty (by decide +kernel),?_⟩⟩
  exact (hcons _ _ _).mpr ⟨id,Runs.everyStep_nil _⟩

/-- A run for task 1 whose second send goes below the message that is still queued. -/
def reorderedRun : List Op :=
  [.taskCreate 4096 5 [],.ipcSend 0 1 1 0,.ipcSend 0 1 2 0,.ipcReceive 1,.ipcSend 0 1 3 0,
    .ipcReceive 1,.ipcReceive 1]

theorem reordered_run_not_fifo : ¬ Runs.Always (Fifo 1 boot) reorderedRun := by
  intro h
  exact absurd (h _ (List.prefix_refl _)) (by decide +kernel)

end Scheduler
end ValiantCore
