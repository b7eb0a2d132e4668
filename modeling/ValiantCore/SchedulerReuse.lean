import ValiantCore.SchedulerIpc

/-! Message delivery across the reuse of a task slot. A message names its receiver by
slot, and the slot outlives the task: a tagged run also counts the tasks that
`task_create` has put into each slot, and remembers for each queued message which of
them it was accepted for. The tags are written and never read by the scheduler. -/
namespace ValiantCore
namespace Scheduler

/-- The queue slot that `ipc_receive(id)` would take its message from. -/
def pending (s : Sched) (id : ℕ) : Option ℕ :=
  if id ≥ maxTasks then none
  else Slots.firstSlot ipcQueueSize (fun j => (s.ipcQueue j).used && (s.ipcQueue j).toId = id)

theorem ipcReceive_pending (s : Sched) (id : ℕ) :
    ipcReceive s id = match pending s id with
      | none => (s,none)
      | some j => (s.setMsg j { s.ipcQueue j with used := false },
          some ((s.ipcQueue j).data,(s.ipcQueue j).len)) := by
  unfold ipcReceive pending
  split_ifs <;> rfl

theorem pending_eq_some {s : Sched} {id j : ℕ} (h : pending s id = some j) :
    j < ipcQueueSize ∧ (s.ipcQueue j).used = true ∧ (s.ipcQueue j).toId = id := by
  unfold pending at h
  split_ifs at h
  obtain ⟨hj,hhit,-⟩ := Slots.firstSlot_eq_some.mp h
  simp only [Bool.and_eq_true,decide_eq_true_eq] at hhit
  exact ⟨hj,hhit⟩

theorem exists_pending {s : Sched} {m : Message} (hm : m ∈ queued s) (hto : m.toId < maxTasks) :
    ∃ j, pending s m.toId = some j := by
  obtain ⟨i,hi,hu,rfl⟩ := mem_queued.mp hm
  apply Option.ne_none_iff_exists'.mp
  intro hnone
  rw [pending,if_neg (not_le.mpr hto)] at hnone
  simpa [hu] using Slots.firstSlot_eq_none.mp hnone i hi

/-- A scheduler with its tags: `tenant i` counts the tasks created in slot `i`, and
`addressee j` is the tenant for whom the message in queue slot `j` was accepted. -/
structure Tagged where
  sched : Sched
  tenant : ℕ → ℕ
  addressee : ℕ → ℕ

/-- `task_create` returns the slot of its new task. -/
def Tagged.tenants (t : Tagged) : Op → ℕ → ℕ
  | .taskCreate entry priority name =>
    let r := (taskCreate t.sched entry priority name).2
    if r < 0 then t.tenant else Function.update t.tenant r.toNat (t.tenant r.toNat+1)
  | _ => t.tenant

/-- `ipc_send` fills the first free queue slot once it accepts its message. -/
def Tagged.addressees (t : Tagged) : Op → ℕ → ℕ
  | .ipcSend fromId toId data len =>
    if (ipcSend t.sched fromId toId data len).2 = 0 then
      match Slots.firstSlot ipcQueueSize (fun j => !(t.sched.ipcQueue j).used) with
      | none => t.addressee
      | some j => Function.update t.addressee j (t.tenant toId)
    else t.addressee
  | _ => t.addressee

def Tagged.step (t : Tagged) (op : Op) : Tagged × Out :=
  let r := Scheduler.step t.sched op
  (⟨r.1,t.tenants op,t.addressees op⟩,r.2)

def tagged (s : Sched) (ops : List Op) : Tagged :=
  Runs.exec Tagged.step ⟨initScheduler s,fun _ => 0,fun _ => 0⟩ ops

theorem tagged_concat (s : Sched) (ops : List Op) (op : Op) :
    tagged s (ops++[op]) = ((tagged s ops).step op).1 := by
  apply Runs.exec_concat

theorem tagged_sched (s : Sched) (ops : List Op) : (tagged s ops).sched = after s ops := by
  induction ops using List.reverseRecOn with
  | nil => rfl
  | append_singleton ops op ih =>
    rw [tagged_concat,after,Runs.exec_concat]
    change (step (tagged s ops).sched op).1 = _
    rw [ih]
    rfl

/-- What one call does to the queue and to the tags: a new tenant comes in, a message is
accepted for the tenant of its receiver, a message is taken, or nothing changes. -/
inductive Retags (t t' : Tagged) (op : Op) : Prop
  | create (i : ℕ) (hi : i < maxTasks) (hqueue : t'.sched.ipcQueue = t.sched.ipcQueue)
      (htenant : t'.tenant = Function.update t.tenant i (t.tenant i+1))
      (haddr : t'.addressee = t.addressee)
      (hop : ∃ entry priority name, op = .taskCreate entry priority name ∧
        t.sched.taskCount < maxTasks ∧ entry ≠ 0 ∧ t.sched.stateOf i = .dead ∧
        ∀ k < i, t.sched.stateOf k ≠ .dead)
  | send (j : ℕ) (m : IpcMsg) (hqueue : t'.sched.ipcQueue = Function.update t.sched.ipcQueue j m)
      (htenant : t'.tenant = t.tenant)
      (haddr : t'.addressee = Function.update t.addressee j (t.tenant m.toId))
  | receive (j : ℕ) (m : IpcMsg) (hused : m.used = false)
      (hqueue : t'.sched.ipcQueue = Function.update t.sched.ipcQueue j m)
      (htenant : t'.tenant = t.tenant) (haddr : t'.addressee = t.addressee)
  | same (hqueue : t'.sched.ipcQueue = t.sched.ipcQueue) (htenant : t'.tenant = t.tenant)
      (haddr : t'.addressee = t.addressee)

theorem step_retags (t : Tagged) (op : Op) : Retags t (t.step op).1 op := by
  by_cases hcreate : ∃ entry priority name, op = .taskCreate entry priority name
  · obtain ⟨entry,priority,name,rfl⟩ := hcreate
    rcases taskCreate_cases t.sched entry priority name with ⟨h,-⟩ | ⟨i,hi,hc,he,hd,hfirst,h⟩
    · exact .same (by simp [Tagged.step,step,h]) (by simp [Tagged.step,Tagged.tenants,h]) rfl
    · exact .create i hi (by simp [Tagged.step,step,h]) (by simp [Tagged.step,Tagged.tenants,h]) rfl
        ⟨entry,priority,name,rfl,hc,he,hd,hfirst⟩
  · have htenant : t.tenants op = t.tenant := by
      cases op <;> first | rfl | exact absurd ⟨_,_,_,rfl⟩ hcreate
    by_cases hsend : ∃ fromId toId data len, op = .ipcSend fromId toId data len
    · obtain ⟨fromId,toId,data,len,rfl⟩ := hsend
      rcases ipcSend_cases t.sched fromId toId data len with ⟨h,-⟩ | ⟨j,hj,-,-,-,hfree,hfirst,h⟩
      · exact .same (by simp [Tagged.step,step,h]) htenant (by simp [Tagged.step,Tagged.addressees,h])
      · refine .send j ⟨⟨fromId,toId,data,len⟩,true⟩ ?_ htenant ?_
        · simp only [Tagged.step,step,h]
          split_ifs <;> rfl
        · simp [Tagged.step,Tagged.addressees,h,firstSlot_free hj hfree hfirst]
    · have haddr : t.addressees op = t.addressee := by
        cases op <;> first | rfl | exact absurd ⟨_,_,_,_,rfl⟩ hsend
      by_cases hrecv : ∃ id, op = .ipcReceive id
      · obtain ⟨id,rfl⟩ := hrecv
        rcases ipcReceive_cases t.sched id with ⟨h,-⟩ | ⟨j,-,-,-,-,-,h⟩
        · exact .same (by simp [Tagged.step,step,h]) htenant haddr
        · exact .receive j { t.sched.ipcQueue j with used := false } rfl
            (by simp [Tagged.step,step,h]) htenant haddr
      · refine .same (ipcQueue_step t.sched op ?_ ?_) htenant haddr
        · exact fun fromId toId data len h => hsend ⟨fromId,toId,data,len,h⟩
        · exact fun id h => hrecv ⟨id,h⟩

/-- Whatever `ipc_receive` can hand out now was accepted for the tenant its slot has now,
that is, after the creation of this tenant. -/
def OwnMail (t : Tagged) : Prop :=
  ∀ id j, pending t.sched id = some j → t.addressee j = t.tenant id

/-- Every queued message is addressed to the present tenant. -/
def Addressed (t : Tagged) : Prop :=
  ∀ j < ipcQueueSize, (t.sched.ipcQueue j).used = true →
    t.addressee j = t.tenant (t.sched.ipcQueue j).toId

/-- A `task_create` that fills a slot for which a message is still queued. -/
def InheritsMail (s : Sched) : Op → Prop
  | .taskCreate entry _ _ => s.taskCount < maxTasks ∧ entry ≠ 0 ∧
      ∃ i < maxTasks, s.stateOf i = .dead ∧ (∀ k < i, s.stateOf k ≠ .dead) ∧
        ∃ m ∈ queued s, m.toId = i
  | _ => False

theorem Addressed.ownMail {t : Tagged} (h : Addressed t) : OwnMail t := by
  intro id j hj
  obtain ⟨hlt,hu,rfl⟩ := pending_eq_some hj
  exact h j hlt hu

theorem addressed_step {t : Tagged} (ht : Addressed t) {op : Op}
    (hop : ¬ InheritsMail t.sched op) : Addressed (t.step op).1 := by
  intro j hj
  cases step_retags t op with
  | create i hi hqueue htenant haddr hcall =>
    obtain ⟨entry,priority,name,rfl,hc,he,hd,hfirst⟩ := hcall
    rw [hqueue,htenant,haddr]
    intro hu
    have hne : (t.sched.ipcQueue j).toId ≠ i := by
      intro hto
      exact hop ⟨hc,he,i,hi,hd,hfirst,_,mem_queued.mpr ⟨j,hj,hu,rfl⟩,hto⟩
    rw [Function.update_of_ne hne]
    exact ht j hj hu
  | send k m hqueue htenant haddr =>
    rw [hqueue,htenant,haddr]
    by_cases hjk : j = k
    · subst hjk
      simp
    · rw [Function.update_of_ne hjk,Function.update_of_ne hjk]
      exact ht j hj
  | receive k m hused hqueue htenant haddr =>
    rw [hqueue,htenant,haddr]
    by_cases hjk : j = k
    · subst hjk
      simp [hused]
    · rw [Function.update_of_ne hjk]
      exact ht j hj
  | same hqueue htenant haddr =>
    rw [hqueue,htenant,haddr]
    exact ht j hj

/-- A creation changes neither the queue nor the addressees, and brings the new tenant
to the first dead slot. -/
theorem step_create {t : Tagged} {entry priority : ℕ} {name : List UInt8} {i : ℕ}
    (hc : t.sched.taskCount < maxTasks) (he : entry ≠ 0) (hi : i < maxTasks)
    (hd : t.sched.stateOf i = .dead) (hfirst : ∀ k < i, t.sched.stateOf k ≠ .dead) :
    (t.step (.taskCreate entry priority name)).1.sched.ipcQueue = t.sched.ipcQueue ∧
      (t.step (.taskCreate entry priority name)).1.tenant =
        Function.update t.tenant i (t.tenant i+1) := by
  have h := taskCreate_first hc he hi hd hfirst priority name
  exact ⟨by simp [Tagged.step,step,h],by simp [Tagged.step,Tagged.tenants,h]⟩

theorem not_ownMail_of_inheritsMail {t : Tagged} (ht : Addressed t) {op : Op}
    (hop : InheritsMail t.sched op) : ¬ OwnMail (t.step op).1 := by
  intro hown
  cases op with
  | taskCreate entry priority name =>
    obtain ⟨hc,he,i,hi,hd,hfirst,m,hm,rfl⟩ := hop
    obtain ⟨hqueue,htenant⟩ := @step_create t entry priority name _ hc he hi hd hfirst
    obtain ⟨j,hj⟩ := exists_pending hm hi
    obtain ⟨hlt,hu,hto⟩ := pending_eq_some hj
    have hpend : pending (t.step (.taskCreate entry priority name)).1.sched m.toId = some j := by
      rw [← hj]
      simp only [pending,hqueue]
    have hnew := hown m.toId j hpend
    have hold := ht j hlt hu
    rw [htenant,Function.update_self,show (t.step _).1.addressee j = t.addressee j from rfl,hold,
      hto] at hnew
    omega
  | _ => exact hop

/-- In a run, no receiver can be handed a message that was accepted for an earlier tenant
of its slot, exactly when no task is created in a slot that messages are queued for. -/
theorem ownMail_iff (s : Sched) (ops : List Op) :
    Runs.Always (fun pre => OwnMail (tagged s pre)) ops ↔
      Runs.EveryStep (fun pre op => ¬ InheritsMail (after s pre) op) ops := by
  apply Runs.always_iff_everyStep (R := fun pre => Addressed (tagged s pre))
  · intro j hj hu
    simp [tagged,initScheduler,hj] at hu
  · intro pre op ht hop
    rw [← tagged_sched] at hop
    rw [tagged_concat]
    exact addressed_step ht hop
  · exact fun pre => Addressed.ownMail
  · intro pre op ht hown hop
    rw [← tagged_sched] at hop
    rw [tagged_concat] at hown
    exact not_ownMail_of_inheritsMail ht hop hown

/-- Slot 1 is reused while the message sent to its first tenant is still queued. -/
def inheritedRun : List Op :=
  [.taskCreate 4096 5 [],.ipcSend 0 1 7 0,.taskKill 1,.taskCreate 8192 5 []]

theorem inherited_mail : ¬ Runs.Always (fun pre => OwnMail (tagged boot pre)) inheritedRun := by
  intro h
  have hown := h _ (List.prefix_refl _) 1 0 (by decide +kernel)
  exact absurd hown (by decide +kernel)

end Scheduler
end ValiantCore
