import ValiantCore.SchedulerFields

/-! How long a task sleeps. Whatever else happens to it and to the others, the ticks alone
count its sleep down, and the last of them makes it ready. -/
namespace ValiantCore
namespace Scheduler

/-- The calls that end or change the sleep of slot `id` before its time. -/
def Disturbs (id : ℕ) : Op → Prop
  | .taskKill i => i = id
  | .taskBlock i => i = id
  | .taskSleep i _ => i = id
  | _ => False

def isTick : Op → Bool
  | .scheduleNext _ => true
  | _ => false

/-- Slot `id` sleeps, with `left` on its countdown, and does not have the processor. -/
structure Asleep (id left : ℕ) (s : Sched) : Prop where
  sane : Sane s
  sleeping : s.stateOf id = .sleeping
  left_eq : (s.tasks id).sleepTicks = left
  not_current : id ≠ s.currentTask

section Sleep
variable {s : Sched} {id left : ℕ}

theorem Asleep.tick_state (h : Asleep id left s) (hid : id < maxTasks) :
    (tick s).stateOf id = if left ≤ 1 then .ready else .sleeping := by
  have hstate : (s.tasks id).state = .sleeping := h.sleeping
  rw [tick_stateOf s hid,wake_state,h.left_eq,hstate]
  simp

theorem tick_sleepTicks (hsleep : s.stateOf id = .sleeping) (hcur : id ≠ s.currentTask)
    (hid : id < maxTasks) : ((tick s).tasks id).sleepTicks = (s.tasks id).sleepTicks-1 := by
  simp [tick,hid,hcur,wake_sleeping hsleep]

theorem Asleep.tick (h : Asleep id left s) (hid : id < maxTasks) (hleft : 1 < left) (sp : ℕ) :
    Asleep id (left-1) (scheduleNext s sp) := by
  have hstate : (Scheduler.tick s).stateOf id = .sleeping := by
    rw [h.tick_state hid,if_neg (by omega)]
  have hticks : ((scheduleNext s sp).tasks id).sleepTicks = left-1 := by
    rw [← h.left_eq,← tick_sleepTicks h.sleeping h.not_current hid]
    exact afterTick_frame (f := Task.sleepTicks) (fun _ _ => rfl) (fun _ _ => rfl) (fun _ _ => rfl) sp
  have hsane : Sane (scheduleNext s sp) := sane_step h.sane (.scheduleNext sp)
  by_cases hsw : Switches s
  · obtain ⟨hcur,-,hst⟩ := scheduleNext_switch h.sane.current_lt hsw sp
    have hne : id ≠ scanned s := by
      intro heq
      have hready := (scanned_spec hsw.2).2
      rw [← heq,hstate] at hready
      simp at hready
    refine ⟨hsane,?_,hticks,by rwa [hcur]⟩
    rw [hst,if_neg hne,if_neg h.not_current,hstate]
  · obtain ⟨hcur,-,hst⟩ := scheduleNext_stay h.sane.current_lt hsw sp
    exact ⟨hsane,by rw [hst,hstate],hticks,by rw [hcur]; exact h.not_current⟩

theorem Asleep.wakes (h : Asleep id left s) (hid : id < maxTasks) (hleft : left ≤ 1) (sp : ℕ) :
    (scheduleNext s sp).stateOf id =
      if (scheduleNext s sp).currentTask = id then .running else .ready := by
  have hstate : (Scheduler.tick s).stateOf id = .ready := by rw [h.tick_state hid,if_pos hleft]
  by_cases hsw : Switches s
  · obtain ⟨hcur,-,hst⟩ := scheduleNext_switch h.sane.current_lt hsw sp
    rw [hst,hcur,if_neg h.not_current,hstate]
    simp only [eq_comm]
  · obtain ⟨hcur,-,hst⟩ := scheduleNext_stay h.sane.current_lt hsw sp
    rw [hst,hcur,hstate,if_neg h.not_current.symm]

theorem Asleep.step (h : Asleep id left s) (hid : id < maxTasks) {op : Op} (hop : ¬ Disturbs id op)
    (htick : ∀ sp, op ≠ .scheduleNext sp) : Asleep id left (step s op).1 := by
  have hcur := currentTask_of_not_schedule s op htick
  have hstate : (Scheduler.step s op).1.stateOf id = .sleeping := by
    rcases step_moves h.sane.current_lt op hid with heq | hmoves
    · rw [heq,h.sleeping]
    · generalize (Scheduler.step s op).1.stateOf id = st at hmoves
      cases hmoves with
      | create hd => simp [h.sleeping] at hd
      | kill => exact absurd rfl hop
      | sleep => rfl
      | block => exact absurd rfl hop
      | unblock hb => simp [h.sleeping] at hb
      | deliver hb => simp [h.sleeping] at hb
      | expire => exact absurd rfl (htick _)
      | preempt => exact absurd rfl (htick _)
      | dispatch => exact absurd rfl (htick _)
  have hcreate : ¬ Creates s id op := by
    intro hc
    cases op with
    | taskCreate entry priority name =>
      rcases taskCreate_cases s entry priority name with ⟨heq,-⟩ | ⟨j,-,-,-,hd,-,heq⟩
      · have hret : (-1 : ℤ) = id := (congrArg Prod.snd heq).symm.trans hc
        omega
      · have hret : (j : ℤ) = id := (congrArg Prod.snd heq).symm.trans hc
        obtain rfl : j = id := by omega
        simp [h.sleeping] at hd
    | _ => exact hc
  refine ⟨sane_step h.sane op,hstate,?_,by rw [hcur]; exact h.not_current⟩
  rw [← h.left_eq]
  apply step_frame (f := Task.sleepTicks) (fun _ _ => rfl) hcreate
  · rintro ticks rfl
    exact absurd rfl hop
  · exact fun _ _ _ _ _ => rfl
  · exact fun sp heq => absurd heq (htick sp)

theorem asleep_taskSleep (hs : Sane s) (hid : id < maxTasks) (hlive : s.stateOf id ≠ .dead)
    (hcur : id ≠ s.currentTask) (n : ℕ) : Asleep id n (taskSleep s id n) where
  sane := sane_step hs (.taskSleep id n)
  sleeping := by
    rw [taskSleep_stateOf,if_pos ⟨rfl,hid,hlive⟩]
  left_eq := by
    have hlive' : (s.tasks id).state ≠ .dead := hlive
    simp [taskSleep,hid.not_ge,hlive']
  not_current := by
    have hkeep : (taskSleep s id n).currentTask = s.currentTask :=
      currentTask_of_not_schedule s (.taskSleep id n) (by simp)
    rwa [hkeep]

/-- Until the last tick of its sleep a task is asleep, and the ticks so far are off its countdown. -/
theorem Asleep.exec (h : Asleep id left s) (hid : id < maxTasks) {ops : List Op}
    (hops : ∀ op ∈ ops, ¬ Disturbs id op) (hcount : ops.countP isTick < max left 1) :
    Asleep id (left-ops.countP isTick) (Runs.exec Scheduler.step s ops) := by
  induction ops generalizing s left with
  | nil => exact h
  | cons op ops ih =>
    have hrest : ∀ o ∈ ops, ¬ Disturbs id o := fun o ho => hops o (List.mem_cons_of_mem _ ho)
    have hfirst := hops op List.mem_cons_self
    rw [Runs.exec_cons]
    by_cases htick : ∃ sp, op = .scheduleNext sp
    · obtain ⟨sp,rfl⟩ := htick
      rw [List.countP_cons_of_pos rfl] at hcount ⊢
      have hnext : Asleep id (left-1) (Scheduler.step s (.scheduleNext sp)).1 := h.tick hid (by omega) sp
      have hrun := ih hnext hrest (by omega)
      rwa [show left-(ops.countP isTick+1) = left-1-ops.countP isTick by omega]
    · have hnot : ¬ isTick op = true := by
        intro hyes
        cases op with
        | scheduleNext sp => exact htick ⟨sp,rfl⟩
        | _ => exact Bool.noConfusion hyes
      rw [List.countP_cons_of_neg hnot] at hcount ⊢
      exact ih (h.step hid hfirst fun sp heq => htick ⟨sp,heq⟩) hrest hcount

end Sleep

/-- A task put to sleep for `n` ticks sleeps until tick number `max n 1`, which makes it ready
or, when the scheduler picks it in the same tick, running. -/
theorem sleep_length (s : Sched) (before : List Op) (id n : ℕ) (hid : id < maxTasks)
    (hlive : (after s before).stateOf id ≠ .dead) (hcur : id ≠ (after s before).currentTask)
    (ops : List Op) (hops : ∀ op ∈ ops, ¬ Disturbs id op) :
    (ops.countP isTick < max n 1 →
      (Runs.exec step (taskSleep (after s before) id n) ops).stateOf id = .sleeping) ∧
    (ops.countP isTick+1 = max n 1 → ∀ sp,
      let t := scheduleNext (Runs.exec step (taskSleep (after s before) id n) ops) sp
      t.stateOf id = if t.currentTask = id then .running else .ready) := by
  have hstart := asleep_taskSleep (sane_after s before) hid hlive hcur n
  constructor
  · intro hcount
    exact (hstart.exec hid hops hcount).sleeping
  · intro hcount sp
    exact (hstart.exec hid hops (by omega)).wakes hid (by omega) sp

/-- A task asleep for two ticks, while it is sent a message and its priority is changed. -/
theorem sleep_length_two_ticks :
    (Runs.exec step (taskSleep (after boot [.taskCreate 4096 5 []]) 1 2)
      [.ipcSend 0 1 7 0,.scheduleNext 8192,.taskSetPriority 1 3]).stateOf 1 = .sleeping :=
  (sleep_length boot [.taskCreate 4096 5 []] 1 2 (by decide) (by decide +kernel) (by decide +kernel)
    [.ipcSend 0 1 7 0,.scheduleNext 8192,.taskSetPriority 1 3] (by simp [Disturbs])).1 (by decide)

end Scheduler
end ValiantCore
