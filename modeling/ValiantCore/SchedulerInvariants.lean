import ValiantCore.SchedulerTable

/-! The state machine of one task slot, and the invariants of every reachable state:
one running slot at most, and a kernel task that is never dead. -/
namespace ValiantCore
namespace Scheduler

/-- All the ways a call can give slot `i` a state: the transition diagram of a task. -/
inductive Moves (s : Sched) (i : ℕ) : Op → TaskState → Prop
  | create {entry priority : ℕ} {name : List UInt8} (hd : s.stateOf i = .dead)
      (hr : (taskCreate s entry priority name).2 = (i : ℤ)) :
      Moves s i (.taskCreate entry priority name) .ready
  | kill (hi : 0 < i) : Moves s i (.taskKill i) .dead
  | sleep {ticks : ℕ} (hd : s.stateOf i ≠ .dead) : Moves s i (.taskSleep i ticks) .sleeping
  | block : Moves s i (.taskBlock i) .blocked
  | unblock (hb : s.stateOf i = .blocked) : Moves s i (.taskUnblock i) .ready
  | deliver {fromId data len : ℕ} (hb : s.stateOf i = .blocked) :
      Moves s i (.ipcSend fromId i data len) .ready
  | expire {sp : ℕ} (hs : s.stateOf i = .sleeping) (ht : (s.tasks i).sleepTicks ≤ 1) :
      Moves s i (.scheduleNext sp) .ready
  | preempt {sp : ℕ} (hi : i = s.currentTask) (hsw : Switches s) :
      Moves s i (.scheduleNext sp) .ready
  | dispatch {sp : ℕ} (hi : i = scanned s) (hsw : Switches s) :
      Moves s i (.scheduleNext sp) .running

theorem tick_moves (s : Sched) {i : ℕ} (hi : i < maxTasks) (sp : ℕ) :
    (tick s).stateOf i = s.stateOf i ∨ Moves s i (.scheduleNext sp) ((tick s).stateOf i) := by
  rw [tick_stateOf s hi,wake_state]
  split_ifs with h
  · exact Or.inr (.expire h.1 h.2)
  · exact Or.inl rfl

/-- A call leaves the state of a slot alone or takes one transition of the diagram. -/
theorem step_moves {s : Sched} (hc : s.currentTask < maxTasks) (op : Op) {i : ℕ}
    (hi : i < maxTasks) :
    (step s op).1.stateOf i = s.stateOf i ∨ Moves s i op ((step s op).1.stateOf i) := by
  cases op with
  | taskCreate entry priority name =>
    rcases taskCreate_cases s entry priority name with ⟨h,-⟩ | ⟨j,-,-,-,hd,-,h⟩
    · simp [step,h]
    · by_cases hij : i = j
      · subst hij
        right
        simpa [step,h] using Moves.create hd (congrArg Prod.snd h)
      · simp [step,h,hij]
  | taskKill id =>
    simp only [step,taskKill_stateOf]
    split_ifs with h
    · obtain ⟨rfl,hp,-⟩ := h
      exact Or.inr (.kill hp)
    · exact Or.inl rfl
  | taskSleep id ticks =>
    simp only [step,taskSleep_stateOf]
    split_ifs with h
    · obtain ⟨rfl,-,hd⟩ := h
      exact Or.inr (.sleep hd)
    · exact Or.inl rfl
  | taskSetPriority id priority => simp [step]
  | taskBlock id =>
    simp only [step,taskBlock_stateOf]
    split_ifs with h
    · obtain ⟨rfl,-⟩ := h
      exact Or.inr .block
    · exact Or.inl rfl
  | taskUnblock id =>
    simp only [step,taskUnblock_stateOf]
    split_ifs with h
    · obtain ⟨rfl,-,hb⟩ := h
      exact Or.inr (.unblock hb)
    · exact Or.inl rfl
  | scheduleNext sp =>
    by_cases hsw : Switches s
    · simp only [step,(scheduleNext_switch hc hsw sp).2.2]
      split_ifs with hn hcur
      · exact Or.inr (.dispatch hn hsw)
      · exact Or.inr (.preempt hcur hsw)
      · exact tick_moves s hi sp
    · simp only [step,(scheduleNext_stay hc hsw sp).2.2]
      exact tick_moves s hi sp
  | ipcSend fromId toId data len =>
    simp only [step,ipcSend_stateOf]
    split_ifs with h
    · obtain ⟨rfl,-,hb⟩ := h
      exact Or.inr (.deliver hb)
    · exact Or.inl rfl
  | ipcReceive id => simp [step]

/-- What holds in every state after `init_scheduler`. -/
structure Sane (s : Sched) : Prop where
  current_lt : s.currentTask < maxTasks
  kernel_alive : s.stateOf 0 ≠ .dead
  running_current : ∀ i < maxTasks, s.stateOf i = .running → i = s.currentTask

theorem sane_init (s : Sched) : Sane (initScheduler s) where
  current_lt := by simp [initScheduler,maxTasks]
  kernel_alive := by rw [initScheduler_stateOf s (by decide)]; decide
  running_current := by
    intro i hi hr
    rw [initScheduler_stateOf s hi] at hr
    by_contra hne
    have h0 : ¬ i = 0 := hne
    simp [h0] at hr

theorem sane_step {s : Sched} (h : Sane s) (op : Op) : Sane (step s op).1 := by
  have hk : (step s op).1.stateOf 0 ≠ .dead := by
    rcases step_moves h.current_lt op (i := 0) (by decide) with heq | hm
    · rw [heq]; exact h.kernel_alive
    · intro hd
      rw [hd] at hm
      cases hm
      contradiction
  by_cases hop : ∃ sp, op = .scheduleNext sp
  · obtain ⟨sp,rfl⟩ := hop
    by_cases hsw : Switches s
    · obtain ⟨hcur,-,hst⟩ := scheduleNext_switch h.current_lt hsw sp
      refine ⟨?_,hk,?_⟩
      · simpa only [step,hcur] using (scanned_spec hsw.2).1
      · intro i hi hr
        simp only [step] at hr ⊢
        rw [hcur]
        by_contra hne
        rw [hst,if_neg hne] at hr
        split_ifs at hr with hi'
        rcases tick_moves s hi sp with heq | hm
        · exact hi' (h.running_current i hi (heq ▸ hr))
        · rw [hr] at hm
          cases hm with
          | dispatch hi _ => exact hne hi
    · obtain ⟨hcur,-,hst⟩ := scheduleNext_stay h.current_lt hsw sp
      refine ⟨by simpa only [step,hcur] using h.current_lt,hk,?_⟩
      intro i hi hr
      simp only [step] at hr ⊢
      rw [hcur]
      rw [hst] at hr
      rcases tick_moves s hi sp with heq | hm
      · exact h.running_current i hi (heq ▸ hr)
      · rw [hr] at hm
        cases hm with
        | dispatch _ hsw' => exact absurd hsw' hsw
  · have hcur := currentTask_of_not_schedule s op fun sp hs => hop ⟨sp,hs⟩
    refine ⟨hcur ▸ h.current_lt,hk,?_⟩
    intro i hi hr
    rw [hcur]
    rcases step_moves h.current_lt op hi with heq | hm
    · exact h.running_current i hi (heq ▸ hr)
    · rw [hr] at hm
      cases hm
      exact absurd ⟨_,rfl⟩ hop

theorem sane_after (s : Sched) (ops : List Op) : Sane (after s ops) :=
  Runs.exec_invariant step Sane (fun _ op h => sane_step h op) (sane_init s) ops

/-- Along every run, the table is sane, and a switch goes to a slot that was ready at
the moment of the switch and runs afterwards. -/
theorem running_slot_invariant (s : Sched) (ops : List Op) :
    Sane (after s ops) ∧ ∀ sp,
      (scheduleNext (after s ops) sp).currentTask ≠ (after s ops).currentTask →
        (freshSlice (after s ops)).stateOf (scheduleNext (after s ops) sp).currentTask = .ready ∧
        (scheduleNext (after s ops) sp).stateOf (scheduleNext (after s ops) sp).currentTask = .running := by
  have hs := sane_after s ops
  refine ⟨hs,fun sp hne => ?_⟩
  by_cases hsw : Switches (after s ops)
  · obtain ⟨hcur,-,hst⟩ := scheduleNext_switch hs.current_lt hsw sp
    rw [hcur,freshSlice_stateOf,hst,if_pos rfl]
    exact ⟨(scanned_spec hsw.2).2,rfl⟩
  · exact absurd (scheduleNext_stay hs.current_lt hsw sp).1 hne

/-- Waiting for an event, or for more than one further tick. -/
def Waiting (t : Task) : Prop :=
  t.state = .blocked ∨ (t.state = .sleeping ∧ 1 < t.sleepTicks)

theorem not_ready_of_waiting {t : Task} (h : Waiting t) : ¬ ReadyAfterTick t := by
  rintro (hr | ⟨hs,ht⟩)
  · rcases h with h | ⟨h,-⟩ <;> simp [hr] at h
  · rcases h with h | ⟨-,h⟩
    · simp [hs] at h
    · omega

/-- Every slot that waits in `s` is in the same state in `t`. -/
def WaitsKept (s t : Sched) : Prop :=
  ∀ i < maxTasks, Waiting (s.tasks i) → t.stateOf i = s.stateOf i

theorem tick_waiting {s : Sched} {i : ℕ} (hi : i < maxTasks) (h : Waiting (s.tasks i)) :
    (tick s).stateOf i = s.stateOf i := by
  rw [tick_stateOf s hi,wake_state,if_neg]
  · rfl
  · intro hw
    exact not_ready_of_waiting h (Or.inr hw)

/-- `schedule_next` keeps every wait exactly when it does not preempt a current task
that has itself begun to wait. -/
theorem waits_kept_iff (s : Sched) (ops : List Op) (sp : ℕ) :
    WaitsKept (after s ops) (scheduleNext (after s ops) sp) ↔
      ¬ (Waiting ((after s ops).tasks (after s ops).currentTask) ∧ Preempts (after s ops)) := by
  have hs := sane_after s ops
  generalize after s ops = t at hs
  constructor
  · rintro hkept ⟨hw,hpre⟩
    have hsw := (switches_iff_preempts hs.current_lt (not_ready_of_waiting hw)).mpr hpre
    have hcur := hkept t.currentTask hs.current_lt hw
    rw [(scheduleNext_switch hs.current_lt hsw sp).2.2,if_neg (Ne.symm hsw.2),if_pos rfl] at hcur
    rcases hw with hw | ⟨hw,-⟩ <;> simp [Sched.stateOf,hw] at hcur
  · intro hno i hi hw
    by_cases hsw : Switches t
    · rw [(scheduleNext_switch hs.current_lt hsw sp).2.2]
      have htick := tick_waiting hi hw
      split_ifs with hn hcur
      · -- the slot picked was ready, so it did not wait
        have hready := (scanned_spec hsw.2).2
        rw [← hn,htick] at hready
        rcases hw with hw | ⟨hw,-⟩ <;> simp [Sched.stateOf,hw] at hready
      · subst hcur
        exact absurd ⟨hw,(switches_iff_preempts hi (not_ready_of_waiting hw)).mp hsw⟩ hno
      · exact htick
    · rw [(scheduleNext_stay hs.current_lt hsw sp).2.2]
      exact tick_waiting hi hw

/-- The kernel task blocks itself with one tick of its slice left; the next tick makes
it ready again, with no wakeup in between. -/
theorem blocked_current_preempted :
    ¬ WaitsKept (after boot [.taskCreate 4096 1 [],.taskSetPriority 0 9,.taskBlock 0])
      (scheduleNext (after boot [.taskCreate 4096 1 [],.taskSetPriority 0 9,.taskBlock 0]) 0) := by
  intro h
  have hw := h 0 (by decide) (Or.inl (by decide))
  exact absurd hw (by decide +kernel)

end Scheduler
end ValiantCore
