import ValiantCore.SchedulerAccounting

/-! The fields of a task over a run: which calls can write them, and the range that
priority and slice stay in. -/
namespace ValiantCore
namespace Scheduler

def Creates (s : Sched) (i : ℕ) : Op → Prop
  | .taskCreate entry priority name => (taskCreate s entry priority name).2 = i
  | _ => False

theorem wake_sleeping {t : Task} (h : t.state = .sleeping) :
    wake t = { t with
      sleepTicks := t.sleepTicks-1, state := if t.sleepTicks ≤ 1 then .ready else .sleeping } := by
  rcases Nat.lt_or_ge 1 t.sleepTicks with hlong | hshort
  · have hleft : t.sleepTicks-1 ≠ 0 := by omega
    simp [wake,h,hleft,hlong.not_ge,Nat.zero_lt_of_lt hlong]
  · have hleft : t.sleepTicks-1 = 0 := by omega
    simp [wake,h,hleft,hshort]

theorem scheduleNext_cases (s : Sched) (sp : ℕ) :
    scheduleNext s sp = tick s ∨ scheduleNext s sp = freshSlice s ∨
      ∃ next, scheduleNext s sp = switchTo (freshSlice s) next sp := by
  by_cases hslice : ((tick s).tasks s.currentTask).ticksUsed < ((tick s).tasks s.currentTask).timeSlice
  · exact Or.inl (if_pos hslice)
  · by_cases hnext : (pickNext (freshSlice s).tasks s.currentTask maxTasks).1 = s.currentTask
    · exact Or.inr (Or.inl ((if_neg hslice).trans (if_pos hnext)))
    · exact Or.inr (Or.inr ⟨_,(if_neg hslice).trans (if_neg hnext)⟩)

section Frame
variable {β : Type} {f : Task → β} {s : Sched} {i : ℕ}

theorem setTask_frame {j : ℕ} {t : Task} (h : i = j → f t = f (s.tasks j)) :
    f ((s.setTask j t).tasks i) = f (s.tasks i) := by
  by_cases hij : i = j
  · subst hij
    simpa using h rfl
  · simp [hij]

theorem setState_frame (hstate : ∀ t st, f { t with state := st } = f t) (j : ℕ) (st : TaskState) :
    f ((s.setState j st).tasks i) = f (s.tasks i) :=
  setTask_frame fun _ => hstate _ st

theorem wake_frame (hstate : ∀ t st, f { t with state := st } = f t)
    (hsleep : ∀ t left, f { t with sleepTicks := left } = f t) (t : Task) : f (wake t) = f t := by
  by_cases h : t.state = .sleeping
  · rw [wake_sleeping h]
    exact (hstate { t with sleepTicks := t.sleepTicks-1 } _).trans (hsleep t _)
  · rw [wake,if_neg h]

theorem tick_frame (hstate : ∀ t st, f { t with state := st } = f t)
    (hsleep : ∀ t left, f { t with sleepTicks := left } = f t)
    (hticks : ∀ t used, f { t with ticksUsed := used } = f t) : f ((tick s).tasks i) = f (s.tasks i) := by
  have hused : f ((s.setTask s.currentTask { s.tasks s.currentTask with
      ticksUsed := u32 ((s.tasks s.currentTask).ticksUsed+1) }).tasks i) = f (s.tasks i) :=
    setTask_frame fun _ => hticks _ _
  simp only [tick]
  split_ifs
  · exact (wake_frame hstate hsleep _).trans hused
  · exact hused

theorem afterTick_frame (hstate : ∀ t st, f { t with state := st } = f t)
    (hticks : ∀ t used, f { t with ticksUsed := used } = f t)
    (hstack : ∀ t ptr, f { t with stackPtr := ptr } = f t) (sp : ℕ) :
    f ((scheduleNext s sp).tasks i) = f ((tick s).tasks i) := by
  have hfresh : f ((freshSlice s).tasks i) = f ((tick s).tasks i) := setTask_frame fun _ => hticks _ _
  rcases scheduleNext_cases s sp with h | h | ⟨next,h⟩
  · rw [h]
  · rw [h,hfresh]
  · rw [h,← hfresh]
    apply (setTask_frame fun _ => hstack _ _).trans
    rw [setState_frame hstate,setState_frame hstate]

theorem scheduleNext_frame (hstate : ∀ t st, f { t with state := st } = f t)
    (hsleep : ∀ t left, f { t with sleepTicks := left } = f t)
    (hticks : ∀ t used, f { t with ticksUsed := used } = f t)
    (hstack : ∀ t ptr, f { t with stackPtr := ptr } = f t) (sp : ℕ) :
    f ((scheduleNext s sp).tasks i) = f (s.tasks i) :=
  (afterTick_frame hstate hticks hstack sp).trans (tick_frame hstate hsleep hticks)

/-- A field of a task outlives every call that does not write it: `task_create` writes all
fields of its slot, `task_sleep` and `task_set_priority` some of theirs, and the ticks
count down sleeps, count up slices and store stack pointers. -/
theorem step_frame {op : Op} (hstate : ∀ t st, f { t with state := st } = f t)
    (hcreate : ¬ Creates s i op)
    (hsleep : ∀ ticks, op = .taskSleep i ticks → ∀ t left, f { t with sleepTicks := left } = f t)
    (hprio : ∀ priority, op = .taskSetPriority i priority →
      ∀ t p slice, f { t with priority := p, timeSlice := slice } = f t)
    (hsched : ∀ sp, op = .scheduleNext sp → f ((scheduleNext s sp).tasks i) = f (s.tasks i)) :
    f ((step s op).1.tasks i) = f (s.tasks i) := by
  cases op with
  | taskCreate entry priority name =>
    rcases taskCreate_cases s entry priority name with ⟨h,-⟩ | ⟨j,-,-,-,-,-,h⟩
    · simp only [step,h]
    · simp only [step,h]
      apply setTask_frame
      rintro rfl
      exact absurd (congrArg Prod.snd h) hcreate
  | taskKill id =>
    simp only [step,taskKill]
    split_ifs
    · rfl
    · rfl
    · exact setState_frame hstate _ _
  | taskSleep id ticks =>
    simp only [step,taskSleep]
    split_ifs
    · rfl
    · rfl
    · apply setTask_frame
      rintro rfl
      exact (hstate { s.tasks i with sleepTicks := ticks } .sleeping).trans (hsleep ticks rfl _ _)
  | taskSetPriority id priority =>
    simp only [step,taskSetPriority]
    split_ifs
    · rfl
    · apply setTask_frame
      rintro rfl
      exact hprio priority rfl _ _ _
    · apply setTask_frame
      rintro rfl
      exact hprio priority rfl _ _ _
  | taskBlock id =>
    simp only [step,taskBlock]
    split_ifs
    · rfl
    · exact setState_frame hstate _ _
  | taskUnblock id =>
    simp only [step,taskUnblock]
    split_ifs
    · rfl
    · exact setState_frame hstate _ _
    · rfl
  | scheduleNext sp => exact hsched sp rfl
  | ipcSend fromId toId data len =>
    rcases ipcSend_cases s fromId toId data len with ⟨h,-⟩ | ⟨j,-,-,-,-,-,-,h⟩
    · simp only [step,h]
    · simp only [step,h]
      split_ifs
      · exact setState_frame hstate _ _
      · rfl
  | ipcReceive id =>
    rcases ipcReceive_cases s id with ⟨h,-⟩ | ⟨j,-,-,-,-,-,h⟩ <;> simp only [step,h,setMsg_tasks]

end Frame

/-- A priority that `task_set_priority` could have set, with its slice. -/
def InRange (t : Task) : Prop := t.priority ≤ 9 ∧ t.timeSlice = 10-t.priority

instance (t : Task) : Decidable (InRange t) := by
  unfold InRange
  infer_instance

/-- Every task that is not dead has a priority in range and a slice of 1 to 10 ticks. -/
def SlicesInRange (s : Sched) : Prop :=
  ∀ i < maxTasks, s.stateOf i ≠ .dead →
    InRange (s.tasks i) ∧ 1 ≤ (s.tasks i).timeSlice ∧ (s.tasks i).timeSlice ≤ 10

/-- The range, and that a current task has it even when it is dead. -/
structure Ranged (s : Sched) : Prop where
  live : ∀ i < maxTasks, s.stateOf i ≠ .dead → InRange (s.tasks i)
  current : InRange (s.tasks s.currentTask)

/-- A task created with a priority out of range, or a dead slot blocked, and so live again,
whose fields are out of range. -/
def Misranges (s : Sched) : Op → Prop
  | .taskCreate entry priority _ => 9 < priority ∧ entry ≠ 0 ∧ s.taskCount < maxTasks ∧
      ∃ i < maxTasks, s.stateOf i = .dead
  | .taskBlock id => id < maxTasks ∧ s.stateOf id = .dead ∧ ¬ InRange (s.tasks id)
  | _ => False

section Range
variable {s : Sched} {op : Op} {i : ℕ}

theorem slice_eq {priority : ℕ} (h : priority ≤ 9) : u32 (10-priority) = 10-priority := by
  unfold u32
  omega

theorem InRange.congr {t u : Task} (h : InRange t)
    (heq : (u.priority,u.timeSlice) = (t.priority,t.timeSlice)) : InRange u := by
  obtain ⟨hp,hslice⟩ := Prod.mk.inj heq
  rw [InRange,hp,hslice]
  exact h

theorem step_slices (hcreate : ¬ Creates s i op) (hprio : ∀ priority, op ≠ .taskSetPriority i priority) :
    (((step s op).1.tasks i).priority,((step s op).1.tasks i).timeSlice) =
      ((s.tasks i).priority,(s.tasks i).timeSlice) := by
  apply step_frame (f := fun t => (t.priority,t.timeSlice)) (fun _ _ => rfl) hcreate
  · exact fun _ _ _ _ => rfl
  · exact fun priority h => absurd h (hprio priority)
  · intro sp _
    exact scheduleNext_frame (f := fun t => (t.priority,t.timeSlice)) (fun _ _ => rfl) (fun _ _ => rfl)
      (fun _ _ => rfl) (fun _ _ => rfl) sp

theorem created_inRange (h : Creates s i op) (hop : ¬ Misranges s op) :
    InRange ((step s op).1.tasks i) := by
  cases op with
  | taskCreate entry priority name =>
    rcases taskCreate_cases s entry priority name with ⟨heq,-⟩ | ⟨j,hj,hc,he,hd,-,heq⟩
    · have hid : (-1 : ℤ) = i := (congrArg Prod.snd heq).symm.trans h
      omega
    · have hid : (j : ℤ) = i := (congrArg Prod.snd heq).symm.trans h
      obtain rfl : j = i := by omega
      have hrange : priority ≤ 9 := by
        by_contra hbig
        exact hop ⟨by omega,he,hc,j,hj,hd⟩
      simp only [step,heq,setCount_tasks,setTask_tasks,Function.update_self]
      exact ⟨hrange,slice_eq hrange⟩
  | _ => exact h.elim

theorem inRange_step (h : InRange (s.tasks i)) (hop : ¬ Misranges s op) :
    InRange ((step s op).1.tasks i) := by
  by_cases hcreate : Creates s i op
  · exact created_inRange hcreate hop
  · by_cases hprio : ∃ priority, op = .taskSetPriority i priority
    · obtain ⟨priority,rfl⟩ := hprio
      simp only [step,taskSetPriority]
      split_ifs
      · exact h
      · simp only [setTask_tasks,Function.update_self]
        exact ⟨le_rfl,slice_eq le_rfl⟩
      · rename_i hsmall
        simp only [setTask_tasks,Function.update_self]
        exact ⟨not_lt.mp hsmall,slice_eq (not_lt.mp hsmall)⟩
    · exact h.congr (step_slices hcreate fun priority heq => hprio ⟨priority,heq⟩)

theorem ranged_init (s : Sched) : Ranged (initScheduler s) where
  live := by
    intro i hi hlive
    rw [initScheduler_stateOf s hi] at hlive
    by_cases h0 : i = 0
    · subst h0
      exact ⟨Nat.zero_le 9,rfl⟩
    · simp [h0] at hlive
  current := ⟨Nat.zero_le 9,rfl⟩

theorem ranged_step (hs : Sane s) (h : Ranged s) (hop : ¬ Misranges s op) : Ranged (step s op).1 where
  live := by
    intro i hi hlive
    by_cases hbefore : s.stateOf i = .dead
    · -- a dead slot comes back by creation, by a block or as the current one
      rcases step_moves hs.current_lt op hi with heq | hmoves
      · exact absurd (heq.trans hbefore) hlive
      · generalize (step s op).1.stateOf i = st at hmoves hlive
        cases hmoves with
        | create _ hid => exact created_inRange hid hop
        | kill => exact absurd rfl hlive
        | sleep hd => exact absurd hbefore hd
        | block =>
          apply inRange_step _ hop
          by_contra hout
          exact hop ⟨hi,hbefore,hout⟩
        | unblock hb => simp [hbefore] at hb
        | deliver hb => simp [hbefore] at hb
        | expire hsl => simp [hbefore] at hsl
        | preempt hcur => exact inRange_step (hcur ▸ h.current) hop
        | dispatch hn hsw => exact absurd (hn ▸ hbefore) (scanned_alive hsw)
    · exact inRange_step (h.live i hi hbefore) hop
  current := by
    by_cases hsched : ∃ sp, op = .scheduleNext sp
    · obtain ⟨sp,rfl⟩ := hsched
      by_cases hsw : Switches s
      · have hcur : (step s (.scheduleNext sp)).1.currentTask = scanned s :=
          (scheduleNext_switch hs.current_lt hsw sp).1
        rw [hcur]
        exact inRange_step (h.live _ (scanned_spec hsw.2).1 (scanned_alive hsw)) hop
      · have hcur : (step s (.scheduleNext sp)).1.currentTask = s.currentTask :=
          (scheduleNext_stay hs.current_lt hsw sp).1
        rw [hcur]
        exact inRange_step h.current hop
    · rw [currentTask_of_not_schedule s op fun sp heq => hsched ⟨sp,heq⟩]
      exact inRange_step h.current hop

theorem Ranged.slicesInRange (h : Ranged s) : SlicesInRange s := by
  intro i hi hlive
  obtain ⟨hp,hslice⟩ := h.live i hi hlive
  exact ⟨⟨hp,hslice⟩,by omega,by omega⟩

theorem not_slicesInRange_of_misranges (hop : Misranges s op) : ¬ SlicesInRange (step s op).1 := by
  intro hrange
  cases op with
  | taskCreate entry priority name =>
    obtain ⟨hbig,he,hc,i,hi,hd⟩ := hop
    rcases taskCreate_cases s entry priority name with ⟨-,hfull | h0 | hnone⟩ | ⟨j,hj,-,-,-,-,heq⟩
    · omega
    · exact he h0
    · exact hnone i hi hd
    · have hnew := (hrange j hj (by simp [step,heq])).1.1
      simp only [step,heq,setCount_tasks,setTask_tasks,Function.update_self] at hnew
      omega
  | taskBlock id =>
    obtain ⟨hid,hd,hout⟩ := hop
    have hblocked : (step s (.taskBlock id)).1.stateOf id = .blocked := by
      simp [step,taskBlock_stateOf,hid]
    have hnew := (hrange id hid (by simp [hblocked])).1
    have hsame := @step_slices s (.taskBlock id) id (fun hc => hc) (by simp)
    exact hout (hnew.congr hsame.symm)
  | _ => exact hop

end Range

/-- Priorities and slices stay in their range all along a run exactly when no task is
created with a priority above 9 and no dead slot is blocked whose fields are out of range. -/
theorem slices_in_range_iff (s : Sched) (ops : List Op) :
    Runs.Always (fun pre => SlicesInRange (after s pre)) ops ↔
      Runs.EveryStep (fun pre op => ¬ Misranges (after s pre) op) ops := by
  apply Runs.always_iff_everyStep (R := fun pre => Ranged (after s pre))
  · exact ranged_init s
  · intro pre op h hop
    rw [after,Runs.exec_concat]
    exact ranged_step (sane_after s pre) h hop
  · exact fun pre h => h.slicesInRange
  · intro pre op _ hrange hop
    rw [after,Runs.exec_concat] at hrange
    exact not_slicesInRange_of_misranges hop hrange

/-- A task of priority 10 has a slice of no ticks at all. -/
theorem priority_ten_created :
    ¬ Runs.Always (fun pre => SlicesInRange (after boot pre)) [.taskCreate 4096 10 []] := by
  intro h
  have hrange := h _ (List.prefix_refl _) 1 (by decide) (by decide +kernel)
  exact absurd hrange.1.1 (by decide +kernel)

end Scheduler
end ValiantCore
