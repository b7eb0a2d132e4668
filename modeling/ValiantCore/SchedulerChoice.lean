import ValiantCore.SchedulerTable
import ValiantCore.Rotation
import Mathlib.Data.Prod.Lex

/-! Which task `schedule_next` chooses, and all it does to the task table. The slots are
compared by priority value first and then by their distance around the table. -/
namespace ValiantCore
namespace Scheduler

/-- How many slots the scan passes before it comes to slot `i`. -/
def distance (s : Sched) (i : ℕ) : ℕ := Rotation.gap maxTasks s.currentTask i

/-- The slots that are ready once the countdown of this tick is done. -/
def InReady (s : Sched) (i : ℕ) : Prop := i < maxTasks ∧ ReadyAfterTick (s.tasks i)

def rank (s : Sched) (i : ℕ) : ℕ ×ₗ ℕ := toLex ((s.tasks i).priority,distance s i)

/-- The ready slot of least priority value, the nearest one among equals. -/
def IsBest (s : Sched) (n : ℕ) : Prop := InReady s n ∧ ∀ i, InReady s i → rank s n ≤ rank s i

/-- The current task is the only one that runs, and a task the scan may pick has a priority
in the range that `task_set_priority` enforces. -/
structure Regular (s : Sched) : Prop where
  current_lt : s.currentTask < maxTasks
  running_iff : ∀ i < maxTasks, s.stateOf i = .running ↔ i = s.currentTask
  priority_le : ∀ i, InReady s i → (s.tasks i).priority ≤ 9

/-- Slot `i` after a call that switches to slot `n`, where `saved` is the stack pointer
then stored for the old task. -/
def switchedTask (s : Sched) (n saved i : ℕ) : Task :=
  if i = n then { wake (s.tasks i) with state := .running }
  else if i = s.currentTask then
    { s.tasks i with state := .ready, ticksUsed := 0, stackPtr := saved }
  else wake (s.tasks i)

def keptTask (s : Sched) (ticks i : ℕ) : Task :=
  if i = s.currentTask then { s.tasks i with ticksUsed := ticks } else wake (s.tasks i)

/-- `s'` is what a tick makes of `s`, with the processor given to the right task. -/
structure Chooses (s s' : Sched) (saved : ℕ) : Prop where
  switch : SliceOver s → (∃ i, InReady s i) →
    ∃ n, IsBest s n ∧ s'.currentTask = n ∧ ∀ i < maxTasks, s'.tasks i = switchedTask s n saved i
  stay : SliceOver s → (∀ i, ¬ InReady s i) →
    s'.currentTask = s.currentTask ∧ ∀ i < maxTasks, s'.tasks i = keptTask s 0 i
  in_slice : ¬ SliceOver s → s'.currentTask = s.currentTask ∧ ∀ i < maxTasks,
    s'.tasks i = keptTask s (u32 ((s.tasks s.currentTask).ticksUsed+1)) i

theorem IsBest.unique {s : Sched} (hc : s.currentTask < maxTasks) {m n : ℕ} (hm : IsBest s m)
    (hn : IsBest s n) : m = n := by
  have hrank : rank s m = rank s n := le_antisymm (hm.2 n hn.1) (hn.2 m hm.1)
  have hdist : distance s m = distance s n := congrArg (fun r => (ofLex r).2) hrank
  rw [← Rotation.turn_gap hc hm.1.1]
  change (s.currentTask+1+distance s m) % maxTasks = n
  rw [hdist]
  exact Rotation.turn_gap hc hn.1.1

theorem Regular.current_waits {s : Sched} (h : Regular s) : ¬ ReadyAfterTick (s.tasks s.currentTask) := by
  have hrun : (s.tasks s.currentTask).state = .running := (h.running_iff _ h.current_lt).mpr rfl
  simp [ReadyAfterTick,hrun]

theorem candidate_iff {s : Sched} (h : Regular s) {i : ℕ} (hi : i < maxTasks) :
    Candidate (tick s).tasks i ↔ InReady s i := by
  have hstate : ((tick s).tasks i).state = .ready ↔ ReadyAfterTick (s.tasks i) := by
    rw [← wake_ready,← tick_stateOf s hi]
    rfl
  rw [Candidate,tick_priority,hstate]
  constructor
  · exact fun hc => ⟨hi,hc.1⟩
  · exact fun hready => ⟨hready.2,(h.priority_le i hready).trans_lt (by decide)⟩

theorem scanned_stays {s : Sched} (h : Regular s) (hnone : ∀ i, ¬ InReady s i) :
    scanned s = s.currentTask := by
  rcases pickNext_spec (tick s).tasks s.currentTask maxTasks with ⟨heq,-⟩ | ⟨k,-,-,hc,-⟩
  · exact congrArg Prod.fst heq
  · exact absurd ((candidate_iff h (Nat.mod_lt _ (by decide))).mp hc) (hnone _)

theorem scanned_best {s : Sched} (h : Regular s) (hsome : ∃ i, InReady s i) :
    IsBest s (scanned s) := by
  rcases pickNext_spec (tick s).tasks s.currentTask maxTasks with ⟨-,hnone⟩ | ⟨k,hk,heq,hc,hmin⟩
  · obtain ⟨i,hi⟩ := hsome
    apply absurd _ (hnone (distance s i) (Rotation.gap_lt hi.1))
    rw [distance,Rotation.turn_gap h.current_lt hi.1]
    exact (candidate_iff h hi.1).mpr hi
  · have hs : scanned s = (s.currentTask+1+k) % maxTasks := congrArg Prod.fst heq
    rw [hs]
    refine ⟨(candidate_iff h (Nat.mod_lt _ (by decide))).mp hc,fun i hi => ?_⟩
    have hready := ((candidate_iff h hi.1).mpr hi).1
    have hturn : (s.currentTask+1+distance s i) % maxTasks = i := Rotation.turn_gap h.current_lt hi.1
    have hwithin : distance s i < maxTasks := Rotation.gap_lt hi.1
    rw [← hturn] at hready
    obtain ⟨hle,hlt⟩ := hmin _ hwithin hready
    rw [hturn] at hle hlt
    simp only [tick_priority] at hle hlt
    have hfar : distance s ((s.currentTask+1+k) % maxTasks) = k := Rotation.gap_turn h.current_lt hk
    rw [rank,rank,Prod.Lex.toLex_le_toLex,hfar]
    by_cases hnear : distance s i < k
    · exact Or.inl (hlt hnear)
    · rcases hle.lt_or_eq with hless | heq
      · exact Or.inl hless
      · exact Or.inr ⟨heq,not_lt.mp hnear⟩

theorem wake_running {t : Task} (h : t.state = .running) : wake t = t := by simp [wake,h]

theorem tick_tasks {s : Sched} (h : Regular s) {i : ℕ} (hi : i < maxTasks) :
    (tick s).tasks i = keptTask s (u32 ((s.tasks s.currentTask).ticksUsed+1)) i := by
  by_cases hcur : i = s.currentTask
  · subst hcur
    have hrun : (s.tasks s.currentTask).state = .running := (h.running_iff _ hi).mpr rfl
    simp [tick,keptTask,hi,wake_running,hrun]
  · simp [tick,keptTask,hi,hcur]

theorem freshSlice_tasks {s : Sched} (h : Regular s) {i : ℕ} (hi : i < maxTasks) :
    (freshSlice s).tasks i = keptTask s 0 i := by
  by_cases hcur : i = s.currentTask
  · subst hcur
    simp [freshSlice,tick_tasks h hi,keptTask]
  · simp [freshSlice,tick_tasks h hi,keptTask,hcur]

theorem switchTo_tasks {s : Sched} (h : Regular s) {n i : ℕ} (hn : n ≠ s.currentTask)
    (hi : i < maxTasks) (sp : ℕ) :
    (switchTo (freshSlice s) n sp).tasks i = switchedTask s n sp i := by
  have hfresh := freshSlice_tasks h hi
  by_cases hin : i = n
  · subst hin
    simp [switchTo,switchedTask,hn,hfresh,keptTask]
  · by_cases hcur : i = s.currentTask
    · subst hcur
      simp [switchTo,switchedTask,hin,hfresh,keptTask]
    · simp [switchTo,switchedTask,hin,hcur,hfresh,keptTask]

/-- A tick gives the processor to the best ready slot once the slice of the current task
is used up, and to no other task before that. -/
theorem scheduleNext_chooses (s : Sched) (h : Regular s) (sp : ℕ) :
    Chooses s (scheduleNext s sp) sp where
  switch := by
    classical
    intro hover hsome
    have hbest := scanned_best h hsome
    have hne : scanned s ≠ s.currentTask := by
      intro heq
      exact h.current_waits (heq ▸ hbest.1.2)
    rw [scheduleNext_eq h.current_lt,if_pos hover,if_neg hne]
    exact ⟨scanned s,hbest,switchTo_currentTask _ _ _,fun i hi => switchTo_tasks h hne hi sp⟩
  stay := by
    classical
    intro hover hnone
    rw [scheduleNext_eq h.current_lt,if_pos hover,if_pos (scanned_stays h hnone)]
    exact ⟨rfl,fun i hi => freshSlice_tasks h hi⟩
  in_slice := by
    classical
    intro hover
    rw [scheduleNext_eq h.current_lt,if_neg hover]
    exact ⟨rfl,fun i hi => tick_tasks h hi⟩

/-- The kernel task, its slice down to the last tick, and one task that is ready. -/
def oneReady : Sched := after boot [.taskCreate 4096 1 [],.taskSetPriority 0 9]

theorem oneReady_priority : ∀ i < maxTasks, (oneReady.tasks i).priority ≤ 9 := by decide +kernel

theorem oneReady_regular : Regular oneReady where
  current_lt := by decide +kernel
  running_iff := by decide +kernel
  priority_le := fun i hi => oneReady_priority i hi.1

theorem oneReady_chooses : Regular oneReady ∧ Chooses oneReady (scheduleNext oneReady 8192) 8192 :=
  ⟨oneReady_regular,scheduleNext_chooses oneReady oneReady_regular 8192⟩

/-- The old task does not keep its stack pointer: `context_switch` stores the new one. -/
theorem stack_pointer_saved :
    Regular oneReady ∧ ¬ Chooses oneReady (scheduleNext oneReady 8192)
      (oneReady.tasks oneReady.currentTask).stackPtr := by
  refine ⟨oneReady_regular,fun h => ?_⟩
  have hready : InReady oneReady 1 := ⟨by decide +kernel,by decide +kernel⟩
  obtain ⟨n,hbest,-,htasks⟩ := h.switch (by unfold SliceOver; decide +kernel) ⟨1,hready⟩
  have hcur : oneReady.currentTask = 0 := by decide +kernel
  have hwaits := oneReady_regular.current_waits
  rw [hcur] at hwaits
  have hn : 0 ≠ n := by
    rintro rfl
    exact hwaits hbest.1.2
  have hold := congrArg Task.stackPtr (htasks 0 (by decide))
  rw [switchedTask,if_neg hn,if_pos hcur.symm] at hold
  exact absurd hold (by decide +kernel)

end Scheduler
end ValiantCore
