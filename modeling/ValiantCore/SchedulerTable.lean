import ValiantCore.Scheduler
import Mathlib.Tactic.Tauto

/-! What each scheduler call does to the table of task states, to the running task
and to the task counter. Every invariant of the scheduler is derived from these
equations; no later proof unfolds a scheduler function. -/
namespace ValiantCore
namespace Scheduler

def Sched.stateOf (s : Sched) (i : ℕ) : TaskState := (s.tasks i).state

@[simp] theorem stateOf_setTask (s : Sched) (i j : ℕ) (t : Task) :
    (s.setTask i t).stateOf j = if j = i then t.state else s.stateOf j := by
  by_cases h : j = i <;> simp [Sched.stateOf,Function.update,h]
@[simp] theorem stateOf_setState (s : Sched) (i j : ℕ) (st : TaskState) :
    (s.setState i st).stateOf j = if j = i then st else s.stateOf j := by
  by_cases h : j = i <;> simp [Sched.stateOf,Function.update,h]
@[simp] theorem stateOf_setMsg (s : Sched) (i j : ℕ) (m : IpcMsg) :
    (s.setMsg i m).stateOf j = s.stateOf j := rfl
@[simp] theorem stateOf_setCount (s : Sched) (n i : ℕ) :
    (s.setCount n).stateOf i = s.stateOf i := rfl

theorem initScheduler_stateOf (s : Sched) {i : ℕ} (hi : i < maxTasks) :
    (initScheduler s).stateOf i = if i = 0 then .running else .dead := by
  by_cases h : i = 0 <;> simp [Sched.stateOf,initScheduler,h,hi]

theorem taskCreate_cases (s : Sched) (entry priority : ℕ) (name : List UInt8) :
    (taskCreate s entry priority name = (s,-1) ∧
      (maxTasks ≤ s.taskCount ∨ entry = 0 ∨ ∀ i < maxTasks, s.stateOf i ≠ .dead)) ∨
    ∃ i < maxTasks, s.taskCount < maxTasks ∧ entry ≠ 0 ∧ s.stateOf i = .dead ∧
      (∀ j < i, s.stateOf j ≠ .dead) ∧
      taskCreate s entry priority name =
        ((s.setTask i ⟨i,.ready,priority,entry,u32 (10-priority),0,0,(s.tasks i).name.set name⟩).setCount
          (u32 (s.taskCount+1)),(i : ℤ)) := by
  by_cases hc : s.taskCount ≥ maxTasks
  · exact Or.inl ⟨by simp [taskCreate,hc],Or.inl hc⟩
  · by_cases he : entry = 0
    · exact Or.inl ⟨by simp [taskCreate,he],Or.inr (Or.inl he)⟩
    · cases h : Slots.firstSlot maxTasks (fun i => (s.tasks i).state = .dead) with
      | none =>
        refine Or.inl ⟨by simp [taskCreate,hc,he,h],Or.inr (Or.inr ?_)⟩
        intro i hi hd
        simpa [show (s.tasks i).state = .dead from hd] using Slots.firstSlot_eq_none.mp h i hi
      | some i =>
        obtain ⟨hi,hdead,hfirst⟩ := Slots.firstSlot_eq_some.mp h
        refine Or.inr ⟨i,hi,by omega,he,by simpa [Sched.stateOf] using hdead,?_,
          by simp [taskCreate,hc,he,h]⟩
        intro j hj
        simpa [Sched.stateOf] using hfirst j hj

theorem taskCreate_first {s : Sched} {entry i : ℕ} (hc : s.taskCount < maxTasks) (he : entry ≠ 0)
    (hi : i < maxTasks) (hd : s.stateOf i = .dead) (hfirst : ∀ j < i, s.stateOf j ≠ .dead)
    (priority : ℕ) (name : List UInt8) :
    taskCreate s entry priority name =
      ((s.setTask i ⟨i,.ready,priority,entry,u32 (10-priority),0,0,(s.tasks i).name.set name⟩).setCount
        (u32 (s.taskCount+1)),(i : ℤ)) := by
  rcases taskCreate_cases s entry priority name with ⟨-,hfull | h0 | hnone⟩ | ⟨j,-,-,-,hdj,hfirstj,h⟩
  · omega
  · exact absurd h0 he
  · exact absurd hd (hnone i hi)
  · obtain rfl : j = i := by
      rcases Nat.lt_trichotomy j i with hlt | heq | hgt
      · exact absurd hdj (hfirst j hlt)
      · exact heq
      · exact absurd hd (hfirstj i hgt)
    exact h

theorem taskKill_stateOf (s : Sched) (id i : ℕ) :
    (taskKill s id).stateOf i = if i = id ∧ 0 < id ∧ id < maxTasks then .dead else s.stateOf i := by
  by_cases hr : id < maxTasks
  · rcases Nat.eq_zero_or_pos id with h0 | h0
    · simp [taskKill,h0]
    · simp [taskKill,hr,hr.not_ge,h0,h0.ne']
  · simp [taskKill,hr,not_lt.mp hr]

theorem taskSleep_stateOf (s : Sched) (id ticks i : ℕ) :
    (taskSleep s id ticks).stateOf i =
      if i = id ∧ id < maxTasks ∧ s.stateOf id ≠ .dead then .sleeping else s.stateOf i := by
  by_cases hr : id < maxTasks
  · by_cases hd : (s.tasks id).state = .dead
    · simp [taskSleep,hr.not_ge,hd,Sched.stateOf]
    · simp [taskSleep,hr,hr.not_ge,hd,Sched.stateOf,Function.update_apply]
      split_ifs <;> rfl
  · simp [taskSleep,hr,not_lt.mp hr]

@[simp] theorem taskSetPriority_stateOf (s : Sched) (id priority i : ℕ) :
    (taskSetPriority s id priority).stateOf i = s.stateOf i := by
  by_cases hr : id ≥ maxTasks
  · simp [taskSetPriority,hr]
  · by_cases h : i = id <;> simp [taskSetPriority,hr,h,Sched.stateOf]

theorem taskBlock_stateOf (s : Sched) (id i : ℕ) :
    (taskBlock s id).stateOf i = if i = id ∧ id < maxTasks then .blocked else s.stateOf i := by
  by_cases hr : id < maxTasks
  · simp [taskBlock,hr,hr.not_ge]
  · simp [taskBlock,hr,not_lt.mp hr]

theorem taskUnblock_stateOf (s : Sched) (id i : ℕ) :
    (taskUnblock s id).stateOf i =
      if i = id ∧ id < maxTasks ∧ s.stateOf id = .blocked then .ready else s.stateOf i := by
  by_cases hr : id < maxTasks
  · by_cases hb : s.stateOf id = .blocked
    · simp [taskUnblock,hr,hr.not_ge,hb,show (s.tasks id).state = .blocked from hb]
    · simp [taskUnblock,hr.not_ge,hb,show ¬ (s.tasks id).state = .blocked from hb]
  · simp [taskUnblock,hr,not_lt.mp hr]

theorem ipcSend_cases (s : Sched) (fromId toId data len : ℕ) :
    (ipcSend s fromId toId data len = (s,-1) ∧
      (maxTasks ≤ fromId ∨ maxTasks ≤ toId ∨ s.stateOf toId = .dead ∨
        ∀ i < ipcQueueSize, (s.ipcQueue i).used = true)) ∨
    ∃ i < ipcQueueSize, fromId < maxTasks ∧ toId < maxTasks ∧ s.stateOf toId ≠ .dead ∧
      (s.ipcQueue i).used = false ∧ (∀ j < i, (s.ipcQueue j).used = true) ∧
      ipcSend s fromId toId data len =
        (let s := s.setMsg i ⟨⟨fromId,toId,data,len⟩,true⟩
         if s.stateOf toId = .blocked then s.setState toId .ready else s,0) := by
  by_cases hr : fromId ≥ maxTasks ∨ toId ≥ maxTasks
  · exact Or.inl ⟨by simp only [ipcSend,if_pos hr],hr.imp_right Or.inl⟩
  · obtain ⟨hf,ht⟩ := not_or.mp hr
    by_cases hd : (s.tasks toId).state = .dead
    · exact Or.inl ⟨by simp only [ipcSend,if_neg hr,if_pos hd],Or.inr (Or.inr (Or.inl hd))⟩
    · cases h : Slots.firstSlot ipcQueueSize (fun i => !(s.ipcQueue i).used) with
      | none =>
        refine Or.inl ⟨by simp only [ipcSend,if_neg hr,if_neg hd,h],Or.inr (Or.inr (Or.inr ?_))⟩
        intro i hi
        simpa using Slots.firstSlot_eq_none.mp h i hi
      | some i =>
        obtain ⟨hi,hfree,hfirst⟩ := Slots.firstSlot_eq_some.mp h
        refine Or.inr ⟨i,hi,by omega,by omega,hd,by simpa using hfree,?_,?_⟩
        · intro j hj
          simpa using hfirst j hj
        · simp only [ipcSend,if_neg hr,if_neg hd,h]
          rfl

theorem firstSlot_free {s : Sched} {i : ℕ} (hi : i < ipcQueueSize) (hfree : (s.ipcQueue i).used = false)
    (hfirst : ∀ j < i, (s.ipcQueue j).used = true) :
    Slots.firstSlot ipcQueueSize (fun j => !(s.ipcQueue j).used) = some i := by
  rw [Slots.firstSlot_eq_some]
  exact ⟨hi,by simp [hfree],fun j hj => by simp [hfirst j hj]⟩

theorem ipcSend_stateOf (s : Sched) (fromId toId data len i : ℕ) :
    (ipcSend s fromId toId data len).1.stateOf i =
      if i = toId ∧ (ipcSend s fromId toId data len).2 = 0 ∧ s.stateOf toId = .blocked then .ready
      else s.stateOf i := by
  rcases ipcSend_cases s fromId toId data len with ⟨h,-⟩ | ⟨j,hj,-,-,-,-,-,h⟩
  · rw [h]
    simp
  · rw [h]
    by_cases hb : s.stateOf toId = .blocked <;> simp [hb]

theorem ipcReceive_cases (s : Sched) (id : ℕ) :
    (ipcReceive s id = (s,none) ∧
      (maxTasks ≤ id ∨ ∀ i < ipcQueueSize, (s.ipcQueue i).used = true → (s.ipcQueue i).toId ≠ id)) ∨
    ∃ i < ipcQueueSize, id < maxTasks ∧ (s.ipcQueue i).used = true ∧ (s.ipcQueue i).toId = id ∧
      (∀ j < i, (s.ipcQueue j).used = true → (s.ipcQueue j).toId ≠ id) ∧
      ipcReceive s id = (s.setMsg i { s.ipcQueue i with used := false },
        some ((s.ipcQueue i).data,(s.ipcQueue i).len)) := by
  by_cases hr : id ≥ maxTasks
  · exact Or.inl ⟨by simp only [ipcReceive,if_pos hr],Or.inl hr⟩
  · cases h : Slots.firstSlot ipcQueueSize
        (fun i => (s.ipcQueue i).used && (s.ipcQueue i).toId = id) with
    | none =>
      refine Or.inl ⟨by simp only [ipcReceive,if_neg hr,h],Or.inr ?_⟩
      intro i hi hu ht
      simpa [hu,ht] using Slots.firstSlot_eq_none.mp h i hi
    | some i =>
      obtain ⟨hi,hhit,hfirst⟩ := Slots.firstSlot_eq_some.mp h
      simp only [Bool.and_eq_true,decide_eq_true_eq] at hhit
      refine Or.inr ⟨i,hi,by omega,hhit.1,hhit.2,?_,by simp only [ipcReceive,if_neg hr,h]⟩
      intro j hj hu ht
      simpa [hu,ht] using hfirst j hj

@[simp] theorem ipcReceive_stateOf (s : Sched) (id i : ℕ) :
    (ipcReceive s id).1.stateOf i = s.stateOf i := by
  rcases ipcReceive_cases s id with ⟨h,-⟩ | ⟨j,-,-,-,-,-,h⟩ <;> simp [h]

/-- What a call leaves alone beside the table: only the tick moves the processor to another
task, only creating and killing count, and only the two calls for messages touch the queue. -/
theorem step_leaves (s : Sched) (op : Op) :
    ((∀ sp, op ≠ .scheduleNext sp) → (step s op).1.currentTask = s.currentTask) ∧
      ((∀ entry priority name, op ≠ .taskCreate entry priority name) → (∀ id, op ≠ .taskKill id) →
        (step s op).1.taskCount = s.taskCount) ∧
      ((∀ fromId toId data len, op ≠ .ipcSend fromId toId data len) → (∀ id, op ≠ .ipcReceive id) →
        (step s op).1.ipcQueue = s.ipcQueue) := by
  cases op with
  | taskCreate entry priority name =>
    refine ⟨fun _ => ?_,fun hcreate => absurd rfl (hcreate entry priority name),fun _ _ => ?_⟩
    all_goals
      rcases taskCreate_cases s entry priority name with ⟨h,-⟩ | ⟨i,-,-,-,-,-,h⟩ <;> simp [step,h]
  | taskKill id =>
    refine ⟨fun _ => ?_,fun _ hkill => absurd rfl (hkill id),fun _ _ => ?_⟩
    all_goals
      simp only [step,taskKill]
      split_ifs <;> rfl
  | taskSleep id ticks =>
    simp only [step,taskSleep]
    split_ifs <;> exact ⟨fun _ => rfl,fun _ _ => rfl,fun _ _ => rfl⟩
  | taskSetPriority id priority =>
    simp only [step,taskSetPriority]
    split_ifs <;> exact ⟨fun _ => rfl,fun _ _ => rfl,fun _ _ => rfl⟩
  | taskBlock id =>
    simp only [step,taskBlock]
    split_ifs <;> exact ⟨fun _ => rfl,fun _ _ => rfl,fun _ _ => rfl⟩
  | taskUnblock id =>
    simp only [step,taskUnblock]
    split_ifs <;> exact ⟨fun _ => rfl,fun _ _ => rfl,fun _ _ => rfl⟩
  | scheduleNext sp =>
    refine ⟨fun hsched => absurd rfl (hsched sp),fun _ _ => ?_,fun _ _ => ?_⟩
    all_goals
      simp only [step,scheduleNext]
      split_ifs <;> rfl
  | ipcSend fromId toId data len =>
    refine ⟨fun _ => ?_,fun _ _ => ?_,fun hsend => absurd rfl (hsend fromId toId data len)⟩
    all_goals
      rcases ipcSend_cases s fromId toId data len with ⟨h,-⟩ | ⟨i,-,-,-,-,-,-,h⟩
      · simp [step,h]
      · simp only [step,h]
        split_ifs <;> rfl
  | ipcReceive id =>
    refine ⟨fun _ => ?_,fun _ _ => ?_,fun _ hrecv => absurd rfl (hrecv id)⟩
    all_goals
      rcases ipcReceive_cases s id with ⟨h,-⟩ | ⟨i,-,-,-,-,-,h⟩ <;> simp [step,h]

theorem currentTask_of_not_schedule (s : Sched) (op : Op) (h : ∀ sp, op ≠ .scheduleNext sp) :
    (step s op).1.currentTask = s.currentTask :=
  (step_leaves s op).1 h

/-- Ready to be picked once this tick's countdown is done. -/
def ReadyAfterTick (t : Task) : Prop :=
  t.state = .ready ∨ (t.state = .sleeping ∧ t.sleepTicks ≤ 1)

instance (t : Task) : Decidable (ReadyAfterTick t) := by
  unfold ReadyAfterTick
  infer_instance

theorem wake_state (t : Task) :
    (wake t).state = if t.state = .sleeping ∧ t.sleepTicks ≤ 1 then .ready else t.state := by
  by_cases hs : t.state = .sleeping
  · by_cases hl : t.sleepTicks ≤ 1
    · have : t.sleepTicks = 0 ∨ t.sleepTicks = 1 := by omega
      rcases this with h | h <;> simp [wake,hs,h]
    · have hp : t.sleepTicks > 0 := by omega
      have hne : t.sleepTicks-1 ≠ 0 := by omega
      simp [wake,hs,hl,hp,hne]
  · simp [wake,hs]

theorem wake_ready (t : Task) : (wake t).state = .ready ↔ ReadyAfterTick t := by
  rw [wake_state]
  unfold ReadyAfterTick
  split_ifs with h
  · simp [h]
  · tauto

@[simp] theorem wake_priority (t : Task) : (wake t).priority = t.priority := by
  unfold wake
  split_ifs <;> simp only [] <;> split_ifs <;> rfl
@[simp] theorem wake_timeSlice (t : Task) : (wake t).timeSlice = t.timeSlice := by
  unfold wake
  split_ifs <;> simp only [] <;> split_ifs <;> rfl
@[simp] theorem wake_ticksUsed (t : Task) : (wake t).ticksUsed = t.ticksUsed := by
  unfold wake
  split_ifs <;> simp only [] <;> split_ifs <;> rfl

@[simp] theorem tick_currentTask (s : Sched) : (tick s).currentTask = s.currentTask := rfl
@[simp] theorem tick_taskCount (s : Sched) : (tick s).taskCount = s.taskCount := rfl
@[simp] theorem tick_ipcQueue (s : Sched) : (tick s).ipcQueue = s.ipcQueue := rfl

theorem tick_stateOf (s : Sched) {i : ℕ} (hi : i < maxTasks) :
    (tick s).stateOf i = (wake (s.tasks i)).state := by
  by_cases h : i = s.currentTask
  · subst h
    simp [tick,Sched.stateOf,hi,wake_state]
  · simp [tick,Sched.stateOf,hi,Function.update_of_ne h]

theorem tick_priority (s : Sched) (i : ℕ) : ((tick s).tasks i).priority = (s.tasks i).priority := by
  by_cases h : i = s.currentTask
  · subst h
    by_cases hi : s.currentTask < maxTasks <;> simp [tick,hi]
  · by_cases hi : i < maxTasks <;> simp [tick,hi,Function.update_of_ne h]

/-- A slot the scan can pick at all: `best` starts at `0xFF`. -/
def Candidate (tasks : ℕ → Task) (i : ℕ) : Prop :=
  (tasks i).state = .ready ∧ (tasks i).priority < 0xFF

/-- The scan's result after `n` turns: nothing to pick so far, or the ready slot of least
priority value among those visited, the earliest one visited among equals. -/
theorem pickNext_spec (tasks : ℕ → Task) (current n : ℕ) :
    (pickNext tasks current n = (current,0xFF) ∧
      ∀ k < n, ¬ Candidate tasks ((current+1+k) % maxTasks)) ∨
    ∃ k < n, pickNext tasks current n =
        ((current+1+k) % maxTasks,(tasks ((current+1+k) % maxTasks)).priority) ∧
      Candidate tasks ((current+1+k) % maxTasks) ∧
      ∀ j < n, (tasks ((current+1+j) % maxTasks)).state = .ready →
        (tasks ((current+1+k) % maxTasks)).priority ≤ (tasks ((current+1+j) % maxTasks)).priority ∧
        (j < k → (tasks ((current+1+k) % maxTasks)).priority <
          (tasks ((current+1+j) % maxTasks)).priority) := by
  induction n with
  | zero => exact Or.inl ⟨rfl,by simp⟩
  | succ n ih =>
    have hstep : pickNext tasks current (n+1) =
        if (tasks ((current+1+n) % maxTasks)).state = .ready ∧
            (tasks ((current+1+n) % maxTasks)).priority < (pickNext tasks current n).2 then
          ((current+1+n) % maxTasks,(tasks ((current+1+n) % maxTasks)).priority)
        else pickNext tasks current n := by
      simp only [pickNext,List.range_succ,List.foldl_append,List.foldl_cons,List.foldl_nil]
      rfl
    rw [hstep]
    rcases ih with ⟨heq,hnone⟩ | ⟨k,hk,heq,hc,hmin⟩
    · rw [heq]
      split_ifs with h
      · refine Or.inr ⟨n,by omega,rfl,h,?_⟩
        intro j hj hr
        rcases Nat.lt_succ_iff_lt_or_eq.mp hj with hlt | rfl
        · have hbig : ¬ (tasks ((current+1+j) % maxTasks)).priority < 0xFF :=
            fun hp => hnone j hlt ⟨hr,hp⟩
          have := h.2
          exact ⟨by omega,fun _ => by omega⟩
        · exact ⟨le_refl _,by omega⟩
      · refine Or.inl ⟨rfl,?_⟩
        intro k hk
        rcases Nat.lt_succ_iff_lt_or_eq.mp hk with hlt | rfl
        · exact hnone k hlt
        · exact h
    · rw [heq]
      split_ifs with h
      · obtain ⟨hr,hp⟩ := h
        refine Or.inr ⟨n,by omega,rfl,⟨hr,lt_trans hp hc.2⟩,?_⟩
        intro j hj hrj
        rcases Nat.lt_succ_iff_lt_or_eq.mp hj with hlt | rfl
        · have := (hmin j hlt hrj).1
          simp only at hp
          exact ⟨by omega,fun _ => by omega⟩
        · exact ⟨le_refl _,by omega⟩
      · refine Or.inr ⟨k,by omega,rfl,hc,?_⟩
        intro j hj hrj
        rcases Nat.lt_succ_iff_lt_or_eq.mp hj with hlt | rfl
        · exact hmin j hlt hrj
        · have : ¬ (tasks ((current+1+j) % maxTasks)).priority <
              (tasks ((current+1+k) % maxTasks)).priority := fun hp => h ⟨hrj,hp⟩
          exact ⟨by omega,fun hjk => by omega⟩

theorem scan_covers {current i : ℕ} (hc : current < maxTasks) (hi : i < maxTasks) :
    ∃ k < maxTasks, (current+1+k) % maxTasks = i := by
  simp only [maxTasks] at *
  exact ⟨(i+511-current) % 512,by omega,by omega⟩

theorem pickNext_congr {a b : ℕ → Task} (hs : ∀ i, (a i).state = (b i).state)
    (hp : ∀ i, (a i).priority = (b i).priority) (current n : ℕ) :
    pickNext a current n = pickNext b current n := by
  simp only [pickNext,hs,hp]

/-- The slice of the current task ends with this tick. -/
def SliceOver (s : Sched) : Prop :=
  (s.tasks s.currentTask).timeSlice ≤ u32 ((s.tasks s.currentTask).ticksUsed+1)

def scanned (s : Sched) : ℕ := (pickNext (tick s).tasks s.currentTask maxTasks).1

def Switches (s : Sched) : Prop := SliceOver s ∧ scanned s ≠ s.currentTask

theorem tick_sliceOver {s : Sched} (hc : s.currentTask < maxTasks) :
    ((tick s).tasks s.currentTask).ticksUsed < ((tick s).tasks s.currentTask).timeSlice ↔
      ¬ SliceOver s := by
  simp [tick,SliceOver,hc]

theorem pickNext_setTicks (s : Sched) (i ticks current n : ℕ) :
    pickNext (s.setTask i { s.tasks i with ticksUsed := ticks }).tasks current n =
      pickNext s.tasks current n := by
  apply pickNext_congr <;> intro j <;> by_cases h : j = i <;> simp [h]

/-- The state in which `schedule_next` scans: this tick counted, a new slice begun. -/
def freshSlice (s : Sched) : Sched :=
  (tick s).setTask s.currentTask { (tick s).tasks s.currentTask with ticksUsed := 0 }

@[simp] theorem freshSlice_currentTask (s : Sched) : (freshSlice s).currentTask = s.currentTask := rfl
@[simp] theorem freshSlice_taskCount (s : Sched) : (freshSlice s).taskCount = s.taskCount := rfl
theorem freshSlice_stateOf (s : Sched) (i : ℕ) : (freshSlice s).stateOf i = (tick s).stateOf i := by
  by_cases hi : i = s.currentTask <;> simp [freshSlice,hi,Sched.stateOf]

@[simp] theorem switchTo_currentTask (s : Sched) (next sp : ℕ) :
    (switchTo s next sp).currentTask = next := rfl
@[simp] theorem switchTo_taskCount (s : Sched) (next sp : ℕ) :
    (switchTo s next sp).taskCount = s.taskCount := rfl
theorem switchTo_stateOf {s : Sched} {next : ℕ} (h : next ≠ s.currentTask) (sp i : ℕ) :
    (switchTo s next sp).stateOf i =
      if i = next then .running else if i = s.currentTask then .ready else s.stateOf i := by
  by_cases hn : i = next
  · simp [switchTo,Sched.stateOf,hn,h]
  · by_cases hi : i = s.currentTask
    · simp [switchTo,Sched.stateOf,hi,h.symm]
    · simp [switchTo,Sched.stateOf,hn,hi]

theorem scheduleNext_eq {s : Sched} (hc : s.currentTask < maxTasks) (sp : ℕ) [Decidable (SliceOver s)] :
    scheduleNext s sp =
      if SliceOver s then
        if scanned s = s.currentTask then freshSlice s else switchTo (freshSlice s) (scanned s) sp
      else tick s := by
  have hpick : (pickNext (freshSlice s).tasks s.currentTask maxTasks).1 = scanned s := by
    rw [freshSlice,pickNext_setTicks,scanned]
  by_cases hsl : SliceOver s
  · have hgo : ¬ _ := mt (tick_sliceOver hc).mp (not_not.mpr hsl)
    rw [if_pos hsl,← hpick]
    exact if_neg hgo
  · rw [if_neg hsl]
    exact if_pos ((tick_sliceOver hc).mpr hsl)

theorem scheduleNext_stay {s : Sched} (hc : s.currentTask < maxTasks) (h : ¬ Switches s) (sp : ℕ) :
    (scheduleNext s sp).currentTask = s.currentTask ∧
      (scheduleNext s sp).taskCount = s.taskCount ∧
      ∀ i, (scheduleNext s sp).stateOf i = (tick s).stateOf i := by
  classical
  rw [scheduleNext_eq hc]
  split_ifs with hsl hpick
  · exact ⟨rfl,rfl,freshSlice_stateOf s⟩
  · exact absurd ⟨hsl,hpick⟩ h
  · exact ⟨rfl,rfl,fun i => rfl⟩

theorem scheduleNext_switch {s : Sched} (hc : s.currentTask < maxTasks) (h : Switches s) (sp : ℕ) :
    (scheduleNext s sp).currentTask = scanned s ∧
      (scheduleNext s sp).taskCount = s.taskCount ∧
      ∀ i, (scheduleNext s sp).stateOf i = if i = scanned s then .running
        else if i = s.currentTask then .ready else (tick s).stateOf i := by
  classical
  obtain ⟨hsl,hne⟩ := h
  rw [scheduleNext_eq hc,if_pos hsl,if_neg hne]
  refine ⟨switchTo_currentTask _ _ _,switchTo_taskCount _ _ _,fun i => ?_⟩
  rw [switchTo_stateOf (by simpa using hne),freshSlice_stateOf,freshSlice_currentTask]

theorem scanned_spec {s : Sched} (h : scanned s ≠ s.currentTask) :
    scanned s < maxTasks ∧ (tick s).stateOf (scanned s) = .ready := by
  rcases pickNext_spec (tick s).tasks s.currentTask maxTasks with ⟨heq,-⟩ | ⟨k,-,heq,hc,-⟩
  · exact absurd (congrArg Prod.fst heq) h
  · have hs : scanned s = (s.currentTask+1+k) % maxTasks := congrArg Prod.fst heq
    rw [hs]
    exact ⟨Nat.mod_lt _ (by decide),hc.1⟩

/-- The slice of the current task ends with this tick, and some slot is ready for the
processor; with a current task that is not itself ready, this is when a switch comes. -/
def Preempts (s : Sched) : Prop :=
  SliceOver s ∧ ∃ i < maxTasks, ReadyAfterTick (s.tasks i) ∧ (s.tasks i).priority < 0xFF

instance (s : Sched) : Decidable (Preempts s) := by
  unfold Preempts SliceOver
  infer_instance

theorem switches_iff_preempts {s : Sched} (hc : s.currentTask < maxTasks)
    (hcur : ¬ ReadyAfterTick (s.tasks s.currentTask)) : Switches s ↔ Preempts s := by
  have hcand {i : ℕ} (hi : i < maxTasks) :
      Candidate (tick s).tasks i ↔ ReadyAfterTick (s.tasks i) ∧ (s.tasks i).priority < 0xFF := by
    rw [Candidate,tick_priority,← wake_ready,← tick_stateOf s hi]
    rfl
  apply and_congr Iff.rfl
  constructor
  · intro hne
    rcases pickNext_spec (tick s).tasks s.currentTask maxTasks with ⟨heq,-⟩ | ⟨k,-,-,hc,-⟩
    · exact absurd (congrArg Prod.fst heq) hne
    · have hlt : (s.currentTask+1+k) % maxTasks < maxTasks := Nat.mod_lt _ (by decide)
      exact ⟨_,hlt,(hcand hlt).mp hc⟩
  · rintro ⟨i,hi,hready⟩ heq
    obtain ⟨k,hk,hki⟩ := scan_covers hc hi
    rcases pickNext_spec (tick s).tasks s.currentTask maxTasks with ⟨-,hnone⟩ | ⟨j,-,hj,hcj,-⟩
    · exact hnone k hk (hki ▸ (hcand hi).mpr hready)
    · -- the scan ended at the current slot itself, which the countdown left unready
      have hself : (s.currentTask+1+j) % maxTasks = s.currentTask :=
        (congrArg Prod.fst hj).symm.trans heq
      rw [hself] at hcj
      exact hcur ((hcand hc).mp hcj).1

end Scheduler
end ValiantCore
