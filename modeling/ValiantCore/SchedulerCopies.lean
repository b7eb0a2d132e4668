import ValiantCore.Scheduler64
import ValiantCore.SchedulerTable

/-! The two schedulers side by side. They run in lockstep as long as no task is created
with a null entry point in a table that still has room. -/
namespace ValiantCore
namespace SchedulerCopies

open Scheduler (Sched Op Out maxTasks boot)

/-- Everything a kernel can call, the initialisation included. -/
inductive Call
  | initScheduler
  | op (o : Op)

def call (s : Sched) : Call → Sched × Out
  | .initScheduler => (Scheduler.initScheduler s,.void)
  | .op o => Scheduler.step s o

def call64 (s : Sched) : Call → Sched × Out
  | .initScheduler => (Scheduler64.initScheduler s,.void)
  | .op o => Scheduler64.step s o

/-- The observable part of two scheduler states is the same. -/
structure Alike (s t : Sched) : Prop where
  taskCount : s.taskCount = t.taskCount
  currentTask : s.currentTask = t.currentTask
  tickCount : s.tickCount = t.tickCount
  state : ∀ i < maxTasks, (s.tasks i).state = (t.tasks i).state
  priority : ∀ i < maxTasks, (s.tasks i).priority = (t.tasks i).priority
  timeSlice : ∀ i < maxTasks, (s.tasks i).timeSlice = (t.tasks i).timeSlice
  name : ∀ i < maxTasks, (s.tasks i).name = (t.tasks i).name

theorem Alike.refl (s : Sched) : Alike s s :=
  ⟨rfl,rfl,rfl,fun _ _ => rfl,fun _ _ => rfl,fun _ _ => rfl,fun _ _ => rfl⟩

/-- After the calls, both schedulers have given the same answers and look the same. -/
def Agree (calls : List Call) : Prop :=
  (Runs.trace call boot calls).map Runs.Event.out = (Runs.trace call64 boot calls).map Runs.Event.out ∧
    Alike (Runs.exec call boot calls) (Runs.exec call64 boot calls)

/-- A task with entry point 0 would be created, were it not for the check. -/
def NullEntry (s : Sched) : Call → Prop
  | .op (.taskCreate entry _ _) =>
    entry = 0 ∧ s.taskCount < maxTasks ∧ ∃ i < maxTasks, s.stateOf i = .dead
  | _ => False

theorem taskCreate_eq {s : Sched} {entry : ℕ} (priority : ℕ) (name : List UInt8)
    (h : ¬ (entry = 0 ∧ s.taskCount < maxTasks ∧ ∃ i < maxTasks, s.stateOf i = .dead)) :
    Scheduler.taskCreate s entry priority name = Scheduler64.taskCreate s entry priority name := by
  by_cases hc : s.taskCount ≥ maxTasks
  · simp [Scheduler.taskCreate,Scheduler64.taskCreate,hc]
  · by_cases he : entry = 0
    · have hnone : Slots.firstSlot maxTasks (fun i => (s.tasks i).state = .dead) = none := by
        rw [Slots.firstSlot_eq_none]
        intro i hi
        by_contra hd
        exact h ⟨he,not_le.mp hc,i,hi,by simpa [Sched.stateOf] using hd⟩
      simp [Scheduler.taskCreate,Scheduler64.taskCreate,hc,he,hnone]
    · cases hf : Slots.firstSlot maxTasks (fun i => (s.tasks i).state = .dead) <;>
        simp only [Scheduler.taskCreate,Scheduler64.taskCreate,if_neg hc,if_neg he,hf]

theorem call_eq {s : Sched} {c : Call} (h : ¬ NullEntry s c) : call s c = call64 s c := by
  cases c with
  | initScheduler => rfl
  | op o =>
    cases o with
    | taskCreate entry priority name => simp only [call,call64,Scheduler.step,Scheduler64.step,taskCreate_eq priority name h]
    | taskKill id => rfl
    | taskSleep id ticks => rfl
    | taskSetPriority id priority => rfl
    | taskBlock id => rfl
    | taskUnblock id => rfl
    | scheduleNext sp => rfl
    | ipcSend fromId toId data len => rfl
    | ipcReceive id => rfl

theorem call_ne_of_nullEntry {s : Sched} {c : Call} (h : NullEntry s c) :
    (call s c).2 ≠ (call64 s c).2 := by
  cases c with
  | initScheduler => exact h.elim
  | op o =>
    cases o with
    | taskCreate entry priority name =>
      obtain ⟨rfl,hroom,hdead⟩ := h
      have hnc : ¬ s.taskCount ≥ maxTasks := not_le.mpr hroom
      have h32 : (Scheduler.taskCreate s 0 priority name).2 = -1 := by
        simp [Scheduler.taskCreate,hnc]
      have h64 : 0 ≤ (Scheduler64.taskCreate s 0 priority name).2 := by
        cases hf : Slots.firstSlot maxTasks (fun i => (s.tasks i).state = .dead) with
        | none =>
          obtain ⟨i,hi,hd⟩ := hdead
          simpa [show (s.tasks i).state = .dead from hd] using Slots.firstSlot_eq_none.mp hf i hi
        | some i => simp [Scheduler64.taskCreate,hnc,hf]
      simp only [call,call64,Scheduler.step,Scheduler64.step]
      intro heq
      have := Out.int.inj heq
      omega
    | taskKill id => exact h.elim
    | taskSleep id ticks => exact h.elim
    | taskSetPriority id priority => exact h.elim
    | taskBlock id => exact h.elim
    | taskUnblock id => exact h.elim
    | scheduleNext sp => exact h.elim
    | ipcSend fromId toId data len => exact h.elim
    | ipcReceive id => exact h.elim

/-- Over any calls from the initial state, the two schedulers agree after every call
exactly when no call is a task creation with a null entry point that finds room. -/
theorem schedulers_agree_iff (calls : List Call) :
    Runs.Always Agree calls ↔
      Runs.EveryStep (fun pre c => ¬ NullEntry (Runs.exec call boot pre) c) calls := by
  refine Runs.always_iff_everyStep
    (R := fun pre => (Runs.trace call boot pre).map Runs.Event.out =
        (Runs.trace call64 boot pre).map Runs.Event.out ∧
      Runs.exec call boot pre = Runs.exec call64 boot pre) (by simp) ?_ ?_ ?_ calls
  · rintro pre c ⟨hout,hexec⟩ hc
    have heq := call_eq hc
    rw [Runs.trace_concat,Runs.trace_concat,Runs.exec_concat,Runs.exec_concat,← hexec,heq]
    simp [hout]
  · rintro pre ⟨hout,hexec⟩
    refine ⟨hout,?_⟩
    rw [hexec]
    exact Alike.refl _
  · rintro pre c ⟨hout,hexec⟩ ⟨hagree,-⟩ hnull
    rw [Runs.trace_concat,Runs.trace_concat,List.map_append,List.map_append,hout,← hexec] at hagree
    have hlast := List.append_cancel_left hagree
    exact call_ne_of_nullEntry hnull (by simpa using hlast)

/-- After initialisation, `task_create(0, ..)` is refused by one and accepted by the other. -/
theorem null_entry_diverges :
    ¬ Runs.Always Agree [.initScheduler,.op (.taskCreate 0 5 [])] := by
  intro h
  have hcount := (h _ (List.prefix_refl _)).2.taskCount
  exact absurd hcount (by decide +kernel)

end SchedulerCopies
end ValiantCore
