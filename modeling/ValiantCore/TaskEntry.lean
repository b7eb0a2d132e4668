import ValiantCore.ContextSwitch
import ValiantCore.SchedulerTable
import ValiantCore.Scheduler64

/-! How a new task of `kernel/scheduler64.c` starts. `task_create` stores the entry point
as the stack pointer of the task and lays out no frame; the first `context_switch` to the
task takes its frame from there. -/
namespace ValiantCore
namespace TaskEntry

open Memory
open AArch64 (Machine)
open ContextSwitch (contextSwitch contextSwitch_pc saved load64_saved)
open Scheduler (Sched Task TaskState Op maxTasks)

def stackPtr (s : Sched) (i : ℕ) : ℕ := (s.tasks i).stackPtr

theorem stackPtr_setTask {s : Sched} {i : ℕ} {t : Task} (h : t.stackPtr = stackPtr s i) (j : ℕ) :
    stackPtr (s.setTask i t) j = stackPtr s j := by
  by_cases hj : j = i
  · rw [hj,← h]
    simp [stackPtr]
  · simp [stackPtr,hj]

@[simp] theorem stackPtr_setState (s : Sched) (i j : ℕ) (st : TaskState) :
    stackPtr (s.setState i st) j = stackPtr s j := by
  apply stackPtr_setTask
  rfl
@[simp] theorem stackPtr_setCount (s : Sched) (n i : ℕ) :
    stackPtr (s.setCount n) i = stackPtr s i := rfl
@[simp] theorem stackPtr_setMsg (s : Sched) (i j : ℕ) (m : Scheduler.IpcMsg) :
    stackPtr (s.setMsg i m) j = stackPtr s j := rfl

theorem taskCreate_stackPtr (s : Sched) (entry priority : ℕ) (name : List UInt8) (i : ℕ) :
    stackPtr (Scheduler64.taskCreate s entry priority name).1 i =
      if (Scheduler64.taskCreate s entry priority name).2 = i then entry else stackPtr s i := by
  unfold Scheduler64.taskCreate
  by_cases hc : s.taskCount ≥ maxTasks
  · simp [hc]
  · cases hf : Slots.firstSlot maxTasks (fun j => (s.tasks j).state = .dead) with
    | none => simp [hc]
    | some k =>
      by_cases hik : i = k
      · simp [hc,stackPtr,hik]
      · simp [hc,stackPtr,hik,Ne.symm hik]

theorem taskCreate_currentTask (s : Sched) (entry priority : ℕ) (name : List UInt8) :
    (Scheduler64.taskCreate s entry priority name).1.currentTask = s.currentTask := by
  unfold Scheduler64.taskCreate
  split_ifs
  · rfl
  · cases Slots.firstSlot maxTasks (fun j => (s.tasks j).state = .dead) <;> rfl

theorem tick_stackPtr (s : Sched) (i : ℕ) : stackPtr (Scheduler64.tick s) i = stackPtr s i := by
  have hwake : ∀ t, (Scheduler64.wake t).stackPtr = t.stackPtr := by
    intro t
    unfold Scheduler64.wake
    split_ifs <;> simp only [] <;> split_ifs <;> rfl
  calc
    _ = stackPtr (s.setTask s.currentTask { s.tasks s.currentTask with
          ticksUsed := u32 ((s.tasks s.currentTask).ticksUsed+1) }) i := by
      simp only [stackPtr,Scheduler64.tick]
      split_ifs
      · exact hwake _
      · rfl
    _ = _ := by
      apply stackPtr_setTask
      rfl

theorem switchTo_currentTask (s : Sched) (next sp : ℕ) :
    (Scheduler64.switchTo s next sp).currentTask = next := rfl

theorem switchTo_stackPtr {s : Sched} {next sp i : ℕ} (h : i ≠ s.currentTask) :
    stackPtr (Scheduler64.switchTo s next sp) i = stackPtr s i := by
  have hother : stackPtr (Scheduler64.switchTo s next sp) i =
      stackPtr ((s.setState s.currentTask .ready).setState next .running) i := by
    simp [stackPtr,Scheduler64.switchTo,h]
  rw [hother,stackPtr_setState,stackPtr_setState]

theorem scheduleNext_stackPtr {s : Sched} {sp i : ℕ}
    (h : (Scheduler64.scheduleNext s sp).currentTask = s.currentTask ∨ i ≠ s.currentTask) :
    stackPtr (Scheduler64.scheduleNext s sp) i = stackPtr s i := by
  rw [← tick_stackPtr s i]
  simp only [Scheduler64.scheduleNext] at h ⊢
  split_ifs at h ⊢ with hslice hnext
  · rfl
  · apply stackPtr_setTask
    rfl
  · rw [switchTo_currentTask] at h
    rw [switchTo_stackPtr (by exact h.resolve_left hnext)]
    apply stackPtr_setTask
    rfl

/-- The calls that leave the stack pointer of slot `i` alone: all but a creation in the
slot and a switch away from it. -/
theorem step_stackPtr {s : Sched} {op : Op} {i : ℕ}
    (hcreate : ∀ entry priority name, op = .taskCreate entry priority name →
      (Scheduler64.taskCreate s entry priority name).2 ≠ i)
    (hleave : (Scheduler64.step s op).1.currentTask = s.currentTask ∨ i ≠ s.currentTask) :
    stackPtr (Scheduler64.step s op).1 i = stackPtr s i := by
  cases op with
  | taskCreate entry priority name =>
    exact (taskCreate_stackPtr s entry priority name i).trans (if_neg (hcreate _ _ _ rfl))
  | taskKill id => simp only [Scheduler64.step,Scheduler64.taskKill]; split_ifs <;> simp
  | taskSleep id ticks =>
    simp only [Scheduler64.step,Scheduler64.taskSleep]
    split_ifs
    · rfl
    · rfl
    · apply stackPtr_setTask
      rfl
  | taskSetPriority id priority =>
    simp only [Scheduler64.step,Scheduler64.taskSetPriority]
    split_ifs
    · rfl
    · apply stackPtr_setTask
      rfl
    · apply stackPtr_setTask
      rfl
  | taskBlock id => simp only [Scheduler64.step,Scheduler64.taskBlock]; split_ifs <;> simp
  | taskUnblock id => simp only [Scheduler64.step,Scheduler64.taskUnblock]; split_ifs <;> simp
  | scheduleNext sp => exact scheduleNext_stackPtr hleave
  | ipcSend fromId toId data len =>
    simp only [Scheduler64.step,Scheduler64.ipcSend]
    split_ifs
    · rfl
    · rfl
    · cases Slots.firstSlot Scheduler.ipcQueueSize (fun j => !(s.ipcQueue j).used) with
      | none => rfl
      | some j => simp only []; split_ifs <;> simp
  | ipcReceive id =>
    simp only [Scheduler64.step,Scheduler64.ipcReceive]
    split_ifs
    · rfl
    · cases Slots.firstSlot Scheduler.ipcQueueSize
        (fun j => (s.ipcQueue j).used && (s.ipcQueue j).toId = id) <;> simp

def Fills (s : Sched) (i : ℕ) : Op → Prop
  | .taskCreate entry priority name => (Scheduler64.taskCreate s entry priority name).2 = i
  | _ => False

def SwitchesTo (s : Sched) (i : ℕ) (op : Op) : Prop :=
  s.currentTask ≠ i ∧ (Scheduler64.step s op).1.currentTask = i

/-- A run with a creation of a task in it: what the kernel did before and after. -/
structure Creation where
  boot : Sched
  pre : List Op
  entry : Word
  priority : ℕ
  name : List UInt8
  mid : List Op

def Creation.before (r : Creation) : Sched :=
  Runs.exec Scheduler64.step (Scheduler64.initScheduler r.boot) r.pre

def Creation.call (r : Creation) : Op := .taskCreate r.entry.toNat r.priority r.name

def Creation.after (r : Creation) (ops : List Op) : Sched :=
  Runs.exec Scheduler64.step (Scheduler64.step r.before r.call).1 ops

/-- The task in slot `i` gets the processor for the first time: `schedule_next` calls
`context_switch` on the machine `m`, which stores `sp-96` for the old task. -/
structure FirstSwitch (r : Creation) (i : ℕ) (m : Machine) : Prop where
  entry : r.entry ≠ 0
  fills : Fills r.before i r.call
  waits : Runs.EveryStep (fun p op => ¬ Fills (r.after p) i op ∧ ¬ SwitchesTo (r.after p) i op) r.mid
  switches : SwitchesTo (r.after r.mid) i (.scheduleNext (m.sp-96).toNat)
  newSp : m.x 1 = BitVec.ofNat 64 (stackPtr (r.after r.mid) i)

/-- Until its first turn, a task in a slot that was not the running one keeps its entry
point as its stack pointer. -/
theorem stackPtr_after {r : Creation} {i : ℕ} (hfills : Fills r.before i r.call)
    (hidle : r.before.currentTask ≠ i) {mid : List Op}
    (hmid : Runs.EveryStep
      (fun p op => ¬ Fills (r.after p) i op ∧ ¬ SwitchesTo (r.after p) i op) mid) :
    (r.after mid).currentTask ≠ i ∧ stackPtr (r.after mid) i = r.entry.toNat := by
  apply Runs.always_of_everyStep
    (R := fun p => (r.after p).currentTask ≠ i ∧ stackPtr (r.after p) i = r.entry.toNat) ?_ ?_ hmid
    mid (List.prefix_refl _)
  · constructor
    · exact ne_of_eq_of_ne (taskCreate_currentTask r.before _ _ _) hidle
    · exact (taskCreate_stackPtr r.before _ _ _ i).trans (if_pos hfills)
  · rintro p op ⟨hcur,hptr⟩ ⟨hfill,hswitch⟩
    have hnext : r.after (p++[op]) = (Scheduler64.step (r.after p) op).1 := Runs.exec_concat _ _ _ _
    rw [hnext]
    constructor
    · exact fun hto => hswitch ⟨hcur,hto⟩
    · rw [step_stackPtr _ (Or.inr hcur.symm)]
      · exact hptr
      · rintro entry priority name rfl
        exact hfill

/-- The first turn of a task begins at its entry point exactly when the doubleword behind
the one its stack pointer points to holds the entry point once the outgoing task is saved.
The stack pointer is the entry point itself unless the slot was the running one when the
task was created, and the doubleword is what memory held before the call unless the
outgoing frame or slot overlaps it. -/
theorem starts_at_entry_iff {r : Creation} {i : ℕ} {m : Machine} (h : FirstSwitch r i m) :
    ((AArch64.exec m contextSwitch).pc = r.entry ↔ load64 (saved m) (m.x 1+8) = r.entry) ∧
    (r.before.currentTask ≠ i → m.x 1 = r.entry) ∧
    (Disjoint (span (m.x 1+8) 8) (span (m.sp-96) 96) →
      Disjoint (span (m.x 1+8) 8) (span (m.x 0) 8) →
      load64 (saved m) (m.x 1+8) = load64 m.mem (m.x 1+8)) := by
  refine ⟨?_,?_,load64_saved⟩
  · rw [contextSwitch_pc]
  · intro hidle
    rw [h.newSp,(stackPtr_after h.fills hidle h.waits).2]
    exact BitVec.ofNat_toNat _ _

/-- A task with its entry point at `0x80000`, created first of all; the slice of task 0 is
cut to one tick. Memory is full of `nop` instructions. -/
def nopTask : Creation := ⟨Scheduler.boot,[],0x80000,5,[],[.taskSetPriority 0 9]⟩
def nopMachine : Machine where
  x k := if k = 0 then 0x1000 else if k = 1 then 0x80000 else 0
  sp := 0x3000
  pc := 0x90000
  mem a := [0x1f,0x20,0x03,0xd5].getD (a.toNat%4) 0

theorem firstSwitch_nopTask : FirstSwitch nopTask 1 nopMachine := by
  constructor
  · decide
  · exact (by decide +kernel : (Scheduler64.taskCreate nopTask.before 0x80000 5 []).2 = 1)
  · apply (Runs.everyStep_cons Scheduler64.step
      (fun s op => ¬ Fills s 1 op ∧ ¬ SwitchesTo s 1 op) _ _ _).mpr ⟨⟨id,?_⟩,Runs.everyStep_nil _⟩
    exact fun h => absurd h.2 (by decide +kernel)
  · exact ⟨by decide +kernel,by decide +kernel⟩
  · decide +kernel

theorem nopTask_starts_iff : (AArch64.exec nopMachine contextSwitch).pc = 0x80000 ↔
    load64 (saved nopMachine) 0x80008 = 0x80000 := (starts_at_entry_iff firstSwitch_nopTask).1

theorem starts_elsewhere : FirstSwitch nopTask 1 nopMachine ∧
    (AArch64.exec nopMachine contextSwitch).pc ≠ nopTask.entry := by
  refine ⟨firstSwitch_nopTask,?_⟩
  decide +kernel

end TaskEntry
end ValiantCore
