import ValiantCore.Bytes
import ValiantCore.Slots
import ValiantCore.Runs
import Mathlib.Tactic.SplitIfs

/-! The task scheduler and its IPC queue, as `kernel/scheduler.c` computes them.
The task table and the message queue are fixed arrays; every function takes and
returns the module's static variables. Console messages are not part of the state. -/
namespace ValiantCore
namespace Scheduler

def maxTasks : ℕ := 512
def ipcQueueSize : ℕ := 16

inductive TaskState
  | running | ready | blocked | dead | sleeping
  deriving DecidableEq, Repr

/-- The `char name[16]` field of a task. -/
structure TaskName where
  bytes : List UInt8
  size : bytes.length = 16

structure Task where
  id : ℕ
  state : TaskState
  priority : ℕ
  stackPtr : ℕ
  timeSlice : ℕ
  ticksUsed : ℕ
  sleepTicks : ℕ
  name : TaskName

/-- What a message carries besides its `used` flag. -/
structure Message where
  fromId : ℕ
  toId : ℕ
  data : ℕ
  len : ℕ
  deriving DecidableEq, Repr

structure IpcMsg extends Message where
  used : Bool

/-- The static variables of the scheduler. -/
structure Sched where
  tasks : ℕ → Task
  taskCount : ℕ
  currentTask : ℕ
  tickCount : ℕ
  ipcQueue : ℕ → IpcMsg

/-- Static storage before the first call: every byte is zero, and 0 is `TASK_RUNNING`. -/
def boot : Sched where
  tasks _ := ⟨0,.running,0,0,0,0,0,⟨List.replicate 16 0,rfl⟩⟩
  taskCount := 0
  currentTask := 0
  tickCount := 0
  ipcQueue _ := ⟨⟨0,0,0,0⟩,false⟩

def Sched.setTask (s : Sched) (i : ℕ) (t : Task) : Sched :=
  { s with tasks := Function.update s.tasks i t }

def Sched.setMsg (s : Sched) (i : ℕ) (m : IpcMsg) : Sched :=
  { s with ipcQueue := Function.update s.ipcQueue i m }

def Sched.setState (s : Sched) (i : ℕ) (st : TaskState) : Sched :=
  s.setTask i { s.tasks i with state := st }

def Sched.setCount (s : Sched) (n : ℕ) : Sched := { s with taskCount := n }

@[simp] theorem setTask_tasks (s : Sched) (i : ℕ) (t : Task) :
    (s.setTask i t).tasks = Function.update s.tasks i t := rfl
@[simp] theorem setTask_taskCount (s : Sched) (i : ℕ) (t : Task) :
    (s.setTask i t).taskCount = s.taskCount := rfl
@[simp] theorem setTask_currentTask (s : Sched) (i : ℕ) (t : Task) :
    (s.setTask i t).currentTask = s.currentTask := rfl
@[simp] theorem setTask_ipcQueue (s : Sched) (i : ℕ) (t : Task) :
    (s.setTask i t).ipcQueue = s.ipcQueue := rfl
@[simp] theorem setMsg_tasks (s : Sched) (i : ℕ) (m : IpcMsg) : (s.setMsg i m).tasks = s.tasks := rfl
@[simp] theorem setMsg_taskCount (s : Sched) (i : ℕ) (m : IpcMsg) :
    (s.setMsg i m).taskCount = s.taskCount := rfl
@[simp] theorem setMsg_currentTask (s : Sched) (i : ℕ) (m : IpcMsg) :
    (s.setMsg i m).currentTask = s.currentTask := rfl
@[simp] theorem setMsg_ipcQueue (s : Sched) (i : ℕ) (m : IpcMsg) :
    (s.setMsg i m).ipcQueue = Function.update s.ipcQueue i m := rfl
@[simp] theorem setState_tasks (s : Sched) (i : ℕ) (st : TaskState) :
    (s.setState i st).tasks = Function.update s.tasks i { s.tasks i with state := st } := rfl
@[simp] theorem setState_taskCount (s : Sched) (i : ℕ) (st : TaskState) :
    (s.setState i st).taskCount = s.taskCount := rfl
@[simp] theorem setState_currentTask (s : Sched) (i : ℕ) (st : TaskState) :
    (s.setState i st).currentTask = s.currentTask := rfl
@[simp] theorem setState_ipcQueue (s : Sched) (i : ℕ) (st : TaskState) :
    (s.setState i st).ipcQueue = s.ipcQueue := rfl
@[simp] theorem setCount_tasks (s : Sched) (n : ℕ) : (s.setCount n).tasks = s.tasks := rfl
@[simp] theorem setCount_taskCount (s : Sched) (n : ℕ) : (s.setCount n).taskCount = n := rfl
@[simp] theorem setCount_currentTask (s : Sched) (n : ℕ) :
    (s.setCount n).currentTask = s.currentTask := rfl
@[simp] theorem setCount_ipcQueue (s : Sched) (n : ℕ) : (s.setCount n).ipcQueue = s.ipcQueue := rfl

def initScheduler (s : Sched) : Sched :=
  { s with
    tasks := fun i =>
      if i = 0 then
        { s.tasks 0 with
          id := 0, state := .running, sleepTicks := 0, priority := 0, timeSlice := 10, ticksUsed := 0 }
      else if i < maxTasks then { s.tasks i with id := 0, state := .dead, sleepTicks := 0 }
      else s.tasks i
    ipcQueue := fun i => if i < ipcQueueSize then { s.ipcQueue i with used := false } else s.ipcQueue i
    taskCount := 1
    currentTask := 0 }

/-- `for (j = 0; j < n && name[j]; j++) dst[j] = name[j]`, where `name` ends with its NUL. -/
def copyName : ℕ → List UInt8 → List UInt8 → List UInt8
  | n+1, c::name, d::dst => if c = 0 then d::dst else c :: copyName n name dst
  | _, _, dst => dst

@[simp] theorem copyName_length (n : ℕ) (name dst : List UInt8) :
    (copyName n name dst).length = dst.length := by
  fun_induction copyName n name dst <;> simp_all

def TaskName.set (old : TaskName) (name : List UInt8) : TaskName :=
  ⟨(copyName 15 name old.bytes).set 15 0,by simp [old.size]⟩

/-- `task_create`: the id of the new task, or `-1`. -/
def taskCreate (s : Sched) (entry priority : ℕ) (name : List UInt8) : Sched × ℤ :=
  if s.taskCount ≥ maxTasks then (s,-1)
  else if entry = 0 then (s,-1)
  else
    match Slots.firstSlot maxTasks (fun i => (s.tasks i).state = .dead) with
    | none => (s,-1)
    | some i =>
      ((s.setTask i
          { id := i, state := .ready, priority := priority, stackPtr := entry,
            timeSlice := u32 (10-priority), ticksUsed := 0, sleepTicks := 0,
            name := (s.tasks i).name.set name }).setCount (u32 (s.taskCount+1)),i)

def taskKill (s : Sched) (id : ℕ) : Sched :=
  if id ≥ maxTasks then s
  else if id = 0 then s
  else (s.setState id .dead).setCount (u32 (s.taskCount-1))

def taskSleep (s : Sched) (id ticks : ℕ) : Sched :=
  if id ≥ maxTasks then s
  else if (s.tasks id).state = .dead then s
  else s.setTask id { s.tasks id with sleepTicks := ticks, state := .sleeping }

def taskSetPriority (s : Sched) (id priority : ℕ) : Sched :=
  if id ≥ maxTasks then s
  else
    let priority := if priority > 9 then 9 else priority
    s.setTask id { s.tasks id with priority, timeSlice := u32 (10-priority) }

/-- One turn of the sleep countdown in `schedule_next`. -/
def wake (t : Task) : Task :=
  if t.state = .sleeping then
    let left := if t.sleepTicks > 0 then t.sleepTicks-1 else t.sleepTicks
    if left = 0 then { t with sleepTicks := left, state := .ready } else { t with sleepTicks := left }
  else t

/-- The bookkeeping every tick does: one more tick used, and the sleepers count down. -/
def tick (s : Sched) : Sched :=
  let s := s.setTask s.currentTask
    { s.tasks s.currentTask with ticksUsed := u32 ((s.tasks s.currentTask).ticksUsed+1) }
  { s with
    tickCount := u32 (s.tickCount+1)
    tasks := fun i => if i < maxTasks then wake (s.tasks i) else s.tasks i }

/-- The circular scan for the ready slot of least priority value, with its running
best: the pair of `next` and `best` after the first `n` turns. -/
def pickNext (tasks : ℕ → Task) (current n : ℕ) : ℕ × ℕ :=
  (List.range n).foldl (fun acc i =>
    let idx := (current+1+i) % maxTasks
    if (tasks idx).state = .ready ∧ (tasks idx).priority < acc.2 then (idx,(tasks idx).priority)
    else acc) (current,0xFF)

/-- The switch: the old task is ready again, `next` runs, and `context_switch` stores
the outgoing stack pointer `sp` in the old task's slot. -/
def switchTo (s : Sched) (next sp : ℕ) : Sched :=
  let prev := s.currentTask
  let s := (s.setState prev .ready).setState next .running
  { s.setTask prev { s.tasks prev with stackPtr := sp } with currentTask := next }

/-- `schedule_next`, called while the processor's stack pointer is `sp`. -/
def scheduleNext (s : Sched) (sp : ℕ) : Sched :=
  let s := tick s
  let cur := s.currentTask
  if (s.tasks cur).ticksUsed < (s.tasks cur).timeSlice then s
  else
    let s := s.setTask cur { s.tasks cur with ticksUsed := 0 }
    let next := (pickNext s.tasks cur maxTasks).1
    if next = cur then s else switchTo s next sp

def taskBlock (s : Sched) (id : ℕ) : Sched :=
  if id ≥ maxTasks then s else s.setState id .blocked

def taskUnblock (s : Sched) (id : ℕ) : Sched :=
  if id ≥ maxTasks then s
  else if (s.tasks id).state = .blocked then s.setState id .ready
  else s

/-- `ipc_send`: 0 once the message is queued, `-1` otherwise. -/
def ipcSend (s : Sched) (fromId toId data len : ℕ) : Sched × ℤ :=
  if fromId ≥ maxTasks ∨ toId ≥ maxTasks then (s,-1)
  else if (s.tasks toId).state = .dead then (s,-1)
  else
    match Slots.firstSlot ipcQueueSize (fun i => !(s.ipcQueue i).used) with
    | none => (s,-1)
    | some i =>
      let s := s.setMsg i ⟨⟨fromId,toId,data,len⟩,true⟩
      (if (s.tasks toId).state = .blocked then s.setState toId .ready else s,0)

/-- `ipc_receive`: what it stores through `data` and `len` before it returns 0;
`none` is the return value `-1`, after which both are untouched. -/
def ipcReceive (s : Sched) (id : ℕ) : Sched × Option (ℕ × ℕ) :=
  if id ≥ maxTasks then (s,none)
  else
    match Slots.firstSlot ipcQueueSize (fun i => (s.ipcQueue i).used && (s.ipcQueue i).toId = id) with
    | none => (s,none)
    | some i =>
      (s.setMsg i { s.ipcQueue i with used := false },some ((s.ipcQueue i).data,(s.ipcQueue i).len))

inductive Op
  | taskCreate (entry priority : ℕ) (name : List UInt8)
  | taskKill (id : ℕ)
  | taskSleep (id ticks : ℕ)
  | taskSetPriority (id priority : ℕ)
  | taskBlock (id : ℕ)
  | taskUnblock (id : ℕ)
  | scheduleNext (sp : ℕ)
  | ipcSend (fromId toId data len : ℕ)
  | ipcReceive (id : ℕ)

inductive Out
  | void
  | int (r : ℤ)
  | received (r : Option (ℕ × ℕ))
  deriving DecidableEq

def step (s : Sched) : Op → Sched × Out
  | .taskCreate entry priority name => let r := taskCreate s entry priority name; (r.1,.int r.2)
  | .taskKill id => (taskKill s id,.void)
  | .taskSleep id ticks => (taskSleep s id ticks,.void)
  | .taskSetPriority id priority => (taskSetPriority s id priority,.void)
  | .taskBlock id => (taskBlock s id,.void)
  | .taskUnblock id => (taskUnblock s id,.void)
  | .scheduleNext sp => (scheduleNext s sp,.void)
  | .ipcSend fromId toId data len => let r := ipcSend s fromId toId data len; (r.1,.int r.2)
  | .ipcReceive id => let r := ipcReceive s id; (r.1,.received r.2)

def after (s : Sched) (ops : List Op) : Sched := Runs.exec step (initScheduler s) ops

end Scheduler
end ValiantCore
