import ValiantCore.Scheduler

/-! The task scheduler a second time, as `kernel/scheduler64.c` computes it for aarch64.
The file keeps its own copy of every function; `task_t` and the messages have the same
fields as in `scheduler.c`, so the types are shared. -/
namespace ValiantCore
namespace Scheduler64

open Scheduler (Sched Task TaskState TaskName Message IpcMsg Op Out maxTasks ipcQueueSize)

def initScheduler (s : Sched) : Sched :=
  { s with
    tasks := fun i =>
      if i = 0 then
        { s.tasks 0 with
          id := 0, state := .running, sleepTicks := 0, priority := 0, timeSlice := 10, ticksUsed := 0 }
      else if i < maxTasks then { s.tasks i with id := 0, state := .dead, sleepTicks := 0 }
      else s.tasks i
    ipcQueue := fun i => if i < ipcQueueSize then { s.ipcQueue i with used := false } else s.ipcQueue i
    taskCount := 1
    currentTask := 0 }

/-- `task_create`, without the test of the entry point that `scheduler.c` makes. -/
def taskCreate (s : Sched) (entry priority : ℕ) (name : List UInt8) : Sched × ℤ :=
  if s.taskCount ≥ maxTasks then (s,-1)
  else
    match Slots.firstSlot maxTasks (fun i => (s.tasks i).state = .dead) with
    | none => (s,-1)
    | some i =>
      ((s.setTask i
          { id := i, state := .ready, priority := priority, stackPtr := entry,
            timeSlice := u32 (10-priority), ticksUsed := 0, sleepTicks := 0,
            name := (s.tasks i).name.set name }).setCount (u32 (s.taskCount+1)),i)

def taskKill (s : Sched) (id : ℕ) : Sched :=
  if id ≥ maxTasks then s
  else if id = 0 then s
  else (s.setState id .dead).setCount (u32 (s.taskCount-1))

def taskSleep (s : Sched) (id ticks : ℕ) : Sched :=
  if id ≥ maxTasks then s
  else if (s.tasks id).state = .dead then s
  else s.setTask id { s.tasks id with sleepTicks := ticks, state := .sleeping }

def taskSetPriority (s : Sched) (id priority : ℕ) : Sched :=
  if id ≥ maxTasks then s
  else
    let priority := if priority > 9 then 9 else priority
    s.setTask id { s.tasks id with priority, timeSlice := u32 (10-priority) }

def taskBlock (s : Sched) (id : ℕ) : Sched :=
  if id ≥ maxTasks then s else s.setState id .blocked

def taskUnblock (s : Sched) (id : ℕ) : Sched :=
  if id ≥ maxTasks then s
  else if (s.tasks id).state = .blocked then s.setState id .ready
  else s

/-- One turn of the sleep countdown in `schedule_next`. -/
def wake (t : Task) : Task :=
  if t.state = .sleeping then
    let left := if t.sleepTicks > 0 then t.sleepTicks-1 else t.sleepTicks
    if left = 0 then { t with sleepTicks := left, state := .ready } else { t with sleepTicks := left }
  else t

def tick (s : Sched) : Sched :=
  let s := s.setTask s.currentTask
    { s.tasks s.currentTask with ticksUsed := u32 ((s.tasks s.currentTask).ticksUsed+1) }
  { s with
    tickCount := u32 (s.tickCount+1)
    tasks := fun i => if i < maxTasks then wake (s.tasks i) else s.tasks i }

def pickNext (tasks : ℕ → Task) (current n : ℕ) : ℕ × ℕ :=
  (List.range n).foldl (fun acc i =>
    let idx := (current+1+i) % maxTasks
    if (tasks idx).state = .ready ∧ (tasks idx).priority < acc.2 then (idx,(tasks idx).priority)
    else acc) (current,0xFF)

def switchTo (s : Sched) (next sp : ℕ) : Sched :=
  let prev := s.currentTask
  let s := (s.setState prev .ready).setState next .running
  { s.setTask prev { s.tasks prev with stackPtr := sp } with currentTask := next }

/-- `schedule_next`, called while the processor's stack pointer is `sp`. -/
def scheduleNext (s : Sched) (sp : ℕ) : Sched :=
  let s := tick s
  let cur := s.currentTask
  if (s.tasks cur).ticksUsed < (s.tasks cur).timeSlice then s
  else
    let s := s.setTask cur { s.tasks cur with ticksUsed := 0 }
    let next := (pickNext s.tasks cur maxTasks).1
    if next = cur then s else switchTo s next sp

def ipcSend (s : Sched) (fromId toId data len : ℕ) : Sched × ℤ :=
  if fromId ≥ maxTasks ∨ toId ≥ maxTasks then (s,-1)
  else if (s.tasks toId).state = .dead then (s,-1)
  else
    match Slots.firstSlot ipcQueueSize (fun i => !(s.ipcQueue i).used) with
    | none => (s,-1)
    | some i =>
      let s := s.setMsg i ⟨⟨fromId,toId,data,len⟩,true⟩
      (if (s.tasks toId).state = .blocked then s.setState toId .ready else s,0)

def ipcReceive (s : Sched) (id : ℕ) : Sched × Option (ℕ × ℕ) :=
  if id ≥ maxTasks then (s,none)
  else
    match Slots.firstSlot ipcQueueSize (fun i => (s.ipcQueue i).used && (s.ipcQueue i).toId = id) with
    | none => (s,none)
    | some i =>
      (s.setMsg i { s.ipcQueue i with used := false },some ((s.ipcQueue i).data,(s.ipcQueue i).len))

def step (s : Sched) : Op → Sched × Out
  | .taskCreate entry priority name => let r := taskCreate s entry priority name; (r.1,.int r.2)
  | .taskKill id => (taskKill s id,.void)
  | .taskSleep id ticks => (taskSleep s id ticks,.void)
  | .taskSetPriority id priority => (taskSetPriority s id priority,.void)
  | .taskBlock id => (taskBlock s id,.void)
  | .taskUnblock id => (taskUnblock s id,.void)
  | .scheduleNext sp => (scheduleNext s sp,.void)
  | .ipcSend fromId toId data len => let r := ipcSend s fromId toId data len; (r.1,.int r.2)
  | .ipcReceive id => let r := ipcReceive s id; (r.1,.received r.2)

end Scheduler64
end ValiantCore
