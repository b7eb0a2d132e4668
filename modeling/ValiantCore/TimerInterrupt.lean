import ValiantCore.SchedulerInvariants

/-! The x86 timer interrupt, from `irq_handler` through `pit_handler` into
`schedule_next` and, when that does not switch, back to `pic_send_eoi`. A context that
`context_switch` parks in the middle of its handler goes on there once it is switched
in again; a context that has never been parked begins at its entry point. -/
namespace ValiantCore
namespace TimerInterrupt

open Scheduler (Sched Op maxTasks initScheduler scheduleNext Sane Switches scanned)

/-- The calls on the path of an interrupt, in program order. -/
inductive Action
  | countTick
  | scheduleNext
  | keyboardHandler
  | picSendEoi (irq : ℕ)
  deriving DecidableEq

/-- `pit_ticks++; schedule_next();` -/
def pitHandler : List Action := [.countTick,.scheduleNext]

def irqHandler (intNo : ℕ) : List Action :=
  (if intNo = 32 then pitHandler else [])++(if intNo = 33 then [.keyboardHandler] else [])++
    [.picSendEoi (intNo-32)]

/-- The processor with the scheduler and the interrupt controller. `path` is what is left
of the interrupt path in the context that runs, and is empty while this context executes
its own code; `parked i` is what is left of it in the context that was last switched out
of slot `i`, if its task has been switched out; `unacked` is a timer interrupt in service. -/
structure Cpu where
  sched : Sched
  pitTicks : ℕ
  path : List Action
  parked : ℕ → Option (List Action)
  unacked : Bool

/-- What happens next: the timer fires, the running context executes the next call of the
interrupt path with its stack pointer at `sp`, or its own code calls the scheduler. -/
inductive Turn
  | timer
  | advance (sp : ℕ)
  | call (op : Op) (h : ∀ sp, op ≠ .scheduleNext sp)

/-- A created task has not been switched out yet. -/
def unpark (c : Cpu) : Op → ℕ → Option (List Action)
  | .taskCreate entry priority name =>
    let r := (Scheduler.taskCreate c.sched entry priority name).2
    if r < 0 then c.parked else Function.update c.parked r.toNat none
  | _ => c.parked

/-- `schedule_next` with `rest` still to do after it: a switch parks the outgoing context
there and takes up the incoming one where that was parked, or at its entry point. -/
def reschedule (c : Cpu) (rest : List Action) (sp : ℕ) : Cpu :=
  let s := scheduleNext c.sched sp
  if s.currentTask = c.sched.currentTask then { c with sched := s, path := rest }
  else
    { c with
      sched := s
      path := (c.parked s.currentTask).getD []
      parked := Function.update c.parked c.sched.currentTask (some rest) }

def perform (c : Cpu) (rest : List Action) (sp : ℕ) : Action → Cpu
  | .countTick => { c with pitTicks := u32 (c.pitTicks+1), path := rest }
  | .scheduleNext => reschedule c rest sp
  | .keyboardHandler => { c with path := rest }
  | .picSendEoi _ => { c with unacked := false, path := rest }

/-- The controller holds back the timer while an interrupt is in service, and the
processor while it is on the interrupt path. -/
def step (c : Cpu) : Turn → Cpu × Unit
  | .timer =>
    (if c.path.isEmpty && !c.unacked then { c with path := irqHandler 32, unacked := true } else c,())
  | .advance sp =>
    (match c.path with
      | [] => c
      | a::rest => perform c rest sp a,())
  | .call op _ =>
    (if c.path.isEmpty then { c with sched := (Scheduler.step c.sched op).1, parked := unpark c op }
      else c,())

def boot (s : Sched) : Cpu := ⟨initScheduler s,0,[],fun _ => none,false⟩

def after (s : Sched) (turns : List Turn) : Cpu := Runs.exec step (boot s) turns

theorem after_concat (s : Sched) (turns : List Turn) (t : Turn) :
    after s (turns++[t]) = (step (after s turns) t).1 := by
  apply Runs.exec_concat

/-- A context executes its own code only when no timer interrupt waits for its
acknowledgement. -/
def Acknowledged (c : Cpu) : Prop := c.path = [] → c.unacked = false

/-- `schedule_next` on the interrupt path switches to a task that has not been switched
out since its creation. -/
def StartsTask (c : Cpu) : Turn → Prop
  | .advance _ => c.path.head? = some .scheduleNext ∧ Switches c.sched ∧
      c.parked (scanned c.sched) = none
  | _ => False

theorem reschedule_stay {c : Cpu} (hs : Sane c.sched) (h : ¬ Switches c.sched) (rest : List Action)
    (sp : ℕ) : reschedule c rest sp = { c with sched := scheduleNext c.sched sp, path := rest } := by
  rw [reschedule,if_pos (Scheduler.scheduleNext_stay hs.current_lt h sp).1]

theorem reschedule_switch {c : Cpu} (hs : Sane c.sched) (h : Switches c.sched) (rest : List Action)
    (sp : ℕ) : reschedule c rest sp =
      { c with
        sched := scheduleNext c.sched sp
        path := (c.parked (scanned c.sched)).getD []
        parked := Function.update c.parked c.sched.currentTask (some rest) } := by
  have hcur := (Scheduler.scheduleNext_switch hs.current_lt h sp).1
  have hne : (scheduleNext c.sched sp).currentTask ≠ c.sched.currentTask := by
    rw [hcur]
    exact h.2
  rw [reschedule,if_neg hne,hcur]

/-- Where the interrupt path can stand, and whether the interrupt is still in service. -/
inductive Stage : List Action → Bool → Prop
  | own : Stage [] false
  | entered : Stage [.countTick,.scheduleNext,.picSendEoi 0] true
  | counted : Stage [.scheduleNext,.picSendEoi 0] true
  | scheduled : Stage [.picSendEoi 0] true

/-- What a run keeps up while no tick starts a task: every parked context has its
acknowledgement still before it, and nothing else. -/
structure OnTime (c : Cpu) : Prop where
  sane : Sane c.sched
  parked : ∀ i p, c.parked i = some p → p = [.picSendEoi 0]
  stage : Stage c.path c.unacked

theorem OnTime.acknowledged {c : Cpu} (h : OnTime c) : Acknowledged c := by
  intro hpath
  have hstage := h.stage
  rw [hpath] at hstage
  generalize c.unacked = u at hstage
  cases hstage
  rfl

theorem onTime_boot (s : Sched) : OnTime (boot s) where
  sane := Scheduler.sane_init s
  parked := by simp [boot]
  stage := .own

theorem onTime_timer {c : Cpu} (h : OnTime c) : OnTime (step c .timer).1 := by
  simp only [step]
  split_ifs
  · exact ⟨h.sane,h.parked,.entered⟩
  · exact h

theorem onTime_call {c : Cpu} (h : OnTime c) (op : Op) (hop : ∀ sp, op ≠ .scheduleNext sp) :
    OnTime (step c (.call op hop)).1 := by
  simp only [step]
  split_ifs
  · refine ⟨Scheduler.sane_step h.sane op,?_,h.stage⟩
    intro i p hp
    cases op with
    | taskCreate entry priority name =>
      simp only [unpark] at hp
      split_ifs at hp
      · exact h.parked i p hp
      · rw [Function.update_apply] at hp
        split_ifs at hp
        exact h.parked i p hp
    | _ => exact h.parked i p hp
  · exact h

theorem onTime_reschedule {c : Cpu} (h : OnTime c) (hu : c.unacked = true)
    (hno : ¬ (Switches c.sched ∧ c.parked (scanned c.sched) = none)) (sp : ℕ) :
    OnTime (reschedule c [.picSendEoi 0] sp) := by
  have hsane := Scheduler.sane_step h.sane (.scheduleNext sp)
  by_cases hsw : Switches c.sched
  · rw [reschedule_switch h.sane hsw]
    obtain ⟨p,hp⟩ := Option.ne_none_iff_exists'.mp fun hnone => hno ⟨hsw,hnone⟩
    refine ⟨hsane,?_,?_⟩
    · intro i q hq
      simp only [Function.update_apply] at hq
      split_ifs at hq
      · exact (Option.some.inj hq).symm
      · exact h.parked i q hq
    · simp only [hp,Option.getD_some,h.parked _ p hp,hu]
      exact .scheduled
  · rw [reschedule_stay h.sane hsw]
    exact ⟨hsane,h.parked,hu ▸ .scheduled⟩

theorem onTime_advance {c : Cpu} (h : OnTime c) {sp : ℕ} (hno : ¬ StartsTask c (.advance sp)) :
    OnTime (step c (.advance sp)).1 := by
  obtain ⟨sched,pitTicks,path,parked,unacked⟩ := c
  have hstage := h.stage
  simp only at hstage
  cases hstage with
  | own => exact h
  | entered => exact ⟨h.sane,h.parked,.counted⟩
  | counted => exact onTime_reschedule h rfl (fun hsw => hno ⟨rfl,hsw⟩) sp
  | scheduled => exact ⟨h.sane,h.parked,.own⟩

theorem not_acknowledged_of_startsTask {c : Cpu} (h : OnTime c) {sp : ℕ}
    (hstart : StartsTask c (.advance sp)) : ¬ Acknowledged (step c (.advance sp)).1 := by
  obtain ⟨sched,pitTicks,path,parked,unacked⟩ := c
  obtain ⟨hhead,hsw,hnone⟩ := hstart
  have hstage := h.stage
  simp only at hstage hhead hsw hnone
  cases hstage with
  | counted =>
    intro hack
    simp only [step,perform] at hack
    rw [reschedule_switch h.sane hsw] at hack
    exact absurd (hack (by simp [hnone])) (by simp)
  | _ => simp at hhead

/-- Every timer interrupt of a run is acknowledged before a task goes on with its own
code exactly when no tick switches to a task that has not been switched out before. -/
theorem acknowledged_iff (s : Sched) (turns : List Turn) :
    Runs.Always (fun pre => Acknowledged (after s pre)) turns ↔
      Runs.EveryStep (fun pre t => ¬ StartsTask (after s pre) t) turns := by
  apply Runs.always_iff_everyStep (R := fun pre => OnTime (after s pre))
  · exact onTime_boot s
  · intro pre t h hno
    rw [after_concat]
    cases t with
    | timer => exact onTime_timer h
    | advance sp => exact onTime_advance h hno
    | call op hop => exact onTime_call h op hop
  · exact fun pre h => h.acknowledged
  · intro pre t h hack hstart
    rw [after_concat] at hack
    cases t with
    | advance sp => exact not_acknowledged_of_startsTask h hstart hack
    | _ => exact hstart

/-- The first tick ends the slice of the kernel task, and task 1 starts in the middle of
the interrupt. -/
def startedByTick : List Turn :=
  [.call (.taskCreate 4096 5 []) (by simp),.call (.taskSetPriority 0 9) (by simp),.timer,
    .advance 0,.advance 0]

theorem started_unacknowledged :
    ¬ Runs.Always (fun pre => Acknowledged (after Scheduler.boot pre)) startedByTick := by
  intro h
  exact absurd (h _ (List.prefix_refl _) (by decide +kernel)) (by decide +kernel)

end TimerInterrupt
end ValiantCore
