import ValiantCore.Bytes
import ValiantCore.Runs
import Mathlib.Data.List.Count

/-! The wait of `arch/x86/i8254.c`. `pit_sleep` computes how many ticks it waits for and
where the counter stands, and then goes around its loop, while the timer interrupt counts
on between any two of its accesses. -/
namespace ValiantCore
namespace Pit

/-- How far a call of `pit_sleep` has come: it has computed `ticks`, or has also read
`start` and goes around the loop, or has returned. -/
inductive Call
  | entered (ticks : ℕ)
  | waiting (ticks start : ℕ)
  | returned
  deriving DecidableEq, Repr

structure State where
  pitTicks : ℕ
  pitHz : ℕ
  call : Call
  deriving DecidableEq, Repr

/-- The timer interrupt comes, or the call goes on. -/
inductive Turn
  | pitHandler
  | goOn
  deriving DecidableEq, Repr

/-- The call is made: `(pit_hz * ms) / 1000` in 32 bits. -/
def pitSleep (pitTicks pitHz ms : ℕ) : State := ⟨pitTicks,pitHz,.entered (u32 (pitHz*ms)/1000)⟩

/-- The call reads the counter: once for `start`, and then at every test of its loop. -/
def goOn (s : State) : State :=
  match s.call with
  | .entered ticks => { s with call := .waiting ticks s.pitTicks }
  | .waiting ticks start => if u32 ((s.pitTicks : ℤ)-start) < ticks then s else { s with call := .returned }
  | .returned => s

theorem goOn_waiting (pitTicks pitHz ticks start : ℕ) :
    goOn ⟨pitTicks,pitHz,.waiting ticks start⟩ =
      ⟨pitTicks,pitHz,if u32 ((pitTicks : ℤ)-start) < ticks then .waiting ticks start else .returned⟩ := by
  simp only [goOn]
  split_ifs
  · rfl
  · rfl

def step (s : State) : Turn → State × Unit
  | .pitHandler => ({ s with pitTicks := u32 (s.pitTicks+1) },())
  | .goOn => (goOn s,())

def after (s : State) (turns : List Turn) : State := Runs.exec step s turns

def ticksCounted (turns : List Turn) : ℕ := turns.count .pitHandler

/-- Whenever the call has returned, that many ticks have been counted since it was made. -/
def SleepsFor (s : State) (ticks : ℕ) : Prop :=
  ∀ turns, (after s turns).call = .returned → ticks ≤ ticksCounted turns

/-- The counter is as far ahead of `start` as ticks have been counted since it was read, up
to its wraps; and a call that has returned has seen its ticks go by. -/
def Counts (ticks counted : ℕ) (s : State) : Prop :=
  match s.call with
  | .entered t => t = ticks
  | .waiting t start => t = ticks ∧ ∃ n ≤ counted, ((s.pitTicks : ℤ)-start-n)%2^32 = 0
  | .returned => ticks ≤ counted

theorem ticksCounted_concat (turns : List Turn) (turn : Turn) :
    ticksCounted (turns++[turn]) = ticksCounted turns+(if turn = .pitHandler then 1 else 0) := by
  cases turn <;> simp [ticksCounted,List.count_append]

theorem counts_pitHandler {ticks counted : ℕ} {s : State} (h : Counts ticks counted s) :
    Counts ticks (counted+1) (step s .pitHandler).1 := by
  obtain ⟨pitTicks,pitHz,call⟩ := s
  cases call with
  | entered t => exact h
  | waiting t start =>
    obtain ⟨ht,n,hn,hahead⟩ := h
    refine ⟨ht,n+1,Nat.succ_le_succ hn,?_⟩
    simp only [step,u32]
    simp only at hahead
    omega
  | returned => exact Nat.le_succ_of_le h

theorem counts_goOn {ticks counted : ℕ} {s : State} (h : Counts ticks counted s) :
    Counts ticks counted (step s .goOn).1 := by
  obtain ⟨pitTicks,pitHz,call⟩ := s
  cases call with
  | entered t => exact ⟨h,0,Nat.zero_le _,by simp [step,goOn]⟩
  | waiting t start =>
    obtain ⟨ht,n,hn,hahead⟩ := h
    simp only [step,goOn_waiting]
    split_ifs with hgo
    · exact ⟨ht,n,hn,hahead⟩
    · -- the difference that ends the loop is at most what has been counted
      simp only [u32] at hgo
      simp only at hahead
      change ticks ≤ counted
      omega
  | returned => exact h

theorem counts_after {ticks : ℕ} {s : State} (h : Counts ticks 0 s) (turns : List Turn) :
    Counts ticks (ticksCounted turns) (after s turns) := by
  induction turns using List.reverseRecOn with
  | nil => exact h
  | append_singleton turns turn ih =>
    rw [ticksCounted_concat,after,Runs.exec_concat]
    cases turn with
    | pitHandler => exact counts_pitHandler ih
    | goOn => exact counts_goOn ih

theorem sleepsFor_computed (pitTicks pitHz ms : ℕ) :
    SleepsFor (pitSleep pitTicks pitHz ms) (u32 (pitHz*ms)/1000) := by
  intro turns hreturned
  have hentered : Counts (u32 (pitHz*ms)/1000) 0 (pitSleep pitTicks pitHz ms) := by
    rw [Counts,pitSleep]
  have hcounts := counts_after hentered turns
  rwa [Counts,hreturned] at hcounts

/-- The run in which the call reads the counter, `n` ticks come and the call goes on. -/
def shortest (n : ℕ) : List Turn := .goOn::List.replicate n .pitHandler++[.goOn]

theorem after_replicate (s : State) (n : ℕ) :
    ∃ pitTicks : ℕ, after s (List.replicate n .pitHandler) = { s with pitTicks := pitTicks } ∧
      ((pitTicks : ℤ)-s.pitTicks-n)%2^32 = 0 := by
  induction n with
  | zero => exact ⟨s.pitTicks,rfl,by simp⟩
  | succ n ih =>
    obtain ⟨pitTicks,hafter,hahead⟩ := ih
    refine ⟨u32 (pitTicks+1),?_,?_⟩
    · rw [List.replicate_succ',after,Runs.exec_concat]
      change (step (after s (List.replicate n .pitHandler)) .pitHandler).1 = _
      rw [hafter]
      rfl
    · unfold u32
      push_cast
      omega

theorem shortest_returns (pitTicks pitHz ms : ℕ) :
    (after (pitSleep pitTicks pitHz ms) (shortest (u32 (pitHz*ms)/1000))).call = .returned := by
  obtain ⟨later,hafter,hahead⟩ := after_replicate
    ⟨pitTicks,pitHz,.waiting (u32 (pitHz*ms)/1000) pitTicks⟩ (u32 (pitHz*ms)/1000)
  have hlast : after (pitSleep pitTicks pitHz ms) (shortest (u32 (pitHz*ms)/1000)) =
      goOn ⟨later,pitHz,.waiting (u32 (pitHz*ms)/1000) pitTicks⟩ := by
    rw [shortest,after,Runs.exec_concat,Runs.exec_cons]
    exact congrArg goOn hafter
  have hdone : ¬ u32 ((later : ℤ)-pitTicks) < u32 (pitHz*ms)/1000 := by
    simp only at hahead
    unfold u32 at hahead ⊢
    omega
  rw [hlast,goOn_waiting,if_neg hdone]

/-- Whatever the counter stands at, the call never returns early just if the product does
not leave 32 bits. -/
theorem pitSleep_long_enough_iff (pitTicks pitHz ms : ℕ) :
    SleepsFor (pitSleep pitTicks pitHz ms) (pitHz*ms/1000) ↔ pitHz*ms < 2^32 := by
  constructor
  · intro h
    have hshortest := h _ (shortest_returns pitTicks pitHz ms)
    have hcount : ticksCounted (shortest (u32 (pitHz*ms)/1000)) = u32 (pitHz*ms)/1000 := by
      simp [ticksCounted,shortest]
    rw [hcount] at hshortest
    unfold u32 at hshortest
    omega
  · intro hproduct
    have hexact : u32 ((pitHz : ℤ)*ms) = pitHz*ms := by
      unfold u32
      omega
    have h := sleepsFor_computed pitTicks pitHz ms
    rwa [hexact] at h

/-- At 1000 ticks a second, a wait of 4294968 milliseconds is over at once. -/
theorem long_wait_over_at_once : ¬ SleepsFor (pitSleep 0 1000 4294968) (1000*4294968/1000) := by
  intro h
  exact absurd (h [.goOn,.goOn] (by decide)) (by decide)

end Pit
end ValiantCore
