import ValiantCore.Bytes
import Mathlib.Tactic.Linarith
import Mathlib.Tactic.Cases

/-! The timer of `arch/aarch64/timer64.c`: its interrupt, which is programmed anew each time it
is handled, and the waits for the system counter. The counter goes on between any two steps. -/
namespace ValiantCore
namespace Timer64

/-- How far a call of `timer_sleep_ms` has come: it has been made when the counter stood at
`made`, and it waits from `start` for `target`. -/
inductive Call
  | none
  | entered (ms made : ℕ)
  | waiting (ms made start target : ℕ)
  deriving DecidableEq, Repr

/-- A wait that is over: its length in milliseconds, and the counter before and after it. -/
structure Wait where
  ms : ℕ
  made : ℕ
  back : ℕ
  deriving DecidableEq, Repr

structure State where
  cntpct : ℕ
  cval : ℤ
  enabled : Bool
  timerFreq : ℕ
  timerTicks : ℕ
  call : Call
  waits : List Wait
  deriving DecidableEq, Repr

/-- The register takes the low 32 bits, as a signed number: the timer is to fire that many
counts from now. -/
def writeTval (s : State) (val : ℕ) : State := { s with cval := s.cntpct+(val : ℤ).bmod (2^32) }

/-- `cntfrq` is what is read from `cntfrq_el0`. -/
def timerInit (s : State) (cntfrq hz : ℕ) : State :=
  let s := { s with timerFreq := cntfrq }
  let s := writeTval s (s.timerFreq/hz)
  { s with enabled := true }

def timerHandler (s : State) : State :=
  let s := { s with timerTicks := u64 (s.timerTicks+1) }
  writeTval s (s.timerFreq/1000)

/-- The timer asks for its interrupt from the time that was programmed on. -/
def Fires (s : State) : Prop := s.enabled = true ∧ s.cval ≤ s.cntpct

instance (s : State) : Decidable (Fires s) := inferInstanceAs (Decidable (_ ∧ _))

/-- The call reads the counter: once for `start`, and then at every test of its loop. -/
def goOn (s : State) : State :=
  match s.call with
  | .none => s
  | .entered ms made => { s with call := .waiting ms made s.cntpct (u64 (s.timerFreq*ms)/1000) }
  | .waiting ms made start target =>
    if u64 ((s.cntpct : ℤ)-start) < target then s
    else { s with call := .none, waits := ⟨ms,made,s.cntpct⟩::s.waits }

inductive Turn
  | count (n : ℕ)
  | interrupt
  | sleep (ms : ℕ)
  | goOn
  deriving DecidableEq, Repr

def step (s : State) : Turn → State
  | .count n => { s with cntpct := s.cntpct+n }
  | .interrupt => if Fires s then timerHandler s else s
  | .sleep ms => if s.call = .none then { s with call := .entered ms s.cntpct } else s
  | .goOn => goOn s

def run (s : State) (turns : List Turn) : State := turns.foldl step s

/-- The kernel starts the timer when the counter stands at `now`. -/
def started (cntfrq hz now : ℕ) : State := timerInit ⟨now,0,false,0,0,.none,[]⟩ cntfrq hz

/-- The call in progress waits long enough, and so have those that are over. -/
structure Patient (s : State) : Prop where
  waits : ∀ w ∈ s.waits, s.timerFreq*w.ms/1000 ≤ w.back-w.made
  call : match s.call with
    | .none => True
    | .entered ms made => made ≤ s.cntpct ∧ ms < 2^32
    | .waiting ms made start target => made ≤ start ∧ start ≤ s.cntpct ∧ target = s.timerFreq*ms/1000

/-- The timer is programmed for the next tick or later. -/
structure Paced (cntfrq hz now : ℕ) (s : State) : Prop where
  freq : s.timerFreq = cntfrq
  next : (now+cntfrq/hz+s.timerTicks*(cntfrq/1000) : ℕ) ≤ s.cval
  past : 0 < s.timerTicks → now+cntfrq/hz+(s.timerTicks-1)*(cntfrq/1000) ≤ s.cntpct

theorem timerHandler_fields (s : State) : (timerHandler s).timerFreq = s.timerFreq ∧
    (timerHandler s).timerTicks = u64 (s.timerTicks+1) ∧ (timerHandler s).cntpct = s.cntpct ∧
    (timerHandler s).call = s.call ∧ (timerHandler s).waits = s.waits := by
  rw [timerHandler,writeTval]
  exact ⟨rfl,rfl,rfl,rfl,rfl⟩

theorem tval_bmod {n : ℕ} (h : n < 2^31) : (n : ℤ).bmod (2^32) = n := by
  rw [Int.bmod_eq_of_le]
  · omega
  · omega

theorem pace {first ticks ticks' interval count : ℕ} (h : first+ticks*interval ≤ count)
    (hticks : ticks' ≤ ticks+1) :
    first+ticks'*interval ≤ count+interval ∧ first+(ticks'-1)*interval ≤ count := by
  have hmul := Nat.mul_le_mul_right interval hticks
  have hmul' := Nat.mul_le_mul_right interval (Nat.sub_le_sub_right hticks 1)
  rw [Nat.succ_mul] at hmul
  rw [Nat.add_sub_cancel] at hmul'
  omega

theorem patient_goOn {s : State} (h : Patient s) (hrate : s.timerFreq < 2^32) : Patient (goOn s) ∧
    (goOn s).timerFreq = s.timerFreq ∧ (goOn s).timerTicks = s.timerTicks ∧
    (goOn s).cntpct = s.cntpct ∧ (goOn s).cval = s.cval := by
  have hcall := h.call
  unfold goOn
  cases hc : s.call with
  | none => exact ⟨h,rfl,rfl,rfl,rfl⟩
  | entered ms made =>
    rw [hc] at hcall
    have hproduct : u64 (s.timerFreq*ms) = s.timerFreq*ms := by
      have hlt : s.timerFreq*ms < 2^32*2^32 := Nat.mul_lt_mul'' hrate hcall.2
      unfold u64
      omega
    exact ⟨⟨h.waits,hcall.1,le_rfl,congrArg (·/1000) hproduct⟩,rfl,rfl,rfl,rfl⟩
  | waiting ms made start target =>
    rw [hc] at hcall
    obtain ⟨hmade,hstart,htarget⟩ := hcall
    dsimp only
    by_cases hgo : u64 ((s.cntpct : ℤ)-start) < target
    · rw [if_pos hgo]
      exact ⟨h,rfl,rfl,rfl,rfl⟩
    · rw [if_neg hgo]
      refine ⟨⟨fun w hw => ?_,trivial⟩,rfl,rfl,rfl,rfl⟩
      rcases List.mem_cons.mp hw with rfl | hw
      · show s.timerFreq*ms/1000 ≤ s.cntpct-made
        unfold u64 at hgo
        omega
      · exact h.waits w hw

section Steps
variable {cntfrq hz now : ℕ} {s : State} (hfreq : cntfrq < 2^32)
include hfreq

theorem started_paced (hhz : 2 ≤ hz) : Paced cntfrq hz now (started cntfrq hz now) := by
  have hlt : cntfrq/hz < 2^31 := by
    have hdiv : cntfrq/hz ≤ cntfrq/2 := Nat.div_le_div_left hhz (by decide)
    omega
  refine ⟨rfl,?_,fun hpos => absurd hpos (lt_irrefl 0)⟩
  simp only [started,timerInit,writeTval,tval_bmod hlt]
  push_cast
  omega

theorem paced_handler (h : Paced cntfrq hz now s) (hfires : Fires s) :
    Paced cntfrq hz now (timerHandler s) := by
  have hlt : cntfrq/1000 < 2^31 := by omega
  have hnext := h.next.trans hfires.2
  have hnow : now+cntfrq/hz+s.timerTicks*(cntfrq/1000) ≤ s.cntpct := by exact_mod_cast hnext
  have hticks : u64 (s.timerTicks+1) ≤ s.timerTicks+1 := by
    unfold u64
    omega
  obtain ⟨hle,hle'⟩ := pace hnow hticks
  have hcval : (timerHandler s).cval = (s.cntpct+cntfrq/1000 : ℕ) := by
    simp only [timerHandler,writeTval,h.freq,tval_bmod hlt]
    push_cast
    rfl
  obtain ⟨hkept,hhandled,hcount,-⟩ := timerHandler_fields s
  refine ⟨hkept.trans h.freq,?_,fun _ => ?_⟩
  · rw [hcval,hhandled]
    exact_mod_cast hle
  · rw [hhandled,hcount]
    exact hle'

theorem step_spec (hpaced : Paced cntfrq hz now s) (h : Patient s) {t : Turn}
    (ht : ∀ ms, t = .sleep ms → ms < 2^32) : Paced cntfrq hz now (step s t) ∧ Patient (step s t) := by
  cases t with
  | count n =>
    refine ⟨⟨hpaced.freq,hpaced.next,fun hpos => ?_⟩,h.waits,?_⟩
    · exact (hpaced.past hpos).trans (Nat.le_add_right s.cntpct n)
    · have hcall := h.call
      show match s.call with
        | .none => True
        | .entered ms made => made ≤ s.cntpct+n ∧ ms < 2^32
        | .waiting ms made start target =>
          made ≤ start ∧ start ≤ s.cntpct+n ∧ target = s.timerFreq*ms/1000
      cases hc : s.call with
      | none => trivial
      | entered ms made =>
        rw [hc] at hcall
        exact ⟨by omega,hcall.2⟩
      | waiting ms made start target =>
        rw [hc] at hcall
        exact ⟨hcall.1,by omega,hcall.2.2⟩
  | interrupt =>
    rw [step]
    by_cases hfires : Fires s
    · rw [if_pos hfires]
      obtain ⟨hkept,-,hcount,hcall,hwaits⟩ := timerHandler_fields s
      refine ⟨paced_handler hfreq hpaced hfires,?_,?_⟩
      · rw [hwaits,hkept]
        exact h.waits
      · rw [hcall,hcount,hkept]
        exact h.call
    · rw [if_neg hfires]
      exact ⟨hpaced,h⟩
  | sleep ms =>
    rw [step]
    split
    · exact ⟨⟨hpaced.freq,hpaced.next,hpaced.past⟩,h.waits,le_rfl,ht ms rfl⟩
    · exact ⟨hpaced,h⟩
  | goOn =>
    obtain ⟨hpatient,hkept,hticks,hcount,hcval⟩ := patient_goOn h (hpaced.freq ▸ hfreq)
    refine ⟨⟨hkept.trans hpaced.freq,?_,?_⟩,hpatient⟩
    · rw [step,hticks,hcval]
      exact hpaced.next
    · rw [step,hticks,hcount]
      exact hpaced.past

theorem run_spec (hpaced : Paced cntfrq hz now s) (h : Patient s) {turns : List Turn}
    (hturns : ∀ ms, .sleep ms ∈ turns → ms < 2^32) :
    Paced cntfrq hz now (run s turns) ∧ Patient (run s turns) := by
  induction turns generalizing s with
  | nil => exact ⟨hpaced,h⟩
  | cons t turns ih =>
    obtain ⟨hpaced',h'⟩ := step_spec hfreq hpaced h fun ms he => hturns ms (he ▸ List.mem_cons_self)
    exact ih hpaced' h' fun ms hms => hturns ms (List.mem_cons_of_mem t hms)

/-- However the counter, the interrupts and the calls of `timer_sleep_ms` follow each other, the
ticks never run ahead of the counter, and no call returns before its time has passed. -/
theorem never_early (hhz : 2 ≤ hz) (turns : List Turn) (hturns : ∀ ms, .sleep ms ∈ turns → ms < 2^32) :
    (0 < (run (started cntfrq hz now) turns).timerTicks → now+cntfrq/hz+
      ((run (started cntfrq hz now) turns).timerTicks-1)*(cntfrq/1000) ≤
        (run (started cntfrq hz now) turns).cntpct) ∧
    ∀ w ∈ (run (started cntfrq hz now) turns).waits, cntfrq*w.ms/1000 ≤ w.back-w.made := by
  have hstart : Patient (started cntfrq hz now) := ⟨by simp [started,timerInit,writeTval],trivial⟩
  obtain ⟨hpaced,hpatient⟩ := run_spec hfreq (started_paced hfreq hhz) hstart hturns
  refine ⟨hpaced.past,fun w hw => ?_⟩
  have hwait := hpatient.waits w hw
  rwa [hpaced.freq] at hwait

end Steps

/-- At 62.5 MHz, a wait of a millisecond with one tick in it. -/
theorem never_early_millisecond :
    (run (started 62500000 1000 5) [.sleep 1,.goOn,.count 62500,.interrupt,.goOn]).timerTicks = 1 ∧
    (0 < (run (started 62500000 1000 5) [.sleep 1,.goOn,.count 62500,.interrupt,.goOn]).timerTicks →
      5+62500000/1000+((run (started 62500000 1000 5)
        [.sleep 1,.goOn,.count 62500,.interrupt,.goOn]).timerTicks-1)*(62500000/1000) ≤
        (run (started 62500000 1000 5) [.sleep 1,.goOn,.count 62500,.interrupt,.goOn]).cntpct) :=
  ⟨by decide,(@never_early 62500000 1000 5 (by decide) (by decide)
    [.sleep 1,.goOn,.count 62500,.interrupt,.goOn] (by simp)).1⟩

end Timer64
end ValiantCore
