import ValiantCore.PitSleep
import Mathlib.Tactic.Linarith

/-! The timer behind the ticks of `arch/x86/i8254.c`. From `pit_init` on it asks for its
interrupt once in so many cycles, whether or not the last request has been served; a request
that comes while one is waiting is lost. -/
namespace ValiantCore
namespace Pit

def pitChannel0 : ℕ := 0x40
def pitCmd : ℕ := 0x43
def pitModeSquare : UInt8 := 0x36
def pitBaseFreq : ℕ := 1193182

/-- Channel 0 of the timer: the low byte that waits for its high byte, and the number of cycles
between two requests. -/
structure Channel where
  low : Option UInt8
  reload : ℕ
  deriving DecidableEq, Repr

/-- A command lets the channel expect the low byte; 0 stands for 65536. -/
def outb (c : Channel) (port : ℕ) (val : UInt8) : Channel :=
  if port = pitCmd then { c with low := none }
  else if port = pitChannel0 then
    match c.low with
    | none => { c with low := some val }
    | some low =>
      let count := low.toNat+256*val.toNat
      ⟨none,if count = 0 then 65536 else count⟩
  else c

/-- What `pit_init(hz)` writes to the timer. -/
def pitInit (c : Channel) (hz : ℕ) : Channel :=
  let divisor := pitBaseFreq/hz
  let c := outb c pitCmd pitModeSquare
  let c := outb c pitChannel0 (UInt8.ofNat (divisor &&& 0xFF))
  outb c pitChannel0 (UInt8.ofNat (divisor >>> 8 &&& 0xFF))

theorem pitInit_reload (c : Channel) {hz : ℕ} (hlow : 19 ≤ hz) (hhigh : hz ≤ pitBaseFreq) :
    (pitInit c hz).reload = pitBaseFreq/hz := by
  have hpos : 0 < pitBaseFreq/hz := Nat.div_pos hhigh (by omega)
  have hlt : pitBaseFreq/hz < 2^16 := (Nat.div_le_div_left hlow (by decide)).trans_lt (by decide)
  have hmask : ∀ n, n &&& 0xFF = n%2^8 := fun n => Nat.and_two_pow_sub_one_eq_mod n 8
  have hbytes : (UInt8.ofNat (pitBaseFreq/hz &&& 0xFF)).toNat+
      256*(UInt8.ofNat ((pitBaseFreq/hz) >>> 8 &&& 0xFF)).toNat = pitBaseFreq/hz := by
    simp only [hmask,Nat.shiftRight_eq_div_pow,UInt8.toNat_ofNat']
    omega
  simp only [pitInit,outb,if_neg (show pitChannel0 ≠ pitCmd by decide),if_true,hbytes,if_neg hpos.ne']

/-- A wait that is over: its length in milliseconds, and the cycles before and after it. -/
structure Wait where
  ms : ℕ
  made : ℕ
  back : ℕ
  deriving DecidableEq, Repr

/-- The timer with the cycles since `pit_init` and its request, and the driver; `ms` and `made`
are those of the last call. -/
structure Clock where
  reload : ℕ
  cycles : ℕ
  pending : Bool
  driver : State
  ms : ℕ
  made : ℕ
  waits : List Wait
  deriving DecidableEq, Repr

inductive Event
  | cycles (n : ℕ)
  | interrupt
  | sleep (ms : ℕ)
  | goOn
  deriving DecidableEq, Repr

/-- The requests so far, the lost ones included. -/
def Clock.requests (c : Clock) : ℕ := c.cycles/c.reload

/-- The call goes on; a wait that is over is noted. -/
def Clock.goOn (c : Clock) : Clock :=
  let driver := Pit.goOn c.driver
  if c.driver.call ≠ .returned ∧ driver.call = .returned then
    { c with driver, waits := ⟨c.ms,c.made,c.cycles⟩::c.waits }
  else { c with driver }

def Clock.step (c : Clock) : Event → Clock × Unit
  | .cycles n =>
    let later := (c.cycles+n)/c.reload
    ({ c with cycles := c.cycles+n, pending := c.pending || c.requests != later },())
  | .interrupt =>
    if c.pending then ({ c with pending := false, driver := (Pit.step c.driver .pitHandler).1 },())
    else (c,())
  | .sleep ms =>
    if c.driver.call = .returned then
      ({ c with driver := pitSleep c.driver.pitTicks c.driver.pitHz ms, ms, made := c.cycles },())
    else (c,())
  | .goOn => (c.goOn,())

def Clock.after (c : Clock) (events : List Event) : Clock := Runs.exec Clock.step c events

def started (channel : Channel) (hz : ℕ) : Clock :=
  ⟨(pitInit channel hz).reload,0,false,⟨0,hz,.returned⟩,0,0,[]⟩

/-- No request of the step is lost. -/
def Kept (c : Clock) : Event → Prop
  | .cycles n => (c.cycles+n)/c.reload+c.pending.toNat ≤ c.requests+1
  | _ => True

/-- The ticks that are counted, and the request that waits, are requests; and so are those that
the call in progress and the waits that are over have seen, up to one request that was there
when they began. -/
structure Timed (hz : ℕ) (c : Clock) : Prop where
  pitHz : c.driver.pitHz = hz
  ticks : c.driver.pitTicks+c.pending.toNat ≤ c.requests
  call : c.driver.call ≠ .returned → ∃ counted, Counts (u32 (hz*c.ms)/1000) counted c.driver ∧
    c.made/c.reload+counted+c.pending.toNat ≤ c.requests+1
  waits : ∀ w ∈ c.waits, w.made/c.reload+u32 (hz*w.ms)/1000 ≤ w.back/c.reload+1

theorem started_timed (channel : Channel) (hz : ℕ) : Timed hz (started channel hz) where
  pitHz := rfl
  ticks := Nat.zero_le _
  call h := absurd rfl h
  waits _ hw := absurd hw List.not_mem_nil

theorem pitHz_goOn (s : State) : (goOn s).pitHz = s.pitHz ∧ (goOn s).pitTicks = s.pitTicks := by
  unfold goOn
  split
  · exact ⟨rfl,rfl⟩
  · split_ifs <;> exact ⟨rfl,rfl⟩
  · exact ⟨rfl,rfl⟩

theorem pending_le {requests later : ℕ} (hle : requests ≤ later) (pending : Bool) :
    (pending || requests != later).toNat+requests ≤ pending.toNat+later := by
  by_cases heq : requests = later
  · rw [bne_eq_false_iff_eq.mpr heq,Bool.or_false,heq]
  · have hone := Bool.toNat_le (pending || requests != later)
    omega

section Steps
variable {hz : ℕ} {c : Clock}

theorem Timed.cycles (h : Timed hz c) (n : ℕ) : Timed hz (c.step (.cycles n)).1 := by
  have hlater : c.requests ≤ (c.cycles+n)/c.reload := Nat.div_le_div_right (Nat.le_add_right _ _)
  have hpending := pending_le hlater c.pending
  refine ⟨h.pitHz,?_,fun hcall => ?_,h.waits⟩
  · have hticks := h.ticks
    show c.driver.pitTicks+(c.pending || c.requests != (c.cycles+n)/c.reload).toNat ≤ (c.cycles+n)/c.reload
    omega
  · obtain ⟨counted,hcounts,hseen⟩ := h.call hcall
    refine ⟨counted,hcounts,?_⟩
    show c.made/c.reload+counted+(c.pending || c.requests != (c.cycles+n)/c.reload).toNat ≤
      (c.cycles+n)/c.reload+1
    omega

theorem Timed.interrupt (h : Timed hz c) : Timed hz (c.step .interrupt).1 := by
  rw [Clock.step]
  split_ifs with hpending
  · have hticks := h.ticks
    rw [hpending] at hticks
    refine ⟨h.pitHz,?_,fun hcall => ?_,h.waits⟩
    · show u32 (c.driver.pitTicks+1)+0 ≤ c.requests
      change c.driver.pitTicks+1 ≤ c.requests at hticks
      unfold u32
      omega
    · obtain ⟨counted,hcounts,hseen⟩ := h.call hcall
      rw [hpending] at hseen
      exact ⟨counted+1,counts_pitHandler hcounts,hseen⟩
  · exact h

theorem Timed.sleep (h : Timed hz c) (ms : ℕ) : Timed hz (c.step (.sleep ms)).1 := by
  rw [Clock.step]
  split_ifs
  · have hone := Bool.toNat_le c.pending
    have hcounts : Counts (u32 (hz*ms)/1000) 0 (pitSleep c.driver.pitTicks c.driver.pitHz ms) := by
      rw [h.pitHz,Counts,pitSleep]
    exact ⟨h.pitHz,h.ticks,fun _ => ⟨0,hcounts,Nat.add_le_add_left hone c.requests⟩,h.waits⟩
  · exact h

theorem Timed.goOn (h : Timed hz c) : Timed hz (c.step .goOn).1 := by
  obtain ⟨hhz,hticks⟩ := pitHz_goOn c.driver
  have hkept : (Pit.goOn c.driver).pitTicks+c.pending.toNat ≤ c.requests := hticks ▸ h.ticks
  rw [Clock.step,Clock.goOn]
  by_cases hcall : c.driver.call = .returned
  · have hsame : Pit.goOn c.driver = c.driver := by simp only [Pit.goOn,hcall]
    rw [if_neg fun hends => hends.1 hcall,hsame]
    exact h
  obtain ⟨counted,hcounts,hseen⟩ := h.call hcall
  have hnext : Counts (u32 (hz*c.ms)/1000) counted (Pit.goOn c.driver) := counts_goOn hcounts
  split_ifs with hends
  · refine ⟨hhz.trans h.pitHz,hkept,fun hgoes => absurd hends.2 hgoes,fun w hw => ?_⟩
    rcases List.mem_cons.mp hw with rfl | hw
    · -- the ticks that the call waited for are among those that were counted
      rw [Counts,hends.2] at hnext
      change c.made/c.reload+u32 (hz*c.ms)/1000 ≤ c.requests+1
      change u32 (hz*c.ms)/1000 ≤ counted at hnext
      omega
    · exact h.waits w hw
  · exact ⟨hhz.trans h.pitHz,hkept,fun _ => ⟨counted,hnext,hseen⟩,h.waits⟩

theorem Timed.step (h : Timed hz c) (e : Event) : Timed hz (c.step e).1 := by
  cases e with
  | cycles n => exact h.cycles n
  | interrupt => exact h.interrupt
  | sleep ms => exact h.sleep ms
  | goOn => exact h.goOn

theorem reload_step (c : Clock) (e : Event) : (c.step e).1.reload = c.reload := by
  cases e <;> simp only [Clock.step,Clock.goOn] <;> (try split_ifs) <;> rfl

/-- Every request has been counted or waits, up to the wraps of the counter. -/
def Exact (c : Clock) : Prop := ((c.driver.pitTicks : ℤ)+c.pending.toNat-c.requests)%2^32 = 0

theorem Exact.step (h : Exact c) {e : Event} (he : Kept c e) : Exact (c.step e).1 := by
  unfold Exact at h ⊢
  cases e with
  | cycles n =>
    have hlater : c.requests ≤ (c.cycles+n)/c.reload := Nat.div_le_div_right (Nat.le_add_right _ _)
    have hnoted : (c.pending || c.requests != (c.cycles+n)/c.reload).toNat+c.requests =
        c.pending.toNat+(c.cycles+n)/c.reload := by
      change (c.cycles+n)/c.reload+c.pending.toNat ≤ c.requests+1 at he
      generalize (c.cycles+n)/c.reload = later at hlater he ⊢
      by_cases heq : c.requests = later
      · rw [bne_eq_false_iff_eq.mpr heq,Bool.or_false,heq]
      · -- none waits, and it is the next one
        rw [(bne_iff_ne.mpr heq : (c.requests != later) = true),Bool.or_true]
        have hone : (true : Bool).toNat = 1 := rfl
        omega
    change ((c.driver.pitTicks : ℤ)+(c.pending || c.requests != (c.cycles+n)/c.reload).toNat-
      ((c.cycles+n)/c.reload : ℕ))%2^32 = 0
    omega
  | interrupt =>
    rw [Clock.step]
    split_ifs with hpending
    · rw [hpending] at h
      change ((u32 (c.driver.pitTicks+1) : ℤ)+(0 : ℕ)-c.requests)%2^32 = 0
      change ((c.driver.pitTicks : ℤ)+(1 : ℕ)-c.requests)%2^32 = 0 at h
      unfold u32
      omega
    · exact h
  | sleep ms =>
    rw [Clock.step]
    split_ifs <;> exact h
  | goOn =>
    have hticks := (pitHz_goOn c.driver).2
    rw [Clock.step,Clock.goOn]
    split_ifs
    · change (((Pit.goOn c.driver).pitTicks : ℤ)+c.pending.toNat-c.requests)%2^32 = 0
      rw [hticks]
      exact h
    · change (((Pit.goOn c.driver).pitTicks : ℤ)+c.pending.toNat-c.requests)%2^32 = 0
      rw [hticks]
      exact h

end Steps

theorem after_reload (c : Clock) (events : List Event) : (c.after events).reload = c.reload :=
  Runs.exec_invariant Clock.step (fun c' => c'.reload = c.reload)
    (fun c' e h => (reload_step c' e).trans h) rfl events

theorem after_timed (channel : Channel) (hz : ℕ) (events : List Event) :
    Timed hz ((started channel hz).after events) :=
  Runs.exec_invariant Clock.step (Timed hz) (fun _ e h => h.step e) (started_timed channel hz) events

theorem after_exact (channel : Channel) (hz : ℕ) {events : List Event}
    (hkept : Runs.EveryStep (fun pre e => Kept ((started channel hz).after pre) e) events) :
    Exact ((started channel hz).after events) := by
  induction events using List.reverseRecOn with
  | nil => simp [Exact,Clock.after,started,Clock.requests]
  | append_singleton events e ih =>
    obtain ⟨hbefore,hlast⟩ := (Runs.everyStep_concat _ _ _).mp hkept
    rw [Clock.after,Runs.exec_concat]
    exact (ih hbefore).step hlast

theorem periods_span {period made back ticks : ℕ} (hperiod : 0 < period)
    (h : made/period+ticks ≤ back/period+1) : ticks*period+made < back+2*period := by
  have hmade := Nat.lt_div_mul_add hperiod (a := made)
  have hback := Nat.div_mul_le_self back period
  have hmul := Nat.mul_le_mul_right period h
  rw [Nat.add_mul,Nat.add_mul,Nat.one_mul] at hmul
  omega

/-- However the timer, its interrupts and the calls of `pit_sleep` follow each other: the ticks
never run ahead of the timer, and are exact as long as no request comes while another one
waits; and a call waits for its ticks less the parts of a first and a last one. -/
theorem ticks_timed (channel : Channel) {hz : ℕ} (hlow : 19 ≤ hz) (hhigh : hz ≤ pitBaseFreq)
    (events : List Event) :
    let c := (started channel hz).after events
    c.driver.pitTicks+c.pending.toNat ≤ c.cycles/(pitBaseFreq/hz) ∧
    (Runs.EveryStep (fun pre e => Kept ((started channel hz).after pre) e) events →
      ((c.driver.pitTicks : ℤ)+c.pending.toNat-(c.cycles/(pitBaseFreq/hz) : ℕ))%2^32 = 0) ∧
    ∀ w ∈ c.waits, hz*w.ms < 2^32 →
      hz*w.ms/1000*(pitBaseFreq/hz)+w.made < w.back+2*(pitBaseFreq/hz) := by
  intro c
  have hreload : c.reload = pitBaseFreq/hz :=
    (after_reload (started channel hz) events).trans (pitInit_reload channel hlow hhigh)
  have htimed : Timed hz c := after_timed channel hz events
  refine ⟨?_,fun hkept => ?_,fun w hw hms => ?_⟩
  · rw [← hreload]
    exact htimed.ticks
  · rw [← hreload]
    exact after_exact channel hz hkept
  · have hwait := htimed.waits w hw
    have hproduct : u32 ((hz : ℤ)*w.ms) = hz*w.ms := by
      unfold u32
      omega
    rw [hproduct,hreload] at hwait
    exact periods_span (Nat.div_pos hhigh (by omega)) hwait

/-- A request that waits when the call is made may end a wait of one tick at once. -/
example : ((started ⟨none,0⟩ 1000).after [.cycles 1193,.sleep 1,.goOn,.interrupt,.goOn]).waits =
    [⟨1,1193,1193⟩] := by decide

/-- Three milliseconds at the rate that `kmain` asks for. -/
def threeTicks : List Event :=
  [.sleep 3,.goOn,.cycles 1193,.interrupt,.goOn,.cycles 1193,.interrupt,.cycles 1193,.interrupt,.goOn]

theorem ticks_timed_kmain : ((started ⟨none,0⟩ 1000).after threeTicks).waits = [⟨3,0,3579⟩] ∧
    1000*3/1000*(pitBaseFreq/1000)+0 < 3579+2*(pitBaseFreq/1000) :=
  ⟨by decide,
    (ticks_timed ⟨none,0⟩ (by decide) (by decide) threeTicks).2.2 ⟨3,0,3579⟩ (by decide) (by decide)⟩

end Pit
end ValiantCore
