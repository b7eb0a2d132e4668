import ValiantCore.Rtl8111Transmit

/-! What the result of `rtl8111_send` says of its transmission. The counter of the polling
loop goes down after it is tested, so that the loop reads the transmit status once more
when the counter is 0, and what it then reads makes no difference. -/
namespace ValiantCore
namespace Rtl8111

/-- A reading of the transmit status shows the end of the transmission. -/
def shows (s : State) : Bool := decide (s.txStatus &&& txDone ≠ 0)

def Polls (s : State) (op : Op) : Prop := op = .goOn ∧ s.handler = none ∧ ∃ timeout, s.call = .poll timeout

/-- What the readings since the last packet was handed over have shown. -/
def recordPoll (polls : List Bool) (e : Event) : List Bool :=
  match e.op with
  | .send _ _ => if e.out = .running then [] else polls
  | .goOn =>
    match e.before.handler,e.before.call with
    | none,.poll _ => polls++[shows e.before]
    | _,_ => polls
  | _ => polls

def polls (s : State) (ops : List Op) : List Bool := (Runs.trace step s ops).foldl recordPoll []

/-- The result `r` of the call that has made the readings `polls` is their truth, and a
packet whose transmission has ended is counted. -/
structure Truthful (polls : List Bool) (before after : State) (r : ℤ) : Prop where
  sent : r = 0 ↔ true ∈ polls
  failed : r = -1 ↔ ∀ p ∈ polls, p = false
  counted : r = 0 → after.txPackets = u32 (before.txPackets+1)

/-- If the step ends a call of `rtl8111_send` that has handed its packet over, the result
is truthful. -/
def Reports (s : State) (pre : List Op) (op : Op) : Prop :=
  Polls (after s pre) op → ∀ r packet, (step (after s pre) op).2 = .returned r packet →
    Truthful (polls s (pre++[op])) (after s pre) (after s (pre++[op])) r

/-- The call has read the status 100000 times, never with the end of the transmission,
and the next reading shows it. -/
def EndsLate (s : State) (pre : List Op) (op : Op) : Prop :=
  Polls (after s pre) op ∧ polls s pre = List.replicate 100000 false ∧ shows (after s pre) = true

section Run
variable {s : State} {ops : List Op} {op : Op}

theorem polls_concat (s : State) (ops : List Op) (op : Op) :
    polls s (ops++[op]) = recordPoll (polls s ops) ⟨after s ops,op,(step (after s ops) op).2⟩ := by
  rw [polls,Runs.trace_concat,List.foldl_append]
  rfl

theorem polls_goOn {timeout : ℕ} (hhandler : (after s ops).handler = none)
    (hcall : (after s ops).call = .poll timeout) :
    polls s (ops++[.goOn]) = polls s ops++[shows (after s ops)] := by
  simp [polls_concat,recordPoll,hhandler,hcall]

/-- As long as the call waits, its readings have not shown the end, and their number is
what the counter has gone down by. -/
def Waits (s : State) (ops : List Op) : Prop :=
  ∀ timeout, (after s ops).call = .poll timeout →
    ∃ n, n+timeout = 100000 ∧ polls s ops = List.replicate n false

theorem sendPoll_shows (s : State) (timeout : ℕ) :
    sendPoll s timeout =
      if shows s then
        if timeout = 0 then ({ s with call := .idle },.returned (-1) [])
        else ({ s with txPackets := u32 (s.txPackets+1), call := .idle },.returned 0 [])
      else if timeout = 0 then ({ s with call := .idle },.returned (-1) [])
      else ({ s with call := .poll (timeout-1) },.running) := by
  by_cases h : s.txStatus &&& txDone = 0#32
  · simp [sendPoll,shows,h]
  · simp [sendPoll,shows,h]

theorem call_step (hop : ¬ Polls s op) {timeout : ℕ} (hcall : (step s op).1.call = .poll timeout) :
    ((∀ polls, recordPoll polls ⟨s,op,(step s op).2⟩ = []) ∧ timeout = 100000) ∨
    ((∀ polls, recordPoll polls ⟨s,op,(step s op).2⟩ = polls) ∧ s.call = .poll timeout) := by
  cases op with
  | receive =>
    refine Or.inr ⟨fun _ => rfl,?_⟩
    by_cases hready : s.handler.isNone ∧ s.call = .idle
    · simp only [step,if_pos hready,receive] at hcall
      split_ifs at hcall
      · exact hcall
      · exact hcall
    · simpa only [step,if_neg hready] using hcall
  | send data len =>
    by_cases hready : s.handler.isNone ∧ s.call = .idle
    · have hstep : step s (.send data len) = send s data len := if_pos hready
      rw [hstep] at hcall ⊢
      unfold send at hcall ⊢
      split_ifs at hcall ⊢
      · exact Or.inr ⟨fun _ => rfl,hcall⟩
      · exact Or.inr ⟨fun _ => rfl,hcall⟩
      · exact Or.inr ⟨fun _ => rfl,hcall⟩
      · exact Or.inl ⟨fun _ => rfl,(Call.poll.inj hcall).symm⟩
    · have hstep : step s (.send data len) = (s,.disabled) := if_neg hready
      rw [hstep] at hcall ⊢
      exact Or.inr ⟨fun _ => rfl,hcall⟩
  | goOn =>
    cases hhandler : s.handler with
    | some isr =>
      have hstep : step s .goOn = (s,.disabled) := by simp [step,hhandler]
      rw [hstep] at hcall
      exact Or.inr ⟨fun _ => by simp [recordPoll,hhandler],hcall⟩
    | none =>
      have hstep : step s .goOn = goOn s := by simp [step,hhandler]
      rw [hstep] at hcall
      cases hold : s.call with
      | poll t => exact absurd ⟨rfl,hhandler,t,hold⟩ hop
      | idle => simp [goOn,hold] at hcall
      | acknowledge => simp [goOn,hold,receiveAcknowledge] at hcall
      | copy =>
        simp only [goOn,hold,receiveCopy] at hcall
        split_ifs at hcall
  | irqHandler =>
    refine Or.inr ⟨fun _ => rfl,?_⟩
    simp only [step,irqHandler] at hcall
    split_ifs at hcall <;> exact hcall
  | irqGoOn =>
    refine Or.inr ⟨fun _ => rfl,?_⟩
    cases hhandler : s.handler with
    | none => simpa [step,hhandler] using hcall
    | some isr => simpa [step,hhandler,irqAcknowledge] using hcall
  | finish =>
    refine Or.inr ⟨fun _ => rfl,?_⟩
    simp only [step] at hcall
    split_ifs at hcall <;> exact hcall
  | _ => exact Or.inr ⟨fun _ => rfl,hcall⟩

theorem Waits.concat (h : Waits s ops) (op : Op) : Waits s (ops++[op]) := by
  intro timeout hcall
  rw [after_concat] at hcall
  by_cases hop : Polls (after s ops) op
  · obtain ⟨rfl,hhandler,t,hold⟩ := hop
    obtain ⟨n,hn,hpolls⟩ := h t hold
    rw [goOn_poll hhandler hold,sendPoll_shows] at hcall
    split_ifs at hcall with hshows htimeout
    have ht : t-1 = timeout := Call.poll.inj hcall
    rw [polls_goOn hhandler hold,hpolls,Bool.eq_false_iff.mpr hshows,← List.replicate_succ']
    exact ⟨n+1,by omega,rfl⟩
  · rcases call_step hop hcall with ⟨hnew,rfl⟩ | ⟨hsame,hold⟩
    · exact ⟨0,rfl,by rw [polls_concat,hnew]; rfl⟩
    · obtain ⟨n,hn,hpolls⟩ := h timeout hold
      exact ⟨n,hn,by rw [polls_concat,hsame,hpolls]⟩

theorem waits_boot (rtlBase : ℕ) (link : Bool) (ops : List Op) : Waits (boot rtlBase link) ops := by
  induction ops using List.reverseRecOn with
  | nil => exact fun timeout hcall => Call.noConfusion hcall
  | append_singleton ops op ih => exact ih.concat op

/-- A reading ends its call with the truth just if the end does not show in the reading
that comes when the counter is used up. -/
theorem reports_iff (h : Waits s ops) (op : Op) : Reports s ops op ↔ ¬ EndsLate s ops op := by
  by_cases hop : Polls (after s ops) op
  · obtain ⟨rfl,hhandler,t,hcall⟩ := hop
    obtain ⟨n,hn,hpolls⟩ := h t hcall
    have hall : polls s (ops++[.goOn]) = List.replicate n false++[shows (after s ops)] := by
      rw [polls_goOn hhandler hcall,hpolls]
    have hpoll : Polls (after s ops) .goOn := ⟨rfl,hhandler,t,hcall⟩
    have hlate : EndsLate s ops .goOn ↔ t = 0 ∧ shows (after s ops) = true := by
      rw [EndsLate,hpolls,List.replicate_left_inj]
      constructor
      · exact fun ⟨_,hfull,hshows⟩ => ⟨by omega,hshows⟩
      · exact fun ⟨ht,hshows⟩ => ⟨hpoll,by omega,hshows⟩
    rw [hlate,Reports,hall,after_concat,goOn_poll hhandler hcall,sendPoll_shows]
    cases hshows : shows (after s ops) with
    | true =>
      by_cases ht : t = 0
      · refine iff_of_false (fun hreports => ?_) (fun hnot => hnot ⟨ht,rfl⟩)
        have htruth := hreports hpoll (-1) [] (by simp [ht])
        exact absurd (htruth.failed.mp rfl true (by simp)) (by decide)
      · refine iff_of_true (fun _ r packet hret => ?_) (fun hnot => ht hnot.1)
        simp only [if_true,ht,if_false,Out.returned.injEq] at hret ⊢
        obtain ⟨rfl,-⟩ := hret
        exact ⟨by simp,by simp,fun _ => rfl⟩
    | false =>
      refine iff_of_true (fun _ r packet hret => ?_) (fun hnot => Bool.noConfusion hnot.2)
      by_cases ht : t = 0
      · simp only [Bool.false_eq_true,ht,if_false,if_true,Out.returned.injEq] at hret ⊢
        obtain ⟨rfl,-⟩ := hret
        exact ⟨by simp,by simp,fun hr => absurd hr (by decide)⟩
      · simp [ht] at hret
  · exact iff_of_true (fun hpoll => absurd hpoll hop) (fun hlate => hop hlate.1)

end Run

/-- In every run, with any device trace and any interrupts, the results of `rtl8111_send`
are truthful just if no transmission first shows its end in the reading 100001; and no
call makes more readings than that. -/
theorem send_truthful_iff (rtlBase : ℕ) (link : Bool) (ops : List Op) :
    (Runs.EveryStep (Reports (boot rtlBase link)) ops ↔
      Runs.EveryStep (fun pre op => ¬ EndsLate (boot rtlBase link) pre op) ops) ∧
    ∀ timeout, (after (boot rtlBase link) ops).call = .poll timeout →
      (polls (boot rtlBase link) ops).length ≤ 100000 := by
  constructor
  · have hstep := fun pre op => reports_iff (waits_boot rtlBase link pre) op
    exact ⟨fun h pre op hpre => (hstep pre op).mp (h pre op hpre),
      fun h pre op hpre => (hstep pre op).mpr (h pre op hpre)⟩
  · intro timeout hcall
    obtain ⟨n,hn,hpolls⟩ := waits_boot rtlBase link ops timeout hcall
    rw [hpolls,List.length_replicate]
    omega

/-- A packet is handed over, and its call reads the status `k` times. -/
def waitFor (k : ℕ) : List Op := .send (fun _ => 0) 60::List.replicate k .goOn

theorem waitFor_after {k : ℕ} (hk : k ≤ 100000) :
    let s := after (boot 0xC000 true) (waitFor k)
    s.handler = none ∧ s.call = .poll (100000-k) ∧ s.txStatus = 60#32 := by
  induction k with
  | zero => exact ⟨rfl,rfl,rfl⟩
  | succ k ih =>
    obtain ⟨hhandler,hcall,hstatus⟩ := ih (by omega)
    have hsnoc : waitFor (k+1) = waitFor k++[.goOn] := by
      rw [waitFor,List.replicate_succ']
      rfl
    have hshows : shows (after (boot 0xC000 true) (waitFor k)) = false := by
      rw [shows,hstatus]
      decide
    have hmore : 100000-k ≠ 0 := by omega
    simp only [hsnoc,after_concat,goOn_poll hhandler hcall,sendPoll_shows,hshows,Bool.false_eq_true,
      if_false,hmore]
    exact ⟨hhandler,congrArg Call.poll (by omega),hstatus⟩

theorem transmitStatus_after (s : State) (ops : List Op) (txStatus : BitVec 32) :
    let t := after s (ops++[.transmitStatus txStatus])
    t.handler = (after s ops).handler ∧ t.call = (after s ops).call ∧ t.txStatus = txStatus := by
  rw [after_concat]
  exact ⟨rfl,rfl,rfl⟩

/-- The transmission ends behind the reading 100000: the next one shows it, and the result
is -1. -/
theorem late_end_not_reported :
    ¬ Runs.EveryStep (Reports (boot 0xC000 true)) (waitFor 100000++[.transmitStatus 0x8000]++[.goOn]) := by
  intro h
  obtain ⟨hhandler,hcall,-⟩ := waitFor_after le_rfl
  have hlast := transmitStatus_after (boot 0xC000 true) (waitFor 100000) 0x8000
  rw [← hlast.2.1] at hcall
  rw [← hlast.1] at hhandler
  have hwaits := waits_boot 0xC000 true (waitFor 100000++[.transmitStatus 0x8000])
  obtain ⟨n,hn,hpolls⟩ := hwaits 0 hcall
  have hlate := (reports_iff hwaits .goOn).mp (h _ .goOn (List.prefix_refl _))
  refine hlate ⟨⟨rfl,hhandler,0,hcall⟩,?_,?_⟩
  · rwa [show n = 100000 from hn] at hpolls
  · rw [shows,hlast.2.2]
    decide

end Rtl8111
end ValiantCore
