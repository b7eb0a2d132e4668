import ValiantCore.Rtl8111
import Mathlib.Data.List.Count

/-! What `tx_packets` counts. `rtl8111_send` counts its packet when it sees the end of the
transmission, and `rtl8111_irq_handler` counts every TOK that it reads. -/
namespace ValiantCore
namespace Rtl8111

def hands (s : State) : Op → Bool
  | .send _ len => s.handler.isNone && s.call == .idle && s.rtlBase != 0 && s.cableStatus &&
      len ≤ txBufSize
  | _ => false

/-- The step is a reading of the transmit status that shows the end in time. -/
def sendCounts (s : State) : Op → Bool
  | .goOn =>
    match s.handler,s.call with
    | none,.poll timeout => timeout ≠ 0 && s.txStatus &&& txDone ≠ 0
    | _,_ => false
  | _ => false

/-- The step is the last reading of a call that times out. -/
def timesOut (s : State) : Op → Bool
  | .goOn =>
    match s.handler,s.call with
    | none,.poll timeout => timeout = 0
    | _,_ => false
  | _ => false

/-- The step is the end of a handler that has read TOK. -/
def handlerCounts (s : State) : Op → Bool
  | .irqGoOn =>
    match s.handler with
    | some isr => isr &&& rtlIsrTok ≠ 0
    | none => false
  | _ => false

def number (kind : State → Op → Bool) (s : State) (ops : List Op) : ℕ :=
  (Runs.trace step s ops).countP fun e => kind e.before e.op

def waiting (s : State) : ℕ :=
  match s.call with
  | .poll _ => 1
  | _ => 0

theorem number_concat (kind : State → Op → Bool) (s : State) (ops : List Op) (op : Op) :
    number kind s (ops++[op]) = number kind s ops+(kind (after s ops) op).toNat := by
  rw [number,Runs.trace_concat,List.countP_append,List.countP_singleton]
  cases h : kind (after s ops) op <;> simp [number,after] at h ⊢ <;> simp [h]

theorem goOn_poll {s : State} {timeout : ℕ} (hhandler : s.handler = none)
    (hcall : s.call = .poll timeout) : step s .goOn = sendPoll s timeout := by
  simp [step,hhandler,goOn,hcall]

theorem waiting_step (s : State) (op : Op) :
    waiting s+(hands s op).toNat =
      waiting (step s op).1+(sendCounts s op).toNat+(timesOut s op).toNat := by
  cases op with
  | send data len =>
    cases hhandler : s.handler <;> cases hcall : s.call <;>
      simp [step,hands,sendCounts,timesOut,waiting,hhandler,hcall]
    simp only [send]
    split_ifs <;> simp_all
  | goOn =>
    cases hhandler : s.handler with
    | some isr => simp [step,hands,sendCounts,timesOut,hhandler]
    | none =>
      cases hcall : s.call with
      | poll timeout =>
        rw [goOn_poll hhandler hcall]
        by_cases hdone : s.txStatus &&& txDone = 0#32 <;> by_cases hlast : timeout = 0 <;>
          simp [sendPoll,hands,sendCounts,timesOut,waiting,hhandler,hcall,hdone,hlast]
      | _ =>
        simp only [step,hands,sendCounts,timesOut,hhandler,hcall,goOn,receiveCopy,
          receiveAcknowledge,waiting]
        split_ifs <;> simp_all
  | irqGoOn =>
    cases hhandler : s.handler <;>
      simp [step,hands,sendCounts,timesOut,irqAcknowledge,hhandler,waiting]
  | arrive rxBufPtr rxBuf => rfl
  | transmitStatus txStatus => rfl
  | cable link => rfl
  | _ =>
    simp only [step,receive,irqHandler,hands,sendCounts,timesOut,waiting]
    split_ifs <;> simp_all

theorem txPackets_step (s : State) (op : Op) :
    (step s op).1.txPackets =
      if sendCounts s op || handlerCounts s op then u32 (s.txPackets+1) else s.txPackets := by
  cases op with
  | goOn =>
    cases hhandler : s.handler with
    | some isr => simp [step,sendCounts,handlerCounts,hhandler]
    | none =>
      cases hcall : s.call with
      | poll timeout =>
        rw [goOn_poll hhandler hcall]
        by_cases hdone : s.txStatus &&& txDone = 0#32 <;> by_cases hlast : timeout = 0 <;>
          simp [sendPoll,sendCounts,handlerCounts,hhandler,hcall,hdone,hlast]
      | _ =>
        simp only [step,sendCounts,handlerCounts,hhandler,hcall,goOn,receiveCopy,
          receiveAcknowledge]
        split_ifs <;> simp_all
  | irqGoOn =>
    cases hhandler : s.handler with
    | none => simp [step,sendCounts,handlerCounts,hhandler]
    | some isr =>
      by_cases htok : isr &&& rtlIsrTok = 0#16 <;>
        simp [step,sendCounts,handlerCounts,hhandler,irqAcknowledge,htok]
  | arrive rxBufPtr rxBuf => rfl
  | transmitStatus txStatus => rfl
  | cable link => rfl
  | _ =>
    simp only [step,receive,send,irqHandler,sendCounts,handlerCounts]
    split_ifs <;> simp_all

theorem counts_apart (s : State) (op : Op) :
    ¬ (sendCounts s op = true ∧ handlerCounts s op = true) := by
  cases op <;> simp [sendCounts,handlerCounts]

theorem counts_hands_apart {s : State} {op : Op} (h : (sendCounts s op || handlerCounts s op) = true) :
    hands s op = false := by
  cases op <;> simp_all [sendCounts,handlerCounts,hands]

theorem waiting_le_one (s : State) : waiting s ≤ 1 := by
  unfold waiting
  split <;> omega

/-- What the counter and the packets are after a run, by the steps taken in it. -/
structure Books (s : State) (ops : List Op) : Prop where
  txPackets : (after s ops).txPackets = (number sendCounts s ops+number handlerCounts s ops) % 2^32
  handed : number hands s ops =
    number sendCounts s ops+number timesOut s ops+waiting (after s ops)

theorem books (rtlBase : ℕ) (link : Bool) (ops : List Op) : Books (boot rtlBase link) ops := by
  induction ops using List.reverseRecOn with
  | nil => exact ⟨rfl,rfl⟩
  | append_singleton ops op ih =>
    have hwaiting := waiting_step (after (boot rtlBase link) ops) op
    have hcounter := txPackets_step (after (boot rtlBase link) ops) op
    have hapart := counts_apart (after (boot rtlBase link) ops) op
    obtain ⟨htx,hhanded⟩ := ih
    refine ⟨?_,?_⟩
    · rw [after_concat,hcounter,number_concat,number_concat,htx]
      cases hsend : sendCounts (after (boot rtlBase link) ops) op <;>
        cases hhandler : handlerCounts (after (boot rtlBase link) ops) op <;>
        simp_all [u32]
      all_goals omega
    · rw [after_concat]
      simp only [number_concat]
      omega

/-- A step that counts a packet too many: a handler that has read TOK, when it has already
counted as many packets as calls have timed out or wait; or a call that sees the end of its
transmission, when the handler has counted more packets than calls have timed out. When
2^32-1 packets have been handed over, no step of the counter goes beyond their number. -/
def CountsTwice (s : State) (pre : List Op) (op : Op) : Prop :=
  number hands s pre+1 < 2^32 ∧
    (handlerCounts (after s pre) op = true ∧
        number timesOut s pre+waiting (after s pre) ≤ number handlerCounts s pre ∨
      sendCounts (after s pre) op = true ∧ number timesOut s pre < number handlerCounts s pre)

def Bounded (s : State) (ops : List Op) : Prop := (after s ops).txPackets ≤ number hands s ops

/-- As many counts as packets at most, or so many packets that the counter cannot exceed them. -/
def Covered (s : State) (ops : List Op) : Prop :=
  number sendCounts s ops+number handlerCounts s ops ≤ number hands s ops ∨
    2^32 ≤ number hands s ops+1

section Run
variable {s : State} {ops : List Op} {op : Op}

theorem Covered.bounded (h : Covered s ops) (hbooks : Books s ops) : Bounded s ops := by
  unfold Bounded
  rw [hbooks.txPackets]
  have hmod := Nat.mod_le (number sendCounts s ops+number handlerCounts s ops) (2^32)
  have hlt := Nat.mod_lt (number sendCounts s ops+number handlerCounts s ops)
    (show 0 < 2^32 by decide)
  rcases h with h | h
  · exact hmod.trans h
  · omega

theorem Covered.concat (h : Covered s ops) (hbooks : Books s ops) (hop : ¬ CountsTwice s ops op) :
    Covered s (ops++[op]) := by
  have hwaiting := waiting_step (after s ops) op
  have hhanded := hbooks.handed
  unfold Covered at *
  simp only [number_concat]
  rcases Nat.lt_or_ge (number hands s ops+1) (2^32) with hfew | hmany
  · left
    by_cases hhandler : handlerCounts (after s ops) op = true
    · -- the handler counts a packet that its own call has not counted
      have hsend := Bool.eq_false_iff.mpr fun hsend => counts_apart _ _ ⟨hsend,hhandler⟩
      have hslack : number handlerCounts s ops < number timesOut s ops+waiting (after s ops) :=
        not_le.mp fun hle => hop ⟨hfew,Or.inl ⟨hhandler,hle⟩⟩
      rw [hhandler,hsend,Bool.toNat_true,Bool.toNat_false]
      omega
    · rw [Bool.not_eq_true] at hhandler
      by_cases hsend : sendCounts (after s ops) op = true
      · -- the call that counts is the one that waits
        have hhands := counts_hands_apart (s := after s ops) (by rw [hsend,Bool.true_or])
        have hslack : number handlerCounts s ops ≤ number timesOut s ops :=
          not_lt.mp fun hlt => hop ⟨hfew,Or.inr ⟨hsend,hlt⟩⟩
        rw [hsend,hhands,Bool.toNat_true,Bool.toNat_false] at hwaiting
        rw [hhandler,hsend,hhands,Bool.toNat_true,Bool.toNat_false]
        omega
      · rw [Bool.not_eq_true] at hsend
        rw [hhandler,hsend,Bool.toNat_false]
        omega
  · right
    omega

/-- A step that counts a packet too many takes the counter from the number of packets to the
next one. -/
theorem not_countsTwice (h : Covered s ops) (hbooks : Books s ops) (hnext : Books s (ops++[op]))
    (hbounded : Bounded s (ops++[op])) : ¬ CountsTwice s ops op := by
  rintro ⟨hfew,hcounts⟩
  have hhanded := hbooks.handed
  have hone := waiting_le_one (after s ops)
  have hcovered : number sendCounts s ops+number handlerCounts s ops ≤ number hands s ops :=
    h.resolve_right (not_le.mpr hfew)
  have hstep : (sendCounts (after s ops) op).toNat+(handlerCounts (after s ops) op).toNat = 1 ∧
      hands (after s ops) op = false := by
    rcases hcounts with ⟨hhandler,-⟩ | ⟨hsend,-⟩
    · have hsend := Bool.eq_false_iff.mpr fun hsend => counts_apart _ _ ⟨hsend,hhandler⟩
      exact ⟨by rw [hsend,hhandler]; rfl,counts_hands_apart (by rw [hhandler,Bool.or_true])⟩
    · have hhandler := Bool.eq_false_iff.mpr fun hhandler => counts_apart _ _ ⟨hsend,hhandler⟩
      exact ⟨by rw [hsend,hhandler]; rfl,counts_hands_apart (by rw [hsend,Bool.true_or])⟩
  have hfull : number sendCounts s ops+number handlerCounts s ops = number hands s ops := by
    rcases hcounts with ⟨-,hle⟩ | ⟨-,hlt⟩ <;> omega
  unfold Bounded at hbounded
  rw [hnext.txPackets] at hbounded
  simp only [number_concat,hstep.2,Bool.toNat_false] at hbounded
  rw [Nat.mod_eq_of_lt (by omega)] at hbounded
  omega

end Run

/-- The counter stays within the packets handed over exactly when no step of the run counts
a packet too many. -/
theorem tx_bounded_iff (rtlBase : ℕ) (link : Bool) (ops : List Op) :
    Runs.Always (Bounded (boot rtlBase link)) ops ↔
      Runs.EveryStep (fun pre op => ¬ CountsTwice (boot rtlBase link) pre op) ops := by
  apply Runs.always_iff_everyStep (R := Covered (boot rtlBase link))
  · exact Or.inl le_rfl
  · exact fun pre op h hop => h.concat (books rtlBase link pre) hop
  · exact fun pre h => h.bounded (books rtlBase link pre)
  · exact fun pre op h hnext => not_countsTwice h (books rtlBase link pre) (books rtlBase link _) hnext

/-- One packet is sent: its call sees the end of the transmission, and the handler reads TOK. -/
theorem packet_counted_twice :
    ¬ Runs.Always (Bounded (boot 0xC000 true))
      [.send (fun _ => 0) 60,.finish,.transmitStatus 0x8000,.goOn,.irqHandler,.irqGoOn] := by
  intro h
  exact absurd (h _ (List.prefix_refl _)) (by unfold Bounded; decide +kernel)

end Rtl8111
end ValiantCore
