import ValiantCore.Bytes
import ValiantCore.Runs
import Mathlib.Tactic.SplitIfs

/-! The network driver `drivers/ethernet/realtek/rtl8111.c` after its initialization. The
functions `rtl8111_send` and `rtl8111_receive` go on from one access of a register to the
next; the device takes its own steps in between, and so does `rtl8111_irq_handler`, which
the two functions do not interrupt. -/
namespace ValiantCore
namespace Rtl8111

def rtlIsrRok : BitVec 16 := 0x0001
def rtlIsrTok : BitVec 16 := 0x0004
def rtlIsrCable : BitVec 16 := 0x2000
def txDone : BitVec 32 := 0x8000
def rxBufSize : ℕ := 65536
def txBufSize : ℕ := 1536

/-- What is left of the call that the main program is in: `rtl8111_receive` before it
acknowledges, and before it copies, or `rtl8111_send` with its `timeout`. -/
inductive Call
  | idle
  | acknowledge
  | copy
  | poll (timeout : ℕ)
  deriving DecidableEq, Repr

/-- The registers of the device with the packets it still transmits, the static variables
of the driver, and the calls that are under way; a handler that is under way comes with
the interrupt status it has read. `rxBuf` is the memory from `rx_buf` on. -/
structure State where
  isr : BitVec 16
  txStatus : BitVec 32
  link : Bool
  rxBufPtr : UInt16
  rxBuf : ℕ → UInt8
  inFlight : ℕ
  rtlBase : ℕ
  cableStatus : Bool
  rxPackets : ℕ
  rxErrors : ℕ
  txPackets : ℕ
  txBuf : ℕ → UInt8
  call : Call
  handler : Option (BitVec 16)

/-- The driver as `rtl8111_init` leaves it. -/
def boot (rtlBase : ℕ) (link : Bool) : State where
  isr := 0
  txStatus := 0
  link := link
  rxBufPtr := 0
  rxBuf _ := 0
  inFlight := 0
  rtlBase := rtlBase
  cableStatus := link
  rxPackets := 0
  rxErrors := 0
  txPackets := 0
  txBuf _ := 0
  call := .idle
  handler := none

/-- What a step gives: it cannot be taken now, it leaves its call under way, or the call
returns, `rtl8111_receive` with the bytes it has stored. -/
inductive Out
  | disabled
  | running
  | returned (ret : ℤ) (packet : List UInt8)
  deriving DecidableEq, Repr

/-- The reading of the interrupt status. -/
def receive (s : State) : State × Out :=
  if s.rtlBase = 0 then (s,.returned (-1) [])
  else if s.isr &&& rtlIsrRok = 0 then (s,.returned 0 [])
  else ({ s with call := .acknowledge },.running)

/-- Writing a bit of the interrupt status clears it. -/
def receiveAcknowledge (s : State) : State × Out :=
  ({ s with isr := s.isr &&& ~~~rtlIsrRok, call := .copy },.running)

/-- `pkt_len`, two bytes behind the place of the packet. -/
def pktLen (s : State) : ℕ :=
  (s.rxBuf (s.rxBufPtr.toNat+2)).toNat+(s.rxBuf (s.rxBufPtr.toNat+3)).toNat*2^8

def receiveCopy (s : State) : State × Out :=
  if pktLen s > rxBufSize then
    ({ s with rxErrors := u32 (s.rxErrors+1), call := .idle },.returned (-1) [])
  else
    ({ s with rxPackets := u32 (s.rxPackets+1), call := .idle },
      .returned 1 ((List.range (pktLen s)).map fun i => s.rxBuf (s.rxBufPtr.toNat+4+i)))

def send (s : State) (data : ℕ → UInt8) (len : ℕ) : State × Out :=
  if s.rtlBase = 0 then (s,.returned (-1) [])
  else if !s.cableStatus then (s,.returned (-1) [])
  else if len > txBufSize then (s,.returned (-1) [])
  else
    ({ s with
      txBuf := fun i => if i < len then data i else s.txBuf i
      txStatus := BitVec.ofNat 32 len
      inFlight := s.inFlight+1
      call := .poll 100000 },.running)

/-- One reading of the transmit status. The counter goes down after it is tested, so the
loop is left with 0 where the last reading succeeds, and with -1 where it does not. -/
def sendPoll (s : State) (timeout : ℕ) : State × Out :=
  if s.txStatus &&& txDone ≠ 0 then
    if timeout = 0 then ({ s with call := .idle },.returned (-1) [])
    else ({ s with txPackets := u32 (s.txPackets+1), call := .idle },.returned 0 [])
  else if timeout = 0 then ({ s with call := .idle },.returned (-1) [])
  else ({ s with call := .poll (timeout-1) },.running)

def goOn (s : State) : State × Out :=
  match s.call with
  | .idle => (s,.disabled)
  | .acknowledge => receiveAcknowledge s
  | .copy => receiveCopy s
  | .poll timeout => sendPoll s timeout

def irqHandler (s : State) : State × Out :=
  if s.rtlBase = 0 then (s,.returned 0 []) else ({ s with handler := some s.isr },.running)

/-- The rest of the handler, once it has read `isr`. -/
def irqAcknowledge (s : State) (isr : BitVec 16) : State × Out :=
  ({ s with
    isr := s.isr &&& ~~~isr
    cableStatus := if isr &&& rtlIsrCable ≠ 0 then s.link else s.cableStatus
    txPackets := if isr &&& rtlIsrTok ≠ 0 then u32 (s.txPackets+1) else s.txPackets
    handler := none },.returned 0 [])

/-- The main program calls a function or goes on in one, the interrupt handler is entered or
goes on, a packet arrives at a place of the buffer, a transmission is finished, the
transmit status changes, or the cable. -/
inductive Op
  | receive
  | send (data : ℕ → UInt8) (len : ℕ)
  | goOn
  | irqHandler
  | irqGoOn
  | arrive (rxBufPtr : UInt16) (rxBuf : ℕ → UInt8)
  | finish
  | transmitStatus (txStatus : BitVec 32)
  | cable (link : Bool)

/-- There is one processor: the main program stands still while the handler runs. -/
def step (s : State) : Op → State × Out
  | .receive => if s.handler.isNone ∧ s.call = .idle then receive s else (s,.disabled)
  | .send data len => if s.handler.isNone ∧ s.call = .idle then send s data len else (s,.disabled)
  | .goOn => if s.handler.isNone then goOn s else (s,.disabled)
  | .irqHandler => if s.handler.isNone then irqHandler s else (s,.disabled)
  | .irqGoOn =>
    match s.handler with
    | none => (s,.disabled)
    | some isr => irqAcknowledge s isr
  | .arrive rxBufPtr rxBuf => ({ s with isr := s.isr ||| rtlIsrRok, rxBufPtr, rxBuf },.running)
  | .finish =>
    if s.inFlight = 0 then (s,.disabled)
    else ({ s with isr := s.isr ||| rtlIsrTok, inFlight := s.inFlight-1 },.running)
  | .transmitStatus txStatus => ({ s with txStatus },.running)
  | .cable link => ({ s with isr := s.isr ||| rtlIsrCable, link },.running)

abbrev Event := Runs.Event State Op Out

def after (s : State) (ops : List Op) : State := Runs.exec step s ops

theorem after_concat (s : State) (ops : List Op) (op : Op) :
    after s (ops++[op]) = (step (after s ops) op).1 :=
  Runs.exec_concat _ _ _ _

/-- A packet has arrived and no `rtl8111_receive` has found one since. -/
def owes (owed : Bool) (e : Event) : Bool :=
  match e.op with
  | .arrive _ _ => true
  | .receive => if e.out = .running then false else owed
  | _ => owed

def owed (s : State) (ops : List Op) : Bool := (Runs.trace step s ops).foldl owes false

/-- Once a packet has arrived, a call of `rtl8111_receive` does not return 0. -/
def Unlost (s : State) (ops : List Op) : Prop :=
  owed s ops = true → (receive (after s ops)).2 ≠ .returned 0 []

/-- The step writes ROK to the interrupt status. -/
def ClearsRok (s : State) : Op → Prop
  | .goOn => s.handler = none ∧ s.call = .acknowledge
  | .irqGoOn => ∃ isr, s.handler = some isr ∧ isr &&& rtlIsrRok ≠ 0
  | _ => False

theorem owed_concat (s : State) (ops : List Op) (op : Op) :
    owed s (ops++[op]) = owes (owed s ops) ⟨after s ops,op,(step (after s ops) op).2⟩ := by
  rw [owed,Runs.trace_concat,List.foldl_append]
  rfl

theorem rok_iff (isr : BitVec 16) : isr &&& rtlIsrRok ≠ 0 ↔ isr[0] = true := by
  constructor
  · intro h
    by_contra hbit
    apply h
    ext i hi
    simp [rtlIsrRok]
    grind
  · intro hbit h
    have hzero := congrArg (BitVec.getLsbD · 0) h
    simp [rtlIsrRok] at hzero
    rw [hbit] at hzero
    exact Bool.noConfusion hzero

theorem rok_acknowledge (isr v : BitVec 16) :
    (isr &&& ~~~v) &&& rtlIsrRok ≠ 0 ↔ isr &&& rtlIsrRok ≠ 0 ∧ ¬ v &&& rtlIsrRok ≠ 0 := by
  simp only [rok_iff]
  simp

theorem rok_raise (isr v : BitVec 16) :
    (isr ||| v) &&& rtlIsrRok ≠ 0 ↔ isr &&& rtlIsrRok ≠ 0 ∨ v &&& rtlIsrRok ≠ 0 := by
  simp only [rok_iff]
  simp

theorem pktLen_le (s : State) : ¬ pktLen s > rxBufSize := by
  have hlow := (s.rxBuf (s.rxBufPtr.toNat+2)).toNat_lt
  have hhigh := (s.rxBuf (s.rxBufPtr.toNat+3)).toNat_lt
  unfold pktLen rxBufSize
  omega

theorem receiveCopy_returns (s : State) :
    (receiveCopy s).2 = .returned 1 ((List.range (pktLen s)).map fun i =>
      s.rxBuf (s.rxBufPtr.toNat+4+i)) := by
  rw [receiveCopy,if_neg (pktLen_le s)]

theorem receive_eq_zero_iff (s : State) :
    (receive s).2 = .returned 0 [] ↔ s.rtlBase ≠ 0 ∧ ¬ s.isr &&& rtlIsrRok ≠ 0 := by
  unfold receive
  by_cases hbase : s.rtlBase = 0
  · simp [hbase]
  · by_cases hrok : s.isr &&& rtlIsrRok = 0
    · simp [hbase,hrok]
    · rw [if_neg hbase,if_neg hrok]
      exact iff_of_false Out.noConfusion fun h => h.2 hrok

theorem rok_step (s : State) (op : Op) :
    (step s op).1.isr &&& rtlIsrRok ≠ 0 ↔
      (∃ rxBufPtr rxBuf, op = .arrive rxBufPtr rxBuf) ∨ (s.isr &&& rtlIsrRok ≠ 0 ∧ ¬ ClearsRok s op) := by
  cases op with
  | arrive rxBufPtr rxBuf =>
    exact iff_of_true ((rok_raise _ _).mpr (Or.inr (by decide))) (Or.inl ⟨_,_,rfl⟩)
  | goOn =>
    by_cases hclears : ClearsRok s .goOn
    · obtain ⟨hhandler,hcall⟩ := hclears
      have hisr : (step s .goOn).1.isr = s.isr &&& ~~~rtlIsrRok := by
        simp [step,hhandler,goOn,hcall,receiveAcknowledge]
      rw [hisr,rok_acknowledge]
      have hrok : rtlIsrRok ≠ 0#16 := by decide
      simp [hrok,ClearsRok,hhandler,hcall]
    · have hisr : (step s .goOn).1.isr = s.isr := by
        unfold ClearsRok at hclears
        cases hhandler : s.handler with
        | some isr => simp [step,hhandler]
        | none =>
          cases hcall : s.call with
          | acknowledge => exact absurd ⟨hhandler,hcall⟩ hclears
          | _ =>
            simp only [step,hhandler,goOn,hcall,receiveCopy,sendPoll]
            split_ifs <;> rfl
      rw [hisr]
      simp [hclears]
  | irqGoOn =>
    cases hhandler : s.handler with
    | none => simp [step,hhandler,ClearsRok]
    | some isr =>
      simp only [step,hhandler,irqAcknowledge,rok_acknowledge]
      simp [ClearsRok,hhandler]
  | finish =>
    have hrok : rtlIsrTok &&& rtlIsrRok = 0 := by decide
    by_cases hnone : s.inFlight = 0
    · simp [step,hnone,ClearsRok]
    · simp only [step,hnone,if_false,rok_raise,hrok]
      simp [ClearsRok]
  | cable link =>
    have hrok : rtlIsrCable &&& rtlIsrRok = 0 := by decide
    simp only [step,rok_raise,hrok]
    simp [ClearsRok]
  | transmitStatus txStatus => simp [step,ClearsRok]
  | _ =>
    simp only [step,receive,send,irqHandler]
    split_ifs <;> simp [ClearsRok]

/-- Without a device no call gets under way. -/
structure Idle (s : State) : Prop where
  rtlBase : s.rtlBase = 0
  call : s.call = .idle
  handler : s.handler = none

theorem Idle.step {s : State} (h : Idle s) (op : Op) : Idle (step s op).1 := by
  obtain ⟨hbase,hcall,hhandler⟩ := h
  cases op with
  | finish =>
    simp only [Rtl8111.step]
    split_ifs <;> exact ⟨hbase,hcall,hhandler⟩
  | _ => constructor <;> simp [Rtl8111.step,receive,send,irqHandler,goOn,hcall,hhandler,hbase]

theorem rtlBase_step (s : State) (op : Op) : (step s op).1.rtlBase = s.rtlBase := by
  cases op <;> simp only [step,receive,send,irqHandler,goOn,receiveAcknowledge,receiveCopy,sendPoll,
    irqAcknowledge] <;> (repeat' split) <;> rfl

/-- Either there is no device, or a packet that is owed shows in the interrupt status. -/
def Shown (s : State) (ops : List Op) : Prop :=
  Idle (after s ops) ∨
    (after s ops).rtlBase ≠ 0 ∧ (owed s ops = true → (after s ops).isr &&& rtlIsrRok ≠ 0)

theorem shown_boot (rtlBase : ℕ) (link : Bool) : Shown (boot rtlBase link) [] := by
  by_cases h : rtlBase = 0
  · exact Or.inl ⟨h,rfl,rfl⟩
  · exact Or.inr ⟨h,Bool.noConfusion⟩

theorem Shown.unlost {s : State} {ops : List Op} (h : Shown s ops) : Unlost s ops := by
  intro howed hzero
  obtain ⟨hbase,hrok⟩ := (receive_eq_zero_iff _).mp hzero
  rcases h with h | ⟨-,h⟩
  · exact hbase h.rtlBase
  · exact hrok (h howed)

theorem owed_of_concat {s : State} {ops : List Op} {op : Op} (h : owed s (ops++[op]) = true) :
    (∃ rxBufPtr rxBuf, op = .arrive rxBufPtr rxBuf) ∨ owed s ops = true := by
  rw [owed_concat] at h
  cases op with
  | arrive rxBufPtr rxBuf => exact Or.inl ⟨_,_,rfl⟩
  | receive =>
    simp only [owes] at h
    split_ifs at h
    exact Or.inr h
  | _ => exact Or.inr h

theorem Shown.concat {s : State} {ops : List Op} {op : Op} (h : Shown s ops)
    (hop : ¬ (owed s ops = true ∧ ClearsRok (after s ops) op)) : Shown s (ops++[op]) := by
  rcases h with h | ⟨hbase,h⟩
  · left
    rw [after_concat]
    exact h.step op
  · right
    rw [after_concat,rtlBase_step]
    refine ⟨hbase,fun howed => (rok_step _ op).mpr ?_⟩
    rcases owed_of_concat howed with harrive | hold
    · exact Or.inl harrive
    · exact Or.inr ⟨h hold,fun hclears => hop ⟨hold,hclears⟩⟩

theorem not_clears_of_unlost {s : State} {ops : List Op} {op : Op} (h : Shown s ops)
    (hnext : Unlost s (ops++[op])) : ¬ (owed s ops = true ∧ ClearsRok (after s ops) op) := by
  rintro ⟨howed,hclears⟩
  have hkind : op = .goOn ∧ (after s ops).call = .acknowledge ∨
      op = .irqGoOn ∧ (after s ops).handler ≠ none := by
    cases op with
    | goOn => exact Or.inl ⟨rfl,hclears.2⟩
    | irqGoOn =>
      obtain ⟨isr,hisr,-⟩ := hclears
      exact Or.inr ⟨rfl,by simp [hisr]⟩
    | _ => exact hclears.elim
  rcases h with hidle | ⟨hbase,-⟩
  · rcases hkind with ⟨-,hcall⟩ | ⟨-,hhandler⟩
    · rw [hidle.call] at hcall
      exact Call.noConfusion hcall
    · exact hhandler hidle.handler
  · refine hnext ?_ ((receive_eq_zero_iff _).mpr ⟨?_,?_⟩)
    · rw [owed_concat]
      rcases hkind with ⟨rfl,-⟩ | ⟨rfl,-⟩ <;> exact howed
    · rwa [after_concat,rtlBase_step]
    · rw [after_concat,rok_step]
      rintro (⟨_,_,rfl⟩ | ⟨-,hkept⟩)
      · exact hclears
      · exact hkept hclears

/-- Every `rtl8111_receive` of the run that is called while a packet is owed finds one. -/
def Answered (s : State) (ops : List Op) : Prop :=
  ∀ pre, pre++[.receive] <+: ops → owed s pre = true →
    (step (after s pre) .receive).2 ≠ .returned 0 []

theorem answered_of_unlost {s : State} {ops : List Op} (h : Runs.Always (Unlost s) ops) :
    Answered s ops := by
  intro pre hpre howed
  have hnow := h pre (Runs.prefix_of_concat hpre) howed
  simp only [step]
  split_ifs
  · exact hnow
  · exact Out.noConfusion

/-- The step writes ROK to the interrupt status while a packet is owed. -/
def Loses (s : State) (pre : List Op) (op : Op) : Prop :=
  owed s pre = true ∧ ClearsRok (after s pre) op

/-- A call finds a packet in every state after an arrival exactly when ROK is never written
to the interrupt status while a packet is owed; and so do then the calls of the run. -/
theorem unlost_iff (rtlBase : ℕ) (link : Bool) (ops : List Op) :
    (Runs.Always (Unlost (boot rtlBase link)) ops ↔
      Runs.EveryStep (fun pre op => ¬ Loses (boot rtlBase link) pre op) ops) ∧
    (Runs.EveryStep (fun pre op => ¬ Loses (boot rtlBase link) pre op) ops →
      Answered (boot rtlBase link) ops) := by
  have hiff : Runs.Always (Unlost (boot rtlBase link)) ops ↔
      Runs.EveryStep (fun pre op => ¬ Loses (boot rtlBase link) pre op) ops := by
    apply Runs.always_iff_everyStep (R := Shown (boot rtlBase link))
    · exact shown_boot rtlBase link
    · exact fun pre op h hop => h.concat hop
    · exact fun pre h => h.unlost
    · exact fun pre op h hnext => not_clears_of_unlost h hnext
  exact ⟨hiff,fun h => answered_of_unlost (hiff.mpr h)⟩

/-- A packet arrives, the interrupt handler acknowledges it, and the call finds none. -/
theorem acknowledged_by_handler :
    ¬ Answered (boot 0xC000 true) [.arrive 0 fun _ => 0,.irqHandler,.irqGoOn,.receive] := by
  intro h
  exact h [.arrive 0 fun _ => 0,.irqHandler,.irqGoOn] (List.prefix_refl _) rfl (by decide)

end Rtl8111
end ValiantCore
