import ValiantCore.Uart
import ValiantCore.Numerals

/-! The report of a panic in `arch/aarch64/panic64.c`, which goes over the serial line. -/
namespace ValiantCore
namespace Panic

open Numerals

def ascii (s : String) : List UInt8 := s.toList.map fun c => UInt8.ofNat c.toNat

def hex : List UInt8 := ascii "0123456789ABCDEF"

/-- `0x` and the hexadecimal digits, the highest first. -/
def toHex (digits val : ℕ) : List UInt8 :=
  ascii "0x"++(List.range digits).map fun i => hex.getD ((val >>> (4*(digits-1)-i*4)) &&& 0xF) 0

def uint64ToHex (val : BitVec 64) : List UInt8 := toHex 16 val.toNat

def panicDetectAarch64 (esr : BitVec 64) : String :=
  match ((esr >>> 26) &&& 0x3F).toNat with
  | 0x00 => "ERR_UNKOWN"
  | 0x01 => "ERR_TRAPPED_WFI_WFE"
  | 0x0E => "ERR_ILLEGAL_EXEC"
  | 0x15 => "ERR_SVC_AARCH64"
  | 0x20 => "ERR_INST_ABORT_LOWER"
  | 0x21 => "ERR_INST_ABORT"
  | 0x22 => "ERR_PC_ALIGNMENT"
  | 0x24 => "ERR_DATA_ABORT_LOWER"
  | 0x25 => "ERR_DATA_ABORT"
  | 0x26 => "ERR_SP_ALIGNMENT"
  | 0x28 => "ERR_TRAPPED_FPU"
  | 0x2F => "ERR_SERROR"
  | 0x30 => "ERR_BREAKPOINT_LOWER"
  | 0x31 => "ERR_BREAKPOINT"
  | 0x32 => "ERR_STEP_LOWER"
  | 0x33 => "ERR_STEP"
  | 0x34 => "ERR_WATCHPOINT_LOWER"
  | 0x35 => "ERR_WATCHPOINT"
  | 0x3C => "ERR_BRK_AARCH64"
  | _ => "ERR_UNKOWN"

/-- The strings before the error code, between the values, and after the second one. -/
def reportHead : List String := [
  "\r\n",
  "################################################################################\r\n",
  "!!!!!!!!!!!!!!!!!!!!!!!!!!!!!!!!!!!!!!!!!!!!!!!!!!!!!!!!!!!!!!!!!!!!!!!!!!!!!!!!\r\n",
  "!!                                                                            !!\r\n",
  "!!           ValiantCore AArch64 - A Problem Has Been Detected               !!\r\n",
  "!!              Please reboot your device to recover.                        !!\r\n",
  "!!                                                                            !!\r\n",
  "!!!!!!!!!!!!!!!!!!!!!!!!!!!!!!!!!!!!!!!!!!!!!!!!!!!!!!!!!!!!!!!!!!!!!!!!!!!!!!!!\r\n",
  "################################################################################\r\n",
  "\r\n",
  "                           *** STOP ERROR ***\r\n",
  "\r\n",
  "    Error Code  :  "]

/-- Both values have the label of the first. -/
def reportLabel : List String := ["\r\n","    ESR_EL1     :  "]

def reportTail : List String := [
  "\r\n",
  "    Architecture:  AArch64\r\n",
  "\r\n",
  "################################################################################\r\n",
  "##                                                                            ##\r\n",
  "##   If you cannot resolve this issue, please open an issue at:              ##\r\n",
  "##                                                                            ##\r\n",
  "##          >>> github.com/finndev62/valiantcore -> Issues tab <<<           ##\r\n",
  "##                                                                            ##\r\n",
  "################################################################################\r\n",
  "\r\n"]

/-- What `kernel_panic_aarch64` prints before it waits for ever. -/
def kernelPanicAarch64 (esr elr : BitVec 64) : List (List UInt8) :=
  reportHead.map ascii++[ascii (panicDetectAarch64 esr)]++reportLabel.map ascii++[uint64ToHex esr]++
    reportLabel.map ascii++[uint64ToHex elr]++reportTail.map ascii

def hexValue (c : UInt8) : ℕ := hex.idxOf c

def readHex (cs : List UInt8) : ℕ := readDigits 16 ((cs.drop 2).map hexValue)

theorem hexValue_hex : ∀ d < 16, hexValue (hex.getD d 0) = d := by decide

theorem readHex_toHex (digits val : ℕ) : readHex (toHex digits val) = val%16^digits := by
  have hdrop : (toHex digits val).drop 2 =
      (List.range digits).map fun i => hex.getD ((val >>> (4*(digits-1)-i*4)) &&& 0xF) 0 := rfl
  have hdigits : ((toHex digits val).drop 2).map hexValue = fixedDigits 16 digits val := by
    rw [hdrop,List.map_map,fixedDigits]
    refine List.map_congr_left fun i hi => ?_
    have hshift : 4*(digits-1)-i*4 = 4*(digits-1-i) := by omega
    have hmod : ∀ n, n &&& 0xF = n%16 := fun n => Nat.and_two_pow_sub_one_eq_mod n 4
    rw [Function.comp_apply,hmod,hexValue_hex _ (Nat.mod_lt _ (by decide)),hshift,Nat.shiftRight_eq_div_pow,
      pow_mul]
    norm_num
  rw [readHex,hdigits,readDigits_fixedDigits]

theorem readHex_uint64 (val : BitVec 64) : readHex (uint64ToHex val) = val.toNat := by
  rw [uint64ToHex,readHex_toHex]
  exact Nat.mod_eq_of_lt val.isLt

/-- What a reader of the serial line makes of a report: the name of the error up to the end of
its line, and the two numbers, which have 18 characters each. -/
def readReport (text : List UInt8) : List UInt8 × ℕ × ℕ :=
  let head := (reportHead.map ascii).flatMap Uart.uartPrint
  let label := (reportLabel.map ascii).flatMap Uart.uartPrint
  let code := (text.drop head.length).takeWhile (· ≠ Uart.carriageReturn)
  let values := text.drop (head.length+(code.length+label.length))
  (code,readHex (values.take 18),readHex ((values.drop (18+label.length)).take 18))

theorem uartPrint_of_notMem {cs : List UInt8} (h : Uart.lineFeed ∉ cs) : Uart.uartPrint cs = cs := by
  induction cs with
  | nil => rfl
  | cons c cs ih =>
    rw [List.mem_cons,not_or] at h
    rw [Uart.uartPrint,if_neg (Ne.symm h.1),ih h.2]
    rfl

theorem toHex_length (digits val : ℕ) : (toHex digits val).length = 2+digits := by
  rw [toHex,List.length_append,List.length_map,List.length_range]
  rfl

theorem toHex_printable (digits val : ℕ) : Uart.lineFeed ∉ toHex digits val := by
  have hhex : ∀ d < 16, hex.getD d 0 ≠ Uart.lineFeed := by decide
  intro hmem
  rcases List.mem_append.mp hmem with hmem | hmem
  · exact absurd hmem (by decide)
  · obtain ⟨i,-,hi⟩ := List.mem_map.mp hmem
    refine hhex _ ?_ hi
    have hmod : ∀ n, n &&& 0xF = n%16 := fun n => Nat.and_two_pow_sub_one_eq_mod n 4
    rw [hmod]
    exact Nat.mod_lt _ (by decide)

theorem panicDetect_printable (esr : BitVec 64) : Uart.lineFeed ∉ ascii (panicDetectAarch64 esr) ∧
    ∀ c ∈ ascii (panicDetectAarch64 esr), c ≠ Uart.carriageReturn := by
  have hall : (ascii (panicDetectAarch64 esr)).all
      (fun c => c != Uart.lineFeed && c != Uart.carriageReturn) = true := by
    unfold panicDetectAarch64
    split <;> rfl
  simp only [List.all_eq_true,Bool.and_eq_true,bne_iff_ne] at hall
  exact ⟨fun hmem => (hall _ hmem).1 rfl,fun c hc => (hall c hc).2⟩

def report (esr elr : BitVec 64) : List UInt8 := (kernelPanicAarch64 esr elr).flatMap Uart.uartPrint

theorem readReport_report (esr elr : BitVec 64) :
    readReport (report esr elr) = (ascii (panicDetectAarch64 esr),esr.toNat,elr.toNat) := by
  obtain ⟨hcode,hline⟩ := panicDetect_printable esr
  have hlength : ∀ val : BitVec 64, (uint64ToHex val).length = 18 := fun val => toHex_length 16 val.toNat
  have hprint : ∀ val : BitVec 64, Uart.uartPrint (uint64ToHex val) = uint64ToHex val := fun val =>
    uartPrint_of_notMem (toHex_printable 16 val.toNat)
  have htext : report esr elr =
      (reportHead.map ascii).flatMap Uart.uartPrint++(ascii (panicDetectAarch64 esr)++
        ((reportLabel.map ascii).flatMap Uart.uartPrint++(uint64ToHex esr++
          ((reportLabel.map ascii).flatMap Uart.uartPrint++(uint64ToHex elr++
            (reportTail.map ascii).flatMap Uart.uartPrint))))) := by
    simp only [report,kernelPanicAarch64,List.flatMap_append,List.flatMap_singleton,hprint,
      uartPrint_of_notMem hcode,List.append_assoc]
  obtain ⟨rest,hlabel⟩ : ∃ rest, (reportLabel.map ascii).flatMap Uart.uartPrint =
      Uart.carriageReturn::rest := ⟨_,rfl⟩
  rw [htext,readReport]
  have htake : (ascii (panicDetectAarch64 esr)++((reportLabel.map ascii).flatMap Uart.uartPrint++
      (uint64ToHex esr++((reportLabel.map ascii).flatMap Uart.uartPrint++(uint64ToHex elr++
        (reportTail.map ascii).flatMap Uart.uartPrint))))).takeWhile (· ≠ Uart.carriageReturn) =
      ascii (panicDetectAarch64 esr) := by
    rw [List.takeWhile_append_of_pos (by simpa using hline),hlabel]
    simp
  rw [List.drop_left,htake,← List.drop_drop,List.drop_left,← List.drop_drop,List.drop_left,List.drop_left,
    List.take_left' (hlength esr),← hlength esr,← List.drop_drop,List.drop_left,List.drop_left,
    hlength esr,List.take_left' (hlength elr),readHex_uint64,readHex_uint64]

/-- Whatever the line and the transmitter still held before the panic: behind it nothing comes on
the line but the report, from its beginning on; and if the driver and the transmitter go on,
a reader of the line has the registers from some moment on. -/
theorem report_reads {cap : ℕ} (hcap : 0 < cap) (fifo wire : List UInt8) (esr elr : BitVec 64) :
    (∀ turns, (Uart.run cap (Uart.printing fifo wire (kernelPanicAarch64 esr elr)) turns).wire <+:
      wire++fifo++report esr elr) ∧
    ∀ turns : ℕ → Uart.Turn, Runs.Recurs turns .send → Runs.Recurs turns .drive → ∃ n, ∀ m ≥ n,
      readReport ((Runs.after (Uart.step cap) (Uart.printing fifo wire (kernelPanicAarch64 esr elr)) turns m).wire.drop
        (wire++fifo).length) = (ascii (panicDetectAarch64 esr),esr.toNat,elr.toNat) := by
  obtain ⟨hstream,hsent⟩ := Uart.prints_all hcap fifo wire (kernelPanicAarch64 esr elr)
  constructor
  · intro turns
    have hturns := hstream turns
    rw [Uart.stream,List.append_assoc] at hturns
    exact ⟨_,hturns⟩
  · intro turns hsend hdrive
    obtain ⟨n,hn⟩ := hsent turns hsend hdrive
    refine ⟨n,fun m hm => ?_⟩
    rw [hn m hm,List.drop_left]
    exact readReport_report esr elr

theorem report_reads_idle : ∃ n, ∀ m ≥ n,
    readReport ((Runs.after (Uart.step 16) (Uart.printing [65] [] (kernelPanicAarch64 0x96000045 0x80000)) Uart.alternating
      m).wire.drop 1) = (ascii "ERR_DATA_ABORT",0x96000045,0x80000) :=
  (report_reads (by decide) [65] [] 0x96000045 0x80000).2 Uart.alternating (Uart.alternating_recurs .send)
    (Uart.alternating_recurs .drive)

end Panic
end ValiantCore
