import Mathlib.Order.Lattice
import Mathlib.Tactic.SplitIfs
import ValiantCore.Bytes
import ValiantCore.Halting

/-! `security/security.rs`: the buffer scan, by its return value, and the state machine of the
engine, its counters, its levels, and the hardware it calls. The hardware answers as it likes
and does not call back; what is asked of it and which threats are registered is kept in a
log. Printed texts are left out. -/
namespace ValiantCore
namespace Security

def virusSignatures : List (List UInt8) :=
  [[0x4D,0x5A,0x90,0x00,0x03,0x00,0x00,0x00],
    [0xEB,0xFE,0x00,0x00,0x00,0x00,0x00,0x00],
    [0xCC,0xCC,0xCC,0xCC,0xCC,0xCC,0xCC,0xCC],
    [0x90,0x90,0x90,0x90,0x90,0x90,0x90,0x90],
    [0x6A,0x00,0x68,0x00,0x00,0x00,0x00,0xFF],
    [0xFF,0xD0,0x83,0xC4,0x04,0x85,0xC0,0x74],
    [0x31,0xC0,0x50,0x68,0x2F,0x2F,0x73,0x68],
    [0xB8,0x01,0x00,0x00,0x00,0xBB,0x00,0x00]]

def windows (n : ℕ) (slice : List UInt8) : List (List UInt8) :=
  (List.range (slice.length+1-n)).map fun i => (slice.drop i).take n

def virusDetected (slice : List UInt8) : Bool :=
  virusSignatures.any fun sig => (windows 8 slice).any fun window => window == sig

/-- The rootkit pattern is looked for at the indices below `len - 2`. -/
def rootkitPattern (slice : List UInt8) : Bool :=
  (List.range (slice.length-2)).any fun i => slice[i]? == some 0xFF && slice[i+1]? == some 0x25

def securityScanBuffer (byte : ℕ → UInt8) (buf len : ℕ) : ℤ :=
  if buf = 0 ∨ len = 0 then -1
  else
    let slice := Bytes.bytesAt byte buf len
    if virusDetected slice then -1
    else if len ≥ 3 ∧ rootkitPattern slice then -1
    else 0

theorem securityScanBuffer_empty (byte : ℕ → UInt8) (buf : ℕ) : securityScanBuffer byte buf 0 = -1 := by
  simp [securityScanBuffer]

theorem virusDetected_bytesAt {byte : ℕ → UInt8} {off n : ℕ} :
    virusDetected (Bytes.bytesAt byte off n) = true ↔
      ∃ i, i+8 ≤ n ∧ Bytes.bytesAt byte (off+i) 8 ∈ virusSignatures := by
  simp only [virusDetected,windows,List.any_eq_true,List.mem_map,List.mem_range,Bytes.bytesAt_length,
    beq_iff_eq]
  constructor
  · rintro ⟨sig,hsig,window,⟨i,hi,rfl⟩,heq⟩
    have hin : i+8 ≤ n := by omega
    rw [Bytes.take_drop_bytesAt byte off hin] at heq
    exact ⟨i,hin,heq ▸ hsig⟩
  · rintro ⟨i,hin,hsig⟩
    exact ⟨_,hsig,_,⟨i,by omega,rfl⟩,Bytes.take_drop_bytesAt byte off hin⟩

theorem no_signature_of_scan {byte : ℕ → UInt8} {buf len : ℕ}
    (h : securityScanBuffer byte buf len = 0) {i : ℕ} (hi : i+8 ≤ len) :
    Bytes.bytesAt byte (buf+i) 8 ∉ virusSignatures := by
  intro hsig
  have hv := virusDetected_bytesAt.mpr ⟨i,hi,hsig⟩
  simp only [securityScanBuffer,hv,if_true] at h
  split_ifs at h

end Security

namespace SecurityEngine

open Halting

/-- `AddrT` is `u64` on x86_64 and `u32` elsewhere. -/
inductive AddrT
  | u64 | u32
  deriving DecidableEq, Repr

def AddrT.bits : AddrT → ℕ
  | .u64 => 64
  | .u32 => 32

def AddrT.cast (w : AddrT) (value : ℕ) : ℕ := value%2^w.bits

inductive ThreatLevel
  | safe | low | medium | high | critical | omega
  deriving DecidableEq, Repr

def ThreatLevel.asU32 : ThreatLevel → ℕ
  | .safe => 0
  | .low => 1
  | .medium => 2
  | .high => 3
  | .critical => 4
  | .omega => 5

inductive SecurityEvent
  | memoryOverflow | stackCorruption | unauthorizedWrite | virusDetected | driverTamper
  | kernelCorruption | panicDetected | bufferOverflow | rootkitPattern | hardwareAnomaly
  | selfRepairSuccess | systemLockdown
  deriving DecidableEq, Repr

def SecurityEvent.asU32 : SecurityEvent → ℕ
  | .memoryOverflow => 1
  | .stackCorruption => 2
  | .unauthorizedWrite => 3
  | .virusDetected => 4
  | .driverTamper => 5
  | .kernelCorruption => 6
  | .panicDetected => 7
  | .bufferOverflow => 8
  | .rootkitPattern => 9
  | .hardwareAnomaly => 10
  | .selfRepairSuccess => 11
  | .systemLockdown => 12

def canaryMagic : ℕ := 0xDEADC0DE
def stackGuard : ℕ := 0xCAFEBABE
def maxFaults : ℕ := 20
def hwWipeChunk : ℕ := 4096

inductive HwCall
  | securityChipAlert (event addr level : ℕ)
  | chipVirusDestroy (addr size : ℕ)
  | memoryLock (addr size : ℕ)
  | memoryWipe (addr size : ℕ)
  | memoryRestore (addr size : ℕ)
  | driverVerify (addr checksum : ℕ)
  | driverRestore (addr : ℕ)
  | kernelSnapshotVerify
  | kernelRestore
  | panicKeepalive
  | fullSystemScan
  | chipStatus
  deriving DecidableEq, Repr

/-- What the chip answers, by the number of the call. -/
structure Hardware where
  answer : ℕ → ℤ
  report : ℕ → ℕ
  status : ℕ → UInt8

inductive Entry
  | threat (event : SecurityEvent) (addr : ℕ) (level : ThreatLevel)
  | reset
  | hw (call : HwCall)
  deriving DecidableEq, Repr

/-- The static variables, and what has happened, the last entry first. -/
structure Engine where
  faultCount : ℕ
  threatLevel : ℕ
  canary : ℕ
  panicActive : ℕ
  lockdown : ℕ
  scanGeneration : ℕ
  hwChipStatus : UInt8
  hardware : Hardware
  asked : ℕ
  log : List Entry

def boot (hardware : Hardware) : Engine :=
  ⟨0,0,0xDEADC0DE,0,0,0,0,hardware,0,[]⟩

def Engine.ask (s : Engine) (call : HwCall) : Engine :=
  { s with asked := s.asked+1, log := .hw call::s.log }

def hw (call : HwCall) : HaltM Engine ℤ :=
  modifyGet fun s => (s.hardware.answer s.asked,s.ask call)

def hwChipStatus : HaltM Engine UInt8 :=
  modifyGet fun s => (s.hardware.status s.asked,s.ask .chipStatus)

/-- `hw_full_system_scan(&mut report)` and the report it leaves. -/
def hwFullSystemScan : HaltM Engine (ℤ × ℕ) :=
  modifyGet fun s => ((s.hardware.answer s.asked,s.hardware.report s.asked),s.ask .fullSystemScan)

def Engine.addFault (s : Engine) (event : SecurityEvent) (addr : ℕ) (level : ThreatLevel) : Engine :=
  { s with
    faultCount := u32 (s.faultCount+1)
    threatLevel := max s.threatLevel level.asU32
    log := .threat event addr level::s.log }

def registerThreat (event : SecurityEvent) (addr : ℕ) (level : ThreatLevel) : HaltM Engine Unit := do
  let count ← modifyGet fun s => (u32 (s.faultCount+1),s.addFault event addr level)
  let _ ← hw (.securityChipAlert event.asU32 addr level.asU32)
  if count ≥ maxFaults then halt else pure ()

def initiateLockdown : HaltM Engine Unit := do
  modify fun s => { s with lockdown := 1 }
  registerThreat .systemLockdown 0 .omega
  let _ ← hw (.securityChipAlert SecurityEvent.systemLockdown.asU32 0 ThreatLevel.omega.asU32)
  pure ()

def attemptSelfRepair (event : SecurityEvent) (addr : ℕ) : HaltM Engine Unit := do
  let _ ← hw (match event with
    | .memoryOverflow | .bufferOverflow => .memoryRestore addr hwWipeChunk
    | .driverTamper => .driverRestore addr
    | .kernelCorruption => .kernelRestore
    | .hardwareAnomaly => .fullSystemScan
    | _ => .securityChipAlert event.asU32 addr ThreatLevel.medium.asU32)
  pure ()

def triggerHardwareResponse (event : SecurityEvent) (addr : ℕ) : HaltM Engine Unit := do
  let status ← hwChipStatus
  modify fun s => { s with hwChipStatus := status }
  match event with
  | .virusDetected | .rootkitPattern => do
    let _ ← hw (.chipVirusDestroy addr hwWipeChunk)
    let _ ← hw (.memoryWipe addr hwWipeChunk)
    pure ()
  | .stackCorruption | .kernelCorruption => do
    let _ ← hw .kernelRestore
    pure ()
  | .unauthorizedWrite => do
    let _ ← hw (.memoryLock addr hwWipeChunk)
    pure ()
  | .driverTamper => do
    let _ ← hw (.driverRestore addr)
    pure ()
  | _ => do
    let _ ← hw (.securityChipAlert event.asU32 addr ThreatLevel.high.asU32)
    pure ()

/-- The part of `security_check_memory` compiled for x86_64. -/
def checkAddress64 (addr size : ℕ) : HaltM Engine ℤ :=
  if addr < 0x1000 then do
    registerThreat .unauthorizedWrite addr .critical
    triggerHardwareResponse .unauthorizedWrite addr
    pure (-1)
  else if addr ≥ 0xFFFF800000000000 ∧ addr < 0xFFFFFFFF80000000 then do
    registerThreat .unauthorizedWrite addr .omega
    triggerHardwareResponse .unauthorizedWrite addr
    pure (-1)
  else if u64 (addr+size) < addr then do
    registerThreat .bufferOverflow addr .critical
    pure (-1)
  else pure 0

/-- The part of `security_check_memory` compiled for the other targets. -/
def checkAddress32 (addr : ℕ) : HaltM Engine ℤ :=
  if addr < 0x1000 then do
    registerThreat .unauthorizedWrite addr .critical
    triggerHardwareResponse .unauthorizedWrite addr
    pure (-1)
  else if addr > 0xC0000000 then do
    registerThreat .unauthorizedWrite addr .omega
    triggerHardwareResponse .unauthorizedWrite addr
    pure (-1)
  else pure 0

def securityCheckMemory (w : AddrT) (addr size : ℕ) : HaltM Engine ℤ :=
  if size = 0 ∨ size > 0x40000000 then do
    registerThreat .memoryOverflow addr .high
    attemptSelfRepair .memoryOverflow addr
    pure (-1)
  else if addr = 0 then do
    registerThreat .memoryOverflow addr .high
    pure (-1)
  else
    match w with
    | .u64 => checkAddress64 addr size
    | .u32 => checkAddress32 addr

def securityCheckStack (canary : ℕ) : HaltM Engine ℤ :=
  if canary ≠ stackGuard then do
    registerThreat .stackCorruption 0 .omega
    triggerHardwareResponse .stackCorruption 0
    attemptSelfRepair .stackCorruption 0
    pure (-1)
  else pure 0

def monitorSystemIntegrity : HaltM Engine ℤ := do
  let s ← get
  if s.canary ≠ canaryMagic then do
    registerThreat .kernelCorruption 0 .omega
    let restore ← hw .kernelRestore
    if restore = 0 then do
      modify fun s => { s with canary := canaryMagic }
      registerThreat .selfRepairSuccess 0 .safe
    else triggerHardwareResponse .kernelCorruption 0
    pure (-1)
  else do
    let hwCheck ← hw .kernelSnapshotVerify
    if hwCheck ≠ 0 then do
      registerThreat .kernelCorruption 0 .critical
      let _ ← hw .kernelRestore
      pure (-1)
    else pure 0

def securityScanBuffer (w : AddrT) (byte : ℕ → UInt8) (buf len : ℕ) : HaltM Engine ℤ :=
  if buf = 0 ∨ len = 0 then pure (-1)
  else do
    let slice := Bytes.bytesAt byte buf len
    modify fun s => { s with scanGeneration := u32 (s.scanGeneration+1) }
    if Security.virusDetected slice then do
      registerThreat .virusDetected (w.cast buf) .omega
      let destroy ← hw (.chipVirusDestroy (w.cast buf) len)
      if destroy = 0 then do
        let _ ← hw (.memoryWipe (w.cast buf) len)
        pure ()
      else initiateLockdown
      pure (-1)
    else if len ≥ 3 ∧ Security.rootkitPattern slice then do
      registerThreat .rootkitPattern (w.cast buf) .critical
      triggerHardwareResponse .rootkitPattern (w.cast buf)
      pure (-1)
    else pure 0

def securityVerifyDriver (driverAddr checksum : ℕ) : HaltM Engine ℤ :=
  if driverAddr = 0 then pure (-1)
  else do
    let result ← hw (.driverVerify driverAddr checksum)
    if result ≠ 0 then do
      registerThreat .driverTamper driverAddr .critical
      let restore ← hw (.driverRestore driverAddr)
      if restore = 0 then registerThreat .selfRepairSuccess driverAddr .safe
      else do
        let _ ← hw (.memoryLock driverAddr 0x10000)
        pure ()
      pure (-1)
    else pure 0

def securityFullScan : HaltM Engine ℤ := do
  let (result,report) ← hwFullSystemScan
  if result ≠ 0 ∨ report ≠ 0 then do
    registerThreat .hardwareAnomaly 0 .high
    attemptSelfRepair .hardwareAnomaly 0
    pure (-1)
  else pure 0

def securityPanicKeepalive : HaltM Engine ℤ := do
  modify fun s => { s with panicActive := 1 }
  let _ ← hw (.securityChipAlert SecurityEvent.panicDetected.asU32 0 ThreatLevel.omega.asU32)
  let _ ← hwFullSystemScan
  hw .panicKeepalive

def securityGetThreatLevel : HaltM Engine ℤ := do
  let s ← get
  pure s.threatLevel

def securityIsPanicActive : HaltM Engine ℤ := do
  let s ← get
  pure s.panicActive

def securityIsLockdown : HaltM Engine ℤ := do
  let s ← get
  pure s.lockdown

def securityReset : HaltM Engine Unit :=
  modify fun s =>
    { s with
      faultCount := 0
      threatLevel := 0
      canary := canaryMagic
      panicActive := 0
      lockdown := 0
      log := .reset::s.log }

theorem securityScanBuffer_returns (w : AddrT) (byte : ℕ → UInt8) (buf len : ℕ) :
    Triple (fun _ => True) (securityScanBuffer w byte buf len)
      (fun r _ => r = Security.securityScanBuffer byte buf len) (fun _ => True) := by
  apply triple_ite
  · intro hnone
    exact triple_pure fun _ _ => (if_pos hnone).symm
  intro hsome
  simp only [Security.securityScanBuffer,if_neg hsome]
  apply triple_skip
  intro _
  apply triple_ite
  · intro hvirus
    apply triple_skip
    intro _
    apply triple_skip
    intro destroy
    apply triple_ite <;> intro _
    · exact triple_skip _ fun _ => triple_pure fun _ _ => (if_pos hvirus).symm
    · exact triple_skip _ fun _ => triple_pure fun _ _ => (if_pos hvirus).symm
  intro hclean
  rw [if_neg hclean]
  apply triple_ite
  · intro hrootkit
    rw [if_pos hrootkit]
    exact triple_skip _ fun _ => triple_skip _ fun _ => triple_pure fun _ _ => rfl
  · intro hrootkit
    rw [if_neg hrootkit]
    exact triple_pure fun _ _ => rfl

inductive Call
  | checkMemory (addr size : ℕ)
  | checkStack (canary : ℕ)
  | monitorSystemIntegrity
  | scanBuffer (byte : ℕ → UInt8) (buf len : ℕ)
  | verifyDriver (driverAddr checksum : ℕ)
  | fullScan
  | panicKeepalive
  | getThreatLevel
  | isPanicActive
  | isLockdown
  | reset

def perform (w : AddrT) : Call → HaltM Engine ℤ
  | .checkMemory addr size => securityCheckMemory w addr size
  | .checkStack canary => securityCheckStack canary
  | .monitorSystemIntegrity => monitorSystemIntegrity
  | .scanBuffer byte buf len => securityScanBuffer w byte buf len
  | .verifyDriver driverAddr checksum => securityVerifyDriver driverAddr checksum
  | .fullScan => securityFullScan
  | .panicKeepalive => securityPanicKeepalive
  | .getThreatLevel => securityGetThreatLevel
  | .isPanicActive => securityIsPanicActive
  | .isLockdown => securityIsLockdown
  | .reset => do
    securityReset
    pure 0

end SecurityEngine

end ValiantCore
