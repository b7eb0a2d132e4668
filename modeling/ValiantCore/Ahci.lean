import ValiantCore.Bytes
import Mathlib.Data.List.Infix
import Mathlib.Logic.Function.Basic
import Mathlib.Tactic.SplitIfs

/-! The command path of `drivers/ahci64.c`. The registers of a port answer as they like:
a bus gives the value of every reading of every register and keeps a log of the accesses. -/
namespace ValiantCore
namespace Ahci

def hbaPortBase : ℕ := 0x100
def hbaPortSize : ℕ := 0x80
def portIs : ℕ := 0x10
def portTfd : ℕ := 0x20
def portCi : ℕ := 0x38
def ataCmdReadDmaEx : ℕ := 0x25
def ataCmdWriteDmaEx : ℕ := 0x35
def fisTypeRegH2d : ℕ := 0x27
def ahciSectorSz : ℕ := 512

def taskFileError : UInt32 := (1 : UInt32) <<< 30

/-- The fields of `ahci_cmd_header_t` that are set; the others are zero. -/
structure CmdHeader where
  cfl : ℕ
  w : ℕ
  prdtl : ℕ
  ctba : ℕ
  ctbau : ℕ
  deriving DecidableEq, Repr

/-- The fields of `ahci_fis_h2d_t` that are set. -/
structure FisH2d where
  fisType : ℕ
  c : ℕ
  command : ℕ
  lba0 : ℕ
  lba1 : ℕ
  lba2 : ℕ
  device : ℕ
  lba3 : ℕ
  lba4 : ℕ
  lba5 : ℕ
  countl : ℕ
  counth : ℕ
  deriving DecidableEq, Repr

/-- The fields of `ahci_prdt_entry_t` that are set. -/
structure PrdtEntry where
  dba : ℕ
  dbau : ℕ
  dbc : ℕ
  i : ℕ
  deriving DecidableEq, Repr

structure CmdTable where
  cfis : FisH2d
  prdt : PrdtEntry
  deriving DecidableEq, Repr

structure Port where
  active : ℤ
  portNum : ℕ
  deriving DecidableEq, Repr

structure Driver where
  base : ℕ
  ports : ℕ → Port
  portCount : ℕ
  initialized : ℤ
  cmdHeader : CmdHeader
  cmdTable : CmdTable

inductive Access
  | read (addr : ℕ) (value : UInt32)
  | write (addr : ℕ) (value : UInt32)
  deriving DecidableEq, Repr

/-- `answer addr k` is what the reading number `k` of the register returns. -/
structure Bus where
  answer : ℕ → ℕ → UInt32
  reads : ℕ → ℕ
  log : List Access

def ahciRead32 (addr : ℕ) (b : Bus) : UInt32 × Bus :=
  (b.answer addr (b.reads addr),
    { b with
      reads := Function.update b.reads addr (b.reads addr+1)
      log := b.log++[.read addr (b.answer addr (b.reads addr))] })

def ahciWrite32 (addr : ℕ) (value : UInt32) (b : Bus) : Bus :=
  { b with log := b.log++[.write addr value] }

def ahciPortAddr (drv : Driver) (port offset : ℕ) : ℕ :=
  drv.base+hbaPortBase+port*hbaPortSize%2^32+offset

def cmdHeader (write : Bool) (ctba : ℕ) : CmdHeader :=
  ⟨20/4,if write then 1 else 0,1,ctba%2^32,ctba/2^32%2^32⟩

def cmdFis (lba count : ℕ) (write : Bool) : FisH2d :=
  { fisType := fisTypeRegH2d
    c := 1
    command := if write then ataCmdWriteDmaEx else ataCmdReadDmaEx
    lba0 := lba%2^8
    lba1 := lba/2^8%2^8
    lba2 := lba/2^16%2^8
    device := 0x40
    lba3 := lba/2^24%2^8
    lba4 := lba/2^32%2^8
    lba5 := lba/2^40%2^8
    countl := count%2^8
    counth := count/2^8%2^8 }

/-- The byte count is a field of 22 bits. -/
def cmdPrdt (count bufAddr : ℕ) : PrdtEntry :=
  ⟨bufAddr%2^32,bufAddr/2^32%2^32,(count*ahciSectorSz-1)%2^22,1⟩

def waitTfd (tfdReg : ℕ) : ℕ → Bus → Bus
  | 0, b => b
  | n+1, b =>
    let (tfd,b) := ahciRead32 tfdReg b
    if tfd &&& 0x88 = 0 then b else waitTfd tfdReg n b

/-- The loop that waits for the command: it is left when the command is done, when the
port reports an error, and when the turns are used up. -/
def waitCi (ciReg isReg : ℕ) : ℕ → Bus → ℤ × Bus
  | 0, b => (0,b)
  | n+1, b =>
    let (ci,b) := ahciRead32 ciReg b
    if ci &&& 1 = 0 then (0,b)
    else
      let (is,b) := ahciRead32 isReg b
      if is &&& taskFileError ≠ 0 then (-1,b) else waitCi ciReg isReg n b

/-- `ahci_send_cmd(port, lba, count, buf, write)`, with the command table at `ctba`. -/
def ahciSendCmd (ctba port lba count buf : ℕ) (write : Bool) (drv : Driver) (b : Bus) :
    ℤ × Driver × Bus :=
  if buf = 0 ∨ count = 0 then (-1,drv,b)
  else
    let drv :=
      { drv with
        cmdHeader := cmdHeader write ctba
        cmdTable := ⟨cmdFis lba count write,cmdPrdt count buf⟩ }
    let b := waitTfd (ahciPortAddr drv port portTfd) 1000 b
    let b := ahciWrite32 (ahciPortAddr drv port portCi) 1 b
    let r := waitCi (ahciPortAddr drv port portCi) (ahciPortAddr drv port portIs) 100000 b
    (r.1,drv,r.2)

/-- The checks that `ahci_read` and `ahci_write` make before they send the command. -/
def ahciAccess (ctba lba count buf : ℕ) (write : Bool) (drv : Driver) (b : Bus) : ℤ × Driver × Bus :=
  if drv.initialized = 0 then (-1,drv,b)
  else if buf = 0 ∨ count = 0 then (-1,drv,b)
  else if drv.portCount = 0 then (-1,drv,b)
  else ahciSendCmd ctba (drv.ports 0).portNum lba count buf write drv b

def ahciRead (ctba lba count buf : ℕ) (drv : Driver) (b : Bus) : ℤ × Driver × Bus :=
  ahciAccess ctba lba count buf false drv b

def ahciWrite (ctba lba count buf : ℕ) (drv : Driver) (b : Bus) : ℤ × Driver × Bus :=
  ahciAccess ctba lba count buf true drv b

/-- After the command was issued, a reading of `PORT_CI` showed bit 0 clear. -/
def ShowsCompletion (ciReg : ℕ) (log : List Access) : Prop :=
  ∃ post value, .write ciReg 1::post <:+ log ∧ .read ciReg value ∈ post ∧ value &&& 1 = 0

/-- Success means completion: a result of 0 comes with a log that shows it. -/
def SuccessIsCompletion (port : ℕ) (drv : Driver) (b : Bus) (result : ℤ × Driver × Bus) : Prop :=
  result.1 = 0 → ∃ new, result.2.2.log = b.log++new ∧
    ShowsCompletion (ahciPortAddr drv port portCi) new

/-- The two readings of turn `i` show a pending command and no error. -/
def PendingAt (ciReg isReg : ℕ) (b : Bus) (i : ℕ) : Prop :=
  b.answer ciReg (b.reads ciReg+i) &&& 1 ≠ 0 ∧
    b.answer isReg (b.reads isReg+i) &&& taskFileError = 0

/-- For as long as the driver polls, the command is pending and no error is reported. -/
def PendingThroughout (port : ℕ) (drv : Driver) (b : Bus) : Prop :=
  ∀ i < 100000, PendingAt (ahciPortAddr drv port portCi) (ahciPortAddr drv port portIs) b i

section Polling
variable {tfdReg ciReg isReg : ℕ}

theorem waitTfd_log (tfdReg n : ℕ) (b : Bus) :
    (waitTfd tfdReg n b).answer = b.answer ∧
      (∀ reg, reg ≠ tfdReg → (waitTfd tfdReg n b).reads reg = b.reads reg) ∧
      ∃ new, (waitTfd tfdReg n b).log = b.log++new ∧
        ∀ a ∈ new, ∃ value, a = .read tfdReg value := by
  induction n generalizing b with
  | zero => exact ⟨rfl,fun _ _ => rfl,[],by simp [waitTfd],by simp⟩
  | succ n ih =>
    simp only [waitTfd]
    split_ifs
    · refine ⟨rfl,fun reg hreg => Function.update_of_ne hreg ..,_,rfl,?_⟩
      simp
    · obtain ⟨hanswer,hreads,new,hlog,hnew⟩ := ih (ahciRead32 tfdReg b).2
      refine ⟨hanswer,fun reg hreg => ?_,.read tfdReg (b.answer tfdReg (b.reads tfdReg))::new,?_,?_⟩
      · rw [hreads reg hreg]
        exact Function.update_of_ne hreg ..
      · rw [hlog]
        exact List.append_assoc ..
      · intro a ha
        rcases List.mem_cons.mp ha with hfirst | hlater
        · exact ⟨_,hfirst⟩
        · exact hnew a hlater

/-- The bus after a turn of the polling loop that goes on. -/
def polled (ciReg isReg : ℕ) (b : Bus) : Bus := (ahciRead32 isReg (ahciRead32 ciReg b).2).2

theorem polled_log (b : Bus) (hne : ciReg ≠ isReg) :
    (polled ciReg isReg b).log = b.log++[.read ciReg (b.answer ciReg (b.reads ciReg)),
      .read isReg (b.answer isReg (b.reads isReg))] := by
  simp [polled,ahciRead32,Function.update_of_ne hne.symm]

theorem pendingAt_polled (b : Bus) (hne : ciReg ≠ isReg) (i : ℕ) :
    PendingAt ciReg isReg (polled ciReg isReg b) i ↔ PendingAt ciReg isReg b (i+1) := by
  have hci : (polled ciReg isReg b).reads ciReg = b.reads ciReg+1 := by
    simp [polled,ahciRead32,Function.update_of_ne hne]
  have his : (polled ciReg isReg b).reads isReg = b.reads isReg+1 := by
    simp [polled,ahciRead32,Function.update_of_ne hne.symm]
  have hanswer : (polled ciReg isReg b).answer = b.answer := rfl
  rw [PendingAt,PendingAt,hci,his,hanswer,Nat.add_right_comm,Nat.add_assoc,Nat.add_right_comm,
    Nat.add_assoc]

theorem waitCi_succ (n : ℕ) (b : Bus) (hne : ciReg ≠ isReg) :
    waitCi ciReg isReg (n+1) b =
      if b.answer ciReg (b.reads ciReg) &&& 1 = 0 then (0,(ahciRead32 ciReg b).2)
      else if b.answer isReg (b.reads isReg) &&& taskFileError ≠ 0 then (-1,polled ciReg isReg b)
      else waitCi ciReg isReg n (polled ciReg isReg b) := by
  have his : (ahciRead32 isReg (ahciRead32 ciReg b).2).1 = b.answer isReg (b.reads isReg) := by
    simp [ahciRead32,Function.update_of_ne hne.symm]
  simp only [waitCi]
  rw [his]
  rfl

theorem waitCi_pending (hne : ciReg ≠ isReg) {n : ℕ} {b : Bus}
    (h : ∀ i < n, PendingAt ciReg isReg b i) :
    (waitCi ciReg isReg n b).1 = 0 ∧ ∃ new, (waitCi ciReg isReg n b).2.log = b.log++new ∧
      ∀ value, .read ciReg value ∈ new → value &&& 1 ≠ 0 := by
  induction n generalizing b with
  | zero => exact ⟨rfl,[],by simp [waitCi],by simp⟩
  | succ n ih =>
    obtain ⟨hci,his⟩ := h 0 n.succ_pos
    obtain ⟨hret,new,hlog,hnew⟩ := ih (b := polled ciReg isReg b) fun i hi =>
      (pendingAt_polled b hne i).mpr (h (i+1) (by omega))
    rw [Nat.add_zero] at hci his
    rw [waitCi_succ n b hne,if_neg hci,if_neg (not_not.mpr his)]
    refine ⟨hret,_,hlog.trans (by rw [polled_log b hne,List.append_assoc]),?_⟩
    intro value hvalue
    rcases List.mem_append.mp hvalue with hturn | hlater
    · simp only [List.mem_cons,Access.read.injEq,List.not_mem_nil,or_false,hne,false_and,true_and] at hturn
      rwa [hturn]
    · exact hnew value hlater

/-- If the command does not stay pending, a result of 0 has been shown to be its completion. -/
theorem waitCi_completed (hne : ciReg ≠ isReg) {n : ℕ} {b : Bus}
    (h : ∃ i < n, ¬ PendingAt ciReg isReg b i) (hret : (waitCi ciReg isReg n b).1 = 0) :
    ∃ new value, (waitCi ciReg isReg n b).2.log = b.log++new ∧ .read ciReg value ∈ new ∧
      value &&& 1 = 0 := by
  induction n generalizing b with
  | zero =>
    obtain ⟨i,hi,-⟩ := h
    exact absurd hi (Nat.not_lt_zero i)
  | succ n ih =>
    rw [waitCi_succ n b hne] at hret ⊢
    by_cases hci : b.answer ciReg (b.reads ciReg) &&& 1 = 0
    · rw [if_pos hci]
      exact ⟨_,_,rfl,List.mem_singleton.mpr rfl,hci⟩
    by_cases his : b.answer isReg (b.reads isReg) &&& taskFileError ≠ 0
    · rw [if_neg hci,if_pos his] at hret
      exact absurd hret (by simp)
    rw [if_neg hci,if_neg his] at hret ⊢
    obtain ⟨i,hi,hnot⟩ := h
    have hlater : ∃ j < n, ¬ PendingAt ciReg isReg (polled ciReg isReg b) j := by
      cases i with
      | zero => exact absurd ⟨hci,not_not.mp his⟩ hnot
      | succ j => exact ⟨j,by omega,fun hp => hnot ((pendingAt_polled b hne j).mp hp)⟩
    obtain ⟨new,value,hlog,hmem,hclear⟩ := ih hlater hret
    refine ⟨_,value,hlog.trans (by rw [polled_log b hne,List.append_assoc]),?_,hclear⟩
    exact List.mem_append_right _ hmem

end Polling

section Commands
variable (ctba port lba count buf : ℕ) (write : Bool) (drv : Driver) (b : Bus)

def issued : Bus :=
  ahciWrite32 (ahciPortAddr drv port portCi) 1 (waitTfd (ahciPortAddr drv port portTfd) 1000 b)

theorem issued_log :
    ∃ before, (issued port drv b).log =
        b.log++(before++[.write (ahciPortAddr drv port portCi) 1]) ∧
      ∀ value, .read (ahciPortAddr drv port portCi) value ∉ before := by
  obtain ⟨-,-,before,hlog,hbefore⟩ := waitTfd_log (ahciPortAddr drv port portTfd) 1000 b
  refine ⟨before,?_,?_⟩
  · simp only [issued,ahciWrite32]
    rw [hlog,List.append_assoc]
  · intro value hmem
    obtain ⟨v,heq⟩ := hbefore _ hmem
    have haddr := (Access.read.inj heq).1
    simp only [ahciPortAddr,portCi,portTfd] at haddr
    omega

theorem portAddr_ne : ahciPortAddr drv port portCi ≠ ahciPortAddr drv port portIs := by
  simp only [ahciPortAddr,portCi,portIs]
  omega

theorem pendingAt_issued (i : ℕ) :
    PendingAt (ahciPortAddr drv port portCi) (ahciPortAddr drv port portIs) (issued port drv b) i ↔
      PendingAt (ahciPortAddr drv port portCi) (ahciPortAddr drv port portIs) b i := by
  obtain ⟨hanswer,hreads,-⟩ := waitTfd_log (ahciPortAddr drv port portTfd) 1000 b
  have hci := hreads (ahciPortAddr drv port portCi) (by simp only [ahciPortAddr,portCi,portTfd]; omega)
  have his := hreads (ahciPortAddr drv port portIs) (by simp only [ahciPortAddr,portIs,portTfd]; omega)
  simp only [PendingAt,issued,ahciWrite32,hanswer,hci,his]

theorem pendingThroughout_iff :
    PendingThroughout port drv b ↔ ∀ i < 100000, PendingAt (ahciPortAddr drv port portCi)
      (ahciPortAddr drv port portIs) (issued port drv b) i := by
  simp only [PendingThroughout,pendingAt_issued]

theorem ahciSendCmd_result (hbuf : ¬ (buf = 0 ∨ count = 0)) :
    (ahciSendCmd ctba port lba count buf write drv b).1 =
        (waitCi (ahciPortAddr drv port portCi) (ahciPortAddr drv port portIs) 100000
          (issued port drv b)).1 ∧
      (ahciSendCmd ctba port lba count buf write drv b).2.2 =
        (waitCi (ahciPortAddr drv port portCi) (ahciPortAddr drv port portIs) 100000
          (issued port drv b)).2 := by
  rw [ahciSendCmd,if_neg hbuf]
  exact ⟨rfl,rfl⟩

theorem ahciSendCmd_iff :
    SuccessIsCompletion port drv b (ahciSendCmd ctba port lba count buf write drv b) ↔
      ¬ (buf ≠ 0 ∧ count ≠ 0 ∧ PendingThroughout port drv b) := by
  by_cases hbuf : buf = 0 ∨ count = 0
  · apply iff_of_true
    · intro hret
      rw [ahciSendCmd,if_pos hbuf] at hret
      exact absurd hret (by simp)
    · exact fun h => hbuf.elim h.1 h.2.1
  obtain ⟨hret,hbus⟩ := ahciSendCmd_result ctba port lba count buf write drv b hbuf
  obtain ⟨before,hlog,hbefore⟩ := issued_log port drv b
  rw [SuccessIsCompletion,hret,hbus,pendingThroughout_iff]
  have hne := portAddr_ne port drv
  constructor
  · rintro h ⟨-,-,hpending⟩
    obtain ⟨hzero,post,hpost,hset⟩ := waitCi_pending hne hpending
    obtain ⟨new,hnew,post',value,hsuffix,hread,hclear⟩ := h hzero
    -- all the readings of the log since the call
    rw [hpost,hlog,List.append_assoc] at hnew
    rw [← List.append_cancel_left hnew] at hsuffix
    have hmem := hsuffix.subset (List.mem_cons_of_mem _ hread)
    simp only [List.mem_append,List.mem_singleton,reduceCtorEq,or_false] at hmem
    rcases hmem with hearly | hlate
    · exact hbefore value hearly
    · exact hset value hlate hclear
  · intro hnot hzero
    rw [not_or] at hbuf
    have hturn : ∃ i < 100000, ¬ PendingAt (ahciPortAddr drv port portCi)
        (ahciPortAddr drv port portIs) (issued port drv b) i := by
      by_contra hall
      push Not at hall
      exact hnot ⟨hbuf.1,hbuf.2,hall⟩
    obtain ⟨post,value,hpost,hread,hclear⟩ := waitCi_completed hne hturn hzero
    refine ⟨_,hpost.trans (by rw [hlog,List.append_assoc]),post,value,?_,hread,hclear⟩
    rw [List.append_assoc]
    exact List.suffix_append _ _

theorem ahciAccess_iff :
    SuccessIsCompletion (drv.ports 0).portNum drv b (ahciAccess ctba lba count buf write drv b) ↔
      ¬ (drv.initialized ≠ 0 ∧ drv.portCount ≠ 0 ∧ buf ≠ 0 ∧ count ≠ 0 ∧
        PendingThroughout (drv.ports 0).portNum drv b) := by
  by_cases hrefused : drv.initialized = 0 ∨ (buf = 0 ∨ count = 0) ∨ drv.portCount = 0
  · apply iff_of_true
    · intro hret
      have hminus : (ahciAccess ctba lba count buf write drv b).1 = -1 := by
        unfold ahciAccess
        split_ifs with h1 h2 h3
        · rfl
        · rfl
        · rfl
        · exact absurd hrefused (by simp [h1,h2,h3])
      rw [hminus] at hret
      exact absurd hret (by simp)
    · rintro ⟨hinit,hports,hbuf,hcount,-⟩
      exact hrefused.elim hinit fun h => h.elim (fun h => h.elim hbuf hcount) hports
  · rw [not_or,not_or] at hrefused
    obtain ⟨hinit,hbuf,hports⟩ := hrefused
    rw [ahciAccess,if_neg hinit,if_neg hbuf,if_neg hports,ahciSendCmd_iff]
    simp only [ne_eq,hinit,hports,not_false_iff,true_and]

end Commands

/-- A result of 0 means completion for `ahci_send_cmd`, `ahci_read` and `ahci_write`, unless a
command that they do send stays pending, without an error, as long as they poll. -/
theorem success_is_completion_iff (ctba port lba count buf : ℕ) (write : Bool) (drv : Driver) (b : Bus) :
    (SuccessIsCompletion port drv b (ahciSendCmd ctba port lba count buf write drv b) ↔
      ¬ (buf ≠ 0 ∧ count ≠ 0 ∧ PendingThroughout port drv b)) ∧
    (SuccessIsCompletion (drv.ports 0).portNum drv b (ahciRead ctba lba count buf drv b) ↔
      ¬ (drv.initialized ≠ 0 ∧ drv.portCount ≠ 0 ∧ buf ≠ 0 ∧ count ≠ 0 ∧
        PendingThroughout (drv.ports 0).portNum drv b)) ∧
    (SuccessIsCompletion (drv.ports 0).portNum drv b (ahciWrite ctba lba count buf drv b) ↔
      ¬ (drv.initialized ≠ 0 ∧ drv.portCount ≠ 0 ∧ buf ≠ 0 ∧ count ≠ 0 ∧
        PendingThroughout (drv.ports 0).portNum drv b)) :=
  ⟨ahciSendCmd_iff ctba port lba count buf write drv b,ahciAccess_iff ctba lba count buf false drv b,
    ahciAccess_iff ctba lba count buf true drv b⟩

/-- A port that never finishes: `PORT_CI` reads 1, every other register 0. -/
def stuckBus (drv : Driver) : Bus :=
  ⟨fun addr _ => if addr = ahciPortAddr drv 0 portCi then 1 else 0,fun _ => 0,[]⟩

theorem stuck_pending (drv : Driver) : PendingThroughout 0 drv (stuckBus drv) := by
  intro i _
  constructor
  · simp only [stuckBus,if_true]
    decide
  · simp only [stuckBus,if_neg (portAddr_ne 0 drv).symm]
    decide

def readyDriver : Driver :=
  ⟨0x10000000,fun _ => ⟨1,0⟩,1,1,⟨0,0,0,0,0⟩,⟨⟨0,0,0,0,0,0,0,0,0,0,0,0⟩,⟨0,0,0,0⟩⟩⟩

theorem stuck_read_succeeds :
    ¬ SuccessIsCompletion 0 readyDriver (stuckBus readyDriver)
      (ahciRead 0x40000000 0 1 0x50000000 readyDriver (stuckBus readyDriver)) := by
  intro h
  apply (ahciAccess_iff 0x40000000 0 1 0x50000000 false readyDriver (stuckBus readyDriver)).mp h
  exact ⟨by decide,by decide,by decide,by decide,stuck_pending readyDriver⟩

end Ahci
end ValiantCore
