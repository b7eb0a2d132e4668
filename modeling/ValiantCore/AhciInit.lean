import ValiantCore.Ahci
import Mathlib.Data.List.Nodup
import Mathlib.Data.List.Range

/-! How `drivers/ahci64.c` takes over the controller: `ahci_init` looks at the ports that the
controller has, stops and starts those with a drive, and keeps the list of them. -/
namespace ValiantCore
namespace Ahci

def ahciBase : ℕ := 0x10000000
def hbaGhc : ℕ := 0x04
def hbaPi : ℕ := 0x0C
def portClb : ℕ := 0x00
def portClbu : ℕ := 0x04
def portFb : ℕ := 0x08
def portFbu : ℕ := 0x0C
def portCmd : ℕ := 0x18
def portSsts : ℕ := 0x28
def portSerr : ℕ := 0x30
def ahciMaxPorts : ℕ := 32

def hbaGhcAe : UInt32 := (1 : UInt32) <<< 31
def portCmdSt : UInt32 := 1
def portCmdFre : UInt32 := (1 : UInt32) <<< 4
def portCmdFr : UInt32 := (1 : UInt32) <<< 14
def portCmdCr : UInt32 := (1 : UInt32) <<< 15

structure Areas where
  cmdList : UInt64
  fisBuf : UInt64
  deriving Repr

/-- A loop that reads the register until the bit is clear, or until its turns are used up. -/
def pollClear (reg : ℕ) (bit : UInt32) : ℕ → Bus → Bus
  | 0, b => b
  | n+1, b =>
    let (value,b) := ahciRead32 reg b
    if value &&& bit = 0 then b else pollClear reg bit n b

def ahciPortStop (drv : Driver) (port : ℕ) (b : Bus) : Bus :=
  let cmdReg := ahciPortAddr drv port portCmd
  let (cmd,b) := ahciRead32 cmdReg b
  let cmd := cmd &&& ~~~portCmdSt
  let b := pollClear cmdReg portCmdCr 500 (ahciWrite32 cmdReg cmd b)
  let cmd := cmd &&& ~~~portCmdFre
  pollClear cmdReg portCmdFr 500 (ahciWrite32 cmdReg cmd b)

/-- The loop of `ahci_port_start` has no bound: `none` says that it is not left within `turns`
turns. -/
def awaitIdle (cmdReg : ℕ) : (turns : ℕ) → Bus → Option Bus
  | 0, _ => none
  | n+1, b =>
    let (cmd,b) := ahciRead32 cmdReg b
    if cmd &&& portCmdCr = 0 then some b else awaitIdle cmdReg n b

def ahciPortStart (turns : ℕ) (drv : Driver) (port : ℕ) (b : Bus) : Option Bus := do
  let cmdReg := ahciPortAddr drv port portCmd
  let b ← awaitIdle cmdReg turns b
  let (cmd,b) := ahciRead32 cmdReg b
  some (ahciWrite32 cmdReg (cmd ||| portCmdFre ||| portCmdSt) b)

/-- The six registers that `ahci_port_init` writes between the stop and the start. -/
def portSetup (areas : Areas) (drv : Driver) (port : ℕ) (b : Bus) : Bus :=
  let b := ahciWrite32 (ahciPortAddr drv port portClb) areas.cmdList.toUInt32 b
  let b := ahciWrite32 (ahciPortAddr drv port portClbu) (areas.cmdList >>> 32).toUInt32 b
  let b := ahciWrite32 (ahciPortAddr drv port portFb) areas.fisBuf.toUInt32 b
  let b := ahciWrite32 (ahciPortAddr drv port portFbu) (areas.fisBuf >>> 32).toUInt32 b
  let b := ahciWrite32 (ahciPortAddr drv port portSerr) 0xFFFFFFFF b
  ahciWrite32 (ahciPortAddr drv port portIs) 0xFFFFFFFF b

def ahciPortInit (turns : ℕ) (areas : Areas) (drv : Driver) (port : ℕ) (b : Bus) : Option Bus :=
  ahciPortStart turns drv port (portSetup areas drv port (ahciPortStop drv port b))

def implemented (pi : UInt32) (i : ℕ) : Bool := pi &&& (1 : UInt32) <<< i.toUInt32 != 0

/-- `det` is 3 and `ipm` is 1: a drive is there, and active. -/
def hasDrive (ssts : UInt32) : Bool := (ssts &&& 0x0F) == 3 && (ssts >>> 8 &&& 0x0F) == 1

def addPort (drv : Driver) (i : ℕ) : Driver :=
  { drv with
    ports := Function.update drv.ports drv.portCount ⟨1,i⟩
    portCount := drv.portCount+1 }

def initTurn (turns : ℕ) (areas : Areas) (pi : UInt32) (s : Driver × Bus) (i : ℕ) :
    Option (Driver × Bus) :=
  if implemented pi i then
    let (ssts,b) := ahciRead32 (ahciPortAddr s.1 i portSsts) s.2
    if hasDrive ssts then do
      let b ← ahciPortInit turns areas s.1 i b
      some (addPort s.1 i,b)
    else some (s.1,b)
  else some s

def ahciInit (turns : ℕ) (areas : Areas) (drv : Driver) (b : Bus) : Option (ℤ × Driver × Bus) := do
  let drv := { drv with base := ahciBase, portCount := 0, initialized := 0 }
  let b := ahciWrite32 (drv.base+hbaGhc) hbaGhcAe b
  let (pi,b) := ahciRead32 (drv.base+hbaPi) b
  let (drv,b) ← (List.range ahciMaxPorts).foldlM (initTurn turns areas pi) (drv,b)
  if drv.portCount = 0 then some (-1,drv,b)
  else some (0,{ drv with initialized := 1 },b)

def Access.isWrite : Access → Bool
  | .read .. => false
  | .write .. => true

def Access.addr : Access → ℕ
  | .read addr _ => addr
  | .write addr _ => addr

def readings (reg : ℕ) (new : List Access) : ℕ := new.countP fun a => !a.isWrite && a.addr == reg

@[simp] theorem readings_nil (reg : ℕ) : readings reg [] = 0 := rfl

@[simp] theorem readings_append (reg : ℕ) (new new' : List Access) :
    readings reg (new++new') = readings reg new+readings reg new' := List.countP_append

theorem readings_eq_zero {reg : ℕ} {new : List Access} (h : ∀ a ∈ new, a.addr ≠ reg) :
    readings reg new = 0 := by
  rw [readings,List.countP_eq_zero]
  intro a ha hread
  rw [Bool.and_eq_true,beq_iff_eq] at hread
  exact h a ha hread.2

/-- From the bus `b` on, exactly the accesses `new` have led to the bus `b'`. -/
structure Ran (b : Bus) (new : List Access) (b' : Bus) : Prop where
  answer : b'.answer = b.answer
  log : b'.log = b.log++new
  reads : ∀ reg, b'.reads reg = b.reads reg+readings reg new

namespace Ran

theorem refl (b : Bus) : Ran b [] b := ⟨rfl,(List.append_nil _).symm,fun _ => rfl⟩

theorem trans {b b' b'' : Bus} {new new' : List Access} (h : Ran b new b') (h' : Ran b' new' b'') :
    Ran b (new++new') b'' where
  answer := h'.answer.trans h.answer
  log := by rw [h'.log,h.log,List.append_assoc]
  reads reg := by rw [h'.reads,h.reads,readings_append,Nat.add_assoc]

theorem write (addr : ℕ) (value : UInt32) (b : Bus) :
    Ran b [.write addr value] (ahciWrite32 addr value b) := ⟨rfl,rfl,fun _ => rfl⟩

theorem read (addr : ℕ) (b : Bus) : Ran b [.read addr (ahciRead32 addr b).1] (ahciRead32 addr b).2 where
  answer := rfl
  log := rfl
  reads reg := by
    show Function.update b.reads addr (b.reads addr+1) reg = _
    rw [Function.update_apply]
    by_cases heq : reg = addr
    · rw [if_pos heq,heq]
      simp [readings,Access.isWrite,Access.addr]
    · rw [if_neg heq]
      simp [readings,Access.isWrite,Access.addr,Ne.symm heq]

theorem answer_eq {b b' : Bus} {new : List Access} (h : Ran b new b') {reg : ℕ}
    (hreg : ∀ a ∈ new, a.addr ≠ reg) : (ahciRead32 reg b').1 = (ahciRead32 reg b).1 := by
  show b'.answer reg (b'.reads reg) = b.answer reg (b.reads reg)
  rw [h.answer,h.reads,readings_eq_zero hreg,Nat.add_zero]

end Ran

def OnlyReads (reg : ℕ) (new : List Access) : Prop := ∀ a ∈ new, ∃ value, a = .read reg value

theorem OnlyReads.cons {reg : ℕ} {new : List Access} (value : UInt32) (h : OnlyReads reg new) :
    OnlyReads reg (.read reg value::new) := by
  intro a ha
  rcases List.mem_cons.mp ha with hfirst | hlater
  · exact ⟨value,hfirst⟩
  · exact h a hlater

theorem OnlyReads.filter_isWrite {reg : ℕ} {new : List Access} (h : OnlyReads reg new) :
    new.filter Access.isWrite = [] := by
  rw [List.filter_eq_nil_iff]
  intro a ha
  obtain ⟨value,rfl⟩ := h a ha
  exact Bool.false_ne_true

theorem pollClear_ran (reg : ℕ) (bit : UInt32) (n : ℕ) (b : Bus) :
    ∃ new, Ran b new (pollClear reg bit n b) ∧ OnlyReads reg new := by
  induction n generalizing b with
  | zero => exact ⟨[],Ran.refl b,fun a ha => absurd ha List.not_mem_nil⟩
  | succ n ih =>
    simp only [pollClear]
    have hread := Ran.read reg b
    split_ifs
    · exact ⟨_,hread,OnlyReads.cons _ fun a ha => absurd ha List.not_mem_nil⟩
    · obtain ⟨new,hran,honly⟩ := ih (ahciRead32 reg b).2
      exact ⟨_,hread.trans hran,honly.cons _⟩

theorem awaitIdle_ran {cmdReg turns : ℕ} {b b' : Bus} (h : awaitIdle cmdReg turns b = some b') :
    ∃ new idle, Ran b (new++[.read cmdReg idle]) b' ∧ OnlyReads cmdReg new ∧
      idle &&& portCmdCr = 0 := by
  induction turns generalizing b with
  | zero => exact absurd h (by simp [awaitIdle])
  | succ n ih =>
    simp only [awaitIdle] at h
    have hread := Ran.read cmdReg b
    split_ifs at h with hidle
    · obtain rfl := Option.some.inj h
      exact ⟨[],_,hread,fun a ha => absurd ha List.not_mem_nil,hidle⟩
    · obtain ⟨new,idle,hran,honly,hclear⟩ := ih h
      refine ⟨.read cmdReg (ahciRead32 cmdReg b).1::new,idle,?_,honly.cons _,hclear⟩
      exact hread.trans hran

def piOf (b : Bus) : UInt32 := (ahciRead32 (ahciBase+hbaPi) b).1

def portReg (i offset : ℕ) : ℕ := ahciBase+hbaPortBase+i*hbaPortSize+offset

def sstsOf (b : Bus) (i : ℕ) : UInt32 := (ahciRead32 (portReg i portSsts) b).1

def drives (b : Bus) : List ℕ :=
  (List.range ahciMaxPorts).filter fun i => implemented (piOf b) i && hasDrive (sstsOf b i)

def prepared (areas : Areas) (i : ℕ) (cmd : UInt32) : List Access :=
  [.write (portReg i portCmd) (cmd &&& ~~~portCmdSt),
    .write (portReg i portCmd) (cmd &&& ~~~portCmdSt &&& ~~~portCmdFre),
    .write (portReg i portClb) areas.cmdList.toUInt32,
    .write (portReg i portClbu) (areas.cmdList >>> 32).toUInt32,
    .write (portReg i portFb) areas.fisBuf.toUInt32,
    .write (portReg i portFbu) (areas.fisBuf >>> 32).toUInt32,
    .write (portReg i portSerr) 0xFFFFFFFF,
    .write (portReg i portIs) 0xFFFFFFFF]

/-- The accesses start a port in order: the port is stopped and prepared, a reading shows it
idle, and only then is it started. Nothing but its command register is read. -/
def StartsPort (areas : Areas) (i : ℕ) (new : List Access) : Prop :=
  ∃ cmd before idle last,
    new = .read (portReg i portCmd) cmd::before++[.read (portReg i portCmd) idle,
      .read (portReg i portCmd) last,.write (portReg i portCmd) (last ||| portCmdFre ||| portCmdSt)] ∧
    before.filter Access.isWrite = prepared areas i cmd ∧
    (∀ a ∈ before, a.isWrite = false → ∃ value, a = .read (portReg i portCmd) value) ∧
    idle &&& portCmdCr = 0

theorem ahciPortAddr_eq {drv : Driver} (hbase : drv.base = ahciBase) {i : ℕ} (hi : i < ahciMaxPorts)
    (offset : ℕ) : ahciPortAddr drv i offset = portReg i offset := by
  have hsmall : i*hbaPortSize < 2^32 := by
    simp only [ahciMaxPorts,hbaPortSize] at hi ⊢
    omega
  rw [ahciPortAddr,hbase,Nat.mod_eq_of_lt hsmall,portReg]

theorem portReg_inj {i j offset offset' : ℕ} (ho : offset < hbaPortSize) (ho' : offset' < hbaPortSize)
    (h : portReg i offset = portReg j offset') : i = j := by
  simp only [portReg,hbaPortSize] at ho ho' h
  omega

theorem pi_ne_portReg (i offset : ℕ) : ahciBase+hbaPi ≠ portReg i offset := by
  simp only [portReg,hbaPi,hbaPortBase]
  omega

section Ports
variable {areas : Areas} {drv : Driver} {i : ℕ} (hbase : drv.base = ahciBase) (hi : i < ahciMaxPorts)
include hbase hi

theorem ahciPortStop_ran (b : Bus) :
    ∃ polls polls',
      Ran b ([.read (portReg i portCmd) (ahciRead32 (portReg i portCmd) b).1,
          .write (portReg i portCmd) ((ahciRead32 (portReg i portCmd) b).1 &&& ~~~portCmdSt)]++polls++
        [.write (portReg i portCmd)
          ((ahciRead32 (portReg i portCmd) b).1 &&& ~~~portCmdSt &&& ~~~portCmdFre)]++polls')
        (ahciPortStop drv i b) ∧
      OnlyReads (portReg i portCmd) polls ∧ OnlyReads (portReg i portCmd) polls' := by
  simp only [ahciPortStop,ahciPortAddr_eq hbase hi]
  have hread := Ran.read (portReg i portCmd) b
  have hstop := Ran.write (portReg i portCmd) ((ahciRead32 (portReg i portCmd) b).1 &&& ~~~portCmdSt)
    (ahciRead32 (portReg i portCmd) b).2
  obtain ⟨polls,hpolls,honly⟩ := pollClear_ran (portReg i portCmd) portCmdCr 500 (ahciWrite32
    (portReg i portCmd) ((ahciRead32 (portReg i portCmd) b).1 &&& ~~~portCmdSt)
    (ahciRead32 (portReg i portCmd) b).2)
  generalize pollClear (portReg i portCmd) portCmdCr 500 _ = b₁ at hpolls ⊢
  have hfre := Ran.write (portReg i portCmd)
    ((ahciRead32 (portReg i portCmd) b).1 &&& ~~~portCmdSt &&& ~~~portCmdFre) b₁
  obtain ⟨polls',hpolls',honly'⟩ := pollClear_ran (portReg i portCmd) portCmdFr 500 (ahciWrite32
    (portReg i portCmd) ((ahciRead32 (portReg i portCmd) b).1 &&& ~~~portCmdSt &&& ~~~portCmdFre) b₁)
  exact ⟨polls,polls',((((hread.trans hstop).trans hpolls).trans hfre).trans hpolls'),honly,honly'⟩

theorem portSetup_ran (b : Bus) (cmd : UInt32) :
    Ran b ((prepared areas i cmd).drop 2) (portSetup areas drv i b) := by
  simp only [portSetup,ahciPortAddr_eq hbase hi]
  exact ((((((Ran.write ..).trans (Ran.write ..)).trans (Ran.write ..)).trans (Ran.write ..)).trans
    (Ran.write ..)).trans (Ran.write ..))

theorem ahciPortStart_ran {turns : ℕ} {b b' : Bus} (h : ahciPortStart turns drv i b = some b') :
    ∃ polls idle last, Ran b (polls++[.read (portReg i portCmd) idle,.read (portReg i portCmd) last,
        .write (portReg i portCmd) (last ||| portCmdFre ||| portCmdSt)]) b' ∧
      OnlyReads (portReg i portCmd) polls ∧ idle &&& portCmdCr = 0 := by
  simp only [ahciPortStart,ahciPortAddr_eq hbase hi,Option.bind_eq_bind,Option.bind_eq_some_iff] at h
  obtain ⟨b₁,hwait,hstart⟩ := h
  obtain ⟨polls,idle,hran,honly,hidle⟩ := awaitIdle_ran hwait
  obtain rfl := Option.some.inj hstart
  refine ⟨polls,idle,(ahciRead32 (portReg i portCmd) b₁).1,?_,honly,hidle⟩
  have hlast := (hran.trans (Ran.read (portReg i portCmd) b₁)).trans (Ran.write (portReg i portCmd)
    ((ahciRead32 (portReg i portCmd) b₁).1 ||| portCmdFre ||| portCmdSt) _)
  simpa only [List.append_assoc,List.cons_append,List.nil_append] using hlast

theorem ahciPortInit_ran {turns : ℕ} {b b' : Bus} (h : ahciPortInit turns areas drv i b = some b') :
    ∃ new, Ran b new b' ∧ StartsPort areas i new := by
  obtain ⟨polls,polls',hstop,honly,honly'⟩ := ahciPortStop_ran hbase hi b
  generalize (ahciRead32 (portReg i portCmd) b).1 = cmd at hstop
  have hsetup : Ran (ahciPortStop drv i b) ((prepared areas i cmd).drop 2) _ :=
    portSetup_ran hbase hi (ahciPortStop drv i b) cmd
  obtain ⟨waits,idle,last,hstart,hwaits,hidle⟩ := ahciPortStart_ran hbase hi h
  refine ⟨_,(hstop.trans hsetup).trans hstart,cmd,
    [.write (portReg i portCmd) (cmd &&& ~~~portCmdSt)]++polls++
      [.write (portReg i portCmd) (cmd &&& ~~~portCmdSt &&& ~~~portCmdFre)]++polls'++
      (prepared areas i cmd).drop 2++waits,idle,last,?_,?_,?_,hidle⟩
  · simp only [List.append_assoc,List.cons_append,List.nil_append]
  · simp only [List.filter_append,honly.filter_isWrite,honly'.filter_isWrite,hwaits.filter_isWrite,
      List.append_nil]
    rfl
  · intro a ha hread
    simp only [List.mem_append,List.mem_singleton] at ha
    rcases ha with ((((rfl | ha) | rfl) | ha) | ha) | ha
    · cases hread
    · exact honly a ha
    · cases hread
    · exact honly' a ha
    · have hwrite : ∀ a ∈ (prepared areas i cmd).drop 2, a.isWrite = true := by
        simp [prepared,Access.isWrite]
      exact absurd hread (by simp [hwrite a ha])
    · exact hwaits a ha

end Ports

/-- The accesses of one turn, when `new` are those that start the port. -/
def scanned (pi : UInt32) (i : ℕ) (ssts : UInt32) (new : List Access) : List Access :=
  if implemented pi i then .read (portReg i portSsts) ssts::(if hasDrive ssts then new else []) else []

def OfPort (i : ℕ) (new : List Access) : Prop := ∀ a ∈ new, ∃ offset < hbaPortSize, a.addr = portReg i offset

theorem StartsPort.ofPort {areas : Areas} {i : ℕ} {new : List Access} (h : StartsPort areas i new) :
    OfPort i new := by
  obtain ⟨cmd,before,idle,last,rfl,hwrites,hreads,-⟩ := h
  have hcmd : ∃ offset < hbaPortSize, portReg i portCmd = portReg i offset := ⟨portCmd,by decide,rfl⟩
  intro a ha
  rw [List.cons_append,List.mem_cons,List.mem_append] at ha
  rcases ha with rfl | ha | ha
  · exact hcmd
  · cases hwrite : a.isWrite with
    | false =>
      obtain ⟨value,rfl⟩ := hreads a ha hwrite
      exact hcmd
    | true =>
      have hmem : a ∈ prepared areas i cmd := hwrites ▸ List.mem_filter.mpr ⟨ha,hwrite⟩
      simp only [prepared,List.mem_cons,List.not_mem_nil,or_false] at hmem
      rcases hmem with rfl | rfl | rfl | rfl | rfl | rfl | rfl | rfl
      all_goals exact ⟨_,by decide,rfl⟩
  · simp only [List.mem_cons,List.not_mem_nil,or_false] at ha
    rcases ha with rfl | rfl | rfl
    all_goals exact hcmd

theorem scanned_ofPort {areas : Areas} {pi ssts : UInt32} {i : ℕ} {new : List Access}
    (h : implemented pi i && hasDrive ssts → StartsPort areas i new) : OfPort i (scanned pi i ssts new) := by
  intro a ha
  rw [scanned] at ha
  split_ifs at ha with hpi hdrive
  · rcases List.mem_cons.mp ha with rfl | hlater
    · exact ⟨portSsts,by decide,rfl⟩
    · exact (h (by rw [hpi,hdrive,Bool.and_self])).ofPort a hlater
  · rw [List.mem_singleton.mp ha]
    exact ⟨portSsts,by decide,rfl⟩
  · exact absurd ha List.not_mem_nil

theorem OfPort.other {i j offset : ℕ} {new : List Access} (h : OfPort i new) (hne : j ≠ i)
    (ho : offset < hbaPortSize) : ∀ a ∈ new, a.addr ≠ portReg j offset := by
  intro a ha heq
  obtain ⟨offset',ho',haddr⟩ := h a ha
  exact hne (portReg_inj ho ho' (heq.symm.trans haddr))

section Turns
variable {areas : Areas} {pi : UInt32} {turns : ℕ}

theorem initTurn_spec {drv drv' : Driver} {b b' : Bus} {i : ℕ} (hbase : drv.base = ahciBase)
    (hi : i < ahciMaxPorts) (h : initTurn turns areas pi (drv,b) i = some (drv',b')) :
    (drv' = if implemented pi i && hasDrive (sstsOf b i) then addPort drv i else drv) ∧
      ∃ new, Ran b (scanned pi i (sstsOf b i) new) b' ∧
        (implemented pi i && hasDrive (sstsOf b i) → StartsPort areas i new) := by
  simp only [initTurn,ahciPortAddr_eq hbase hi,scanned] at h ⊢
  cases hpi : implemented pi i with
  | false =>
    rw [hpi,if_neg Bool.false_ne_true] at h
    obtain ⟨rfl,rfl⟩ := Prod.mk.inj (Option.some.inj h)
    exact ⟨rfl,[],Ran.refl b,fun hfalse => absurd hfalse Bool.false_ne_true⟩
  | true =>
    rw [hpi,if_pos rfl] at h
    have hread : Ran b [.read (portReg i portSsts) (sstsOf b i)] _ := Ran.read (portReg i portSsts) b
    change (if hasDrive (sstsOf b i) then _ else _) = _ at h
    cases hdrive : hasDrive (sstsOf b i) with
    | false =>
      rw [hdrive,if_neg Bool.false_ne_true] at h
      obtain ⟨rfl,rfl⟩ := Prod.mk.inj (Option.some.inj h)
      exact ⟨rfl,[],hread,fun hfalse => absurd hfalse Bool.false_ne_true⟩
    | true =>
      rw [hdrive,if_pos rfl,Option.bind_eq_bind,Option.bind_eq_some_iff] at h
      obtain ⟨b₁,hinit,hsome⟩ := h
      obtain ⟨rfl,rfl⟩ := Prod.mk.inj (Option.some.inj hsome)
      obtain ⟨new,hran,hstarts⟩ := ahciPortInit_ran hbase hi hinit
      exact ⟨rfl,new,hread.trans hran,fun _ => hstarts⟩

def found (pi : UInt32) (ssts : ℕ → UInt32) (is : List ℕ) : List ℕ :=
  is.filter fun i => implemented pi i && hasDrive (ssts i)

/-- The status of a port that is looked at later is not read before. -/
theorem initTurns_spec {is : List ℕ} (hnodup : is.Nodup) (hlt : ∀ i ∈ is, i < ahciMaxPorts)
    {drv drv' : Driver} {b b' : Bus} (hbase : drv.base = ahciBase) {ssts : ℕ → UInt32}
    (hssts : ∀ i ∈ is, sstsOf b i = ssts i)
    (h : is.foldlM (initTurn turns areas pi) (drv,b) = some (drv',b')) :
    drv' = (found pi ssts is).foldl addPort drv ∧
      ∃ runs : ℕ → List Access, Ran b (is.flatMap fun i => scanned pi i (ssts i) (runs i)) b' ∧
        ∀ i ∈ found pi ssts is, StartsPort areas i (runs i) := by
  induction is generalizing drv b with
  | nil =>
    obtain ⟨rfl,rfl⟩ := Prod.mk.inj (Option.some.inj h)
    exact ⟨rfl,fun _ => [],Ran.refl b,fun i hi => absurd hi List.not_mem_nil⟩
  | cons i is ih =>
    rw [List.foldlM_cons,Option.bind_eq_bind,Option.bind_eq_some_iff] at h
    obtain ⟨⟨drv₁,b₁⟩,hturn,hrest⟩ := h
    obtain ⟨hnotin,hnodup⟩ := List.nodup_cons.mp hnodup
    obtain ⟨hdrv,new,hran,hstarts⟩ := initTurn_spec hbase (hlt i List.mem_cons_self) hturn
    rw [hssts i List.mem_cons_self] at hdrv hran hstarts
    have hbase₁ : drv₁.base = ahciBase := by
      rw [hdrv]
      split_ifs
      · exact hbase
      · exact hbase
    have hssts₁ : ∀ j ∈ is, sstsOf b₁ j = ssts j := by
      intro j hj
      have hne : j ≠ i := fun heq => hnotin (heq ▸ hj)
      rw [← hssts j (List.mem_cons_of_mem i hj)]
      exact hran.answer_eq ((scanned_ofPort hstarts).other hne (by decide))
    obtain ⟨hdrv',runs,hran',hstarts'⟩ := ih hnodup (fun j hj => hlt j (List.mem_cons_of_mem i hj))
      hbase₁ hssts₁ hrest
    refine ⟨?_,Function.update runs i new,?_,?_⟩
    · rw [hdrv',hdrv,found,found,List.filter_cons]
      split_ifs
      · rfl
      · rfl
    · rw [List.flatMap_cons,Function.update_self]
      have hsame : (is.flatMap fun j => scanned pi j (ssts j) (Function.update runs i new j)) =
          is.flatMap fun j => scanned pi j (ssts j) (runs j) := by
        refine List.flatMap_congr fun j hj => ?_
        rw [Function.update_of_ne fun heq : j = i => hnotin (heq ▸ hj)]
      rw [hsame]
      exact hran.trans hran'
    · intro j hj
      obtain ⟨hmem,hdrive⟩ := List.mem_filter.mp hj
      rcases List.mem_cons.mp hmem with rfl | hmem
      · rw [Function.update_self]
        exact hstarts hdrive
      · rw [Function.update_of_ne fun heq : j = i => hnotin (heq ▸ hmem)]
        exact hstarts' j (List.mem_filter.mpr ⟨hmem,hdrive⟩)

end Turns

/-- The port comes idle again and again, however often it is asked. -/
def ComesIdle (b : Bus) (i : ℕ) : Prop :=
  ∀ n, ∃ k ≥ n, b.answer (portReg i portCmd) k &&& portCmdCr = 0

/-- With enough turns the computation ends, and how many there are makes no difference. -/
def Settles {α : Type*} (f : ℕ → Option α) : Prop := ∃ r n, ∀ turns ≥ n, f turns = some r

theorem Settles.bind {α β : Type*} {f : ℕ → Option α} {g : ℕ → α → Option β} (hf : Settles f)
    (hg : ∀ turns r, f turns = some r → Settles fun turns => g turns r) :
    Settles fun turns => (f turns).bind (g turns) := by
  obtain ⟨r,n,hr⟩ := hf
  obtain ⟨r',n',hr'⟩ := hg n r (hr n le_rfl)
  refine ⟨r',max n n',fun turns hle => ?_⟩
  show (f turns).bind (g turns) = some r'
  rw [hr turns (le_of_max_le_left hle)]
  exact hr' turns (le_of_max_le_right hle)

theorem awaitIdle_idle {cmdReg : ℕ} {b : Bus} (h : (ahciRead32 cmdReg b).1 &&& portCmdCr = 0) :
    ∀ turns ≥ 1, awaitIdle cmdReg turns b = some (ahciRead32 cmdReg b).2 := by
  intro turns hle
  obtain ⟨n,rfl⟩ := Nat.exists_eq_add_of_le' hle
  exact if_pos h

theorem awaitIdle_turns {cmdReg : ℕ} (k : ℕ) (b : Bus)
    (h : b.answer cmdReg (b.reads cmdReg+k) &&& portCmdCr = 0) :
    ∃ b', ∀ turns ≥ k+1, awaitIdle cmdReg turns b = some b' := by
  induction k generalizing b with
  | zero => exact ⟨_,awaitIdle_idle h⟩
  | succ k ih =>
    by_cases hfirst : (ahciRead32 cmdReg b).1 &&& portCmdCr = 0
    · exact ⟨_,fun turns hle => awaitIdle_idle hfirst turns (by omega)⟩
    have hreads : (ahciRead32 cmdReg b).2.reads cmdReg = b.reads cmdReg+1 := Function.update_self ..
    obtain ⟨b',hb'⟩ := ih (ahciRead32 cmdReg b).2 (by
      rw [hreads,Nat.add_assoc,Nat.add_comm 1]
      exact h)
    refine ⟨b',fun turns hle => ?_⟩
    obtain ⟨n,rfl⟩ := Nat.exists_eq_add_of_le' hle
    exact (if_neg hfirst).trans (hb' (n+(k+1)) (Nat.le_add_left ..))

section Returns
variable {areas : Areas} {drv : Driver} {i : ℕ} (hbase : drv.base = ahciBase) (hi : i < ahciMaxPorts)
include hbase hi

theorem ahciPortStart_settles {b : Bus} (h : ComesIdle b i) :
    Settles fun turns => ahciPortStart turns drv i b := by
  have hwait : Settles fun turns => awaitIdle (portReg i portCmd) turns b := by
    obtain ⟨k,hk,hidle⟩ := h (b.reads (portReg i portCmd))
    obtain ⟨n,rfl⟩ := Nat.exists_eq_add_of_le hk
    obtain ⟨b',hb'⟩ := awaitIdle_turns n b hidle
    exact ⟨b',n+1,hb'⟩
  simp only [ahciPortStart,ahciPortAddr_eq hbase hi]
  exact hwait.bind fun turns b' _ => ⟨_,0,fun _ _ => rfl⟩

theorem ahciPortInit_settles {b : Bus} (h : ComesIdle b i) :
    Settles fun turns => ahciPortInit turns areas drv i b := by
  obtain ⟨_,_,hstop,-⟩ := ahciPortStop_ran hbase hi b
  have hsetup : Ran (ahciPortStop drv i b) ((prepared areas i 0).drop 2) _ :=
    portSetup_ran hbase hi (ahciPortStop drv i b) 0
  apply ahciPortStart_settles hbase hi
  rw [ComesIdle,(hstop.trans hsetup).answer]
  exact h

theorem initTurn_settles {pi : UInt32} {b : Bus}
    (h : implemented pi i && hasDrive (sstsOf b i) → ComesIdle b i) :
    Settles fun turns => initTurn turns areas pi (drv,b) i := by
  simp only [initTurn,ahciPortAddr_eq hbase hi]
  cases hpi : implemented pi i with
  | false => exact ⟨_,0,fun _ _ => if_neg Bool.false_ne_true⟩
  | true =>
    simp only [if_true]
    change Settles fun turns => if hasDrive (sstsOf b i) then _ else _
    cases hdrive : hasDrive (sstsOf b i) with
    | false => exact ⟨_,0,fun _ _ => if_neg Bool.false_ne_true⟩
    | true =>
      simp only [if_true]
      have hidle : ComesIdle (ahciRead32 (portReg i portSsts) b).2 i := h (by rw [hpi,hdrive]; rfl)
      exact (ahciPortInit_settles hbase hi hidle).bind fun _ _ _ => ⟨_,0,fun _ _ => rfl⟩

end Returns

theorem initTurns_settles {areas : Areas} {pi : UInt32} {is : List ℕ} (hnodup : is.Nodup)
    (hlt : ∀ i ∈ is, i < ahciMaxPorts) {drv : Driver} {b : Bus} (hbase : drv.base = ahciBase)
    (h : ∀ i ∈ found pi (sstsOf b) is, ComesIdle b i) :
    Settles fun turns => is.foldlM (initTurn turns areas pi) (drv,b) := by
  induction is generalizing drv b with
  | nil => exact ⟨_,0,fun _ _ => rfl⟩
  | cons i is ih =>
    obtain ⟨hnotin,hnodup⟩ := List.nodup_cons.mp hnodup
    have hi := hlt i List.mem_cons_self
    have hfirst : implemented pi i && hasDrive (sstsOf b i) → ComesIdle b i := fun hdrive =>
      h i (List.mem_filter.mpr ⟨List.mem_cons_self,hdrive⟩)
    simp only [List.foldlM_cons]
    refine (initTurn_settles hbase hi hfirst).bind fun turns s hturn => ?_
    obtain ⟨drv₁,b₁⟩ := s
    obtain ⟨hdrv,new,hran,hstarts⟩ := initTurn_spec hbase hi hturn
    have hbase₁ : drv₁.base = ahciBase := by
      rw [hdrv]
      split_ifs
      · exact hbase
      · exact hbase
    refine ih hnodup (fun j hj => hlt j (List.mem_cons_of_mem i hj)) hbase₁ fun j hj => ?_
    obtain ⟨hmem,hdrive⟩ := List.mem_filter.mp hj
    have hne : j ≠ i := fun heq => hnotin (heq ▸ hmem)
    have hssts : sstsOf b₁ j = sstsOf b j :=
      hran.answer_eq ((scanned_ofPort hstarts).other hne (by decide))
    rw [hssts] at hdrive
    rw [ComesIdle,hran.answer]
    exact h j (List.mem_filter.mpr ⟨List.mem_cons_of_mem i hmem,hdrive⟩)

theorem addPorts_count (is : List ℕ) (drv : Driver) :
    (is.foldl addPort drv).portCount = drv.portCount+is.length ∧
      (is.foldl addPort drv).base = drv.base ∧
      (is.foldl addPort drv).initialized = drv.initialized := by
  induction is generalizing drv with
  | nil => exact ⟨rfl,rfl,rfl⟩
  | cons i is ih =>
    obtain ⟨hcount,hbase,hinit⟩ := ih (addPort drv i)
    refine ⟨?_,hbase,hinit⟩
    rw [List.foldl_cons,hcount,addPort,List.length_cons,Nat.add_right_comm,Nat.add_assoc]

theorem addPorts_below (is : List ℕ) (drv : Driver) {k : ℕ} (hk : k < drv.portCount) :
    (is.foldl addPort drv).ports k = drv.ports k := by
  induction is generalizing drv with
  | nil => rfl
  | cons i is ih =>
    rw [List.foldl_cons,ih (addPort drv i) (Nat.lt_succ_of_lt hk),addPort]
    exact Function.update_of_ne (Nat.ne_of_lt hk) ..

theorem addPorts_ports (is : List ℕ) (drv : Driver) {k i : ℕ} (h : is[k]? = some i) :
    (is.foldl addPort drv).ports (drv.portCount+k) = ⟨1,i⟩ := by
  induction is generalizing drv k with
  | nil => exact absurd h (by simp)
  | cons j is ih =>
    rw [List.foldl_cons]
    cases k with
    | zero =>
      obtain rfl : j = i := by simpa using h
      rw [Nat.add_zero,addPorts_below is (addPort drv j) (Nat.lt_succ_self _),addPort]
      exact Function.update_self ..
    | succ k =>
      rw [Nat.add_comm k 1,← Nat.add_assoc]
      exact ih (addPort drv j) (by simpa using h)

/-- The controller is taken over: its ports with a drive are started in order, no other
register is written but the one that enables AHCI, and the driver lists just these ports. -/
structure TakesOver (areas : Areas) (b : Bus) (r : ℤ) (drv' : Driver) (b' : Bus) : Prop where
  base : drv'.base = ahciBase
  count : drv'.portCount = (drives b).length
  ports : ∀ k i, (drives b)[k]? = some i → drv'.ports k = ⟨1,i⟩
  initialized : drv'.initialized = if drives b = [] then 0 else 1
  result : r = if drives b = [] then -1 else 0
  log : ∃ runs : ℕ → List Access, (∀ i ∈ drives b, StartsPort areas i (runs i)) ∧
    b'.log = b.log++(.write (ahciBase+hbaGhc) hbaGhcAe::.read (ahciBase+hbaPi) (piOf b)::
      (List.range ahciMaxPorts).flatMap fun i => scanned (piOf b) i (sstsOf b i) (runs i))

section Init
variable (areas : Areas) (drv : Driver) (b : Bus)

def reset : Driver := { drv with base := ahciBase, portCount := 0, initialized := 0 }

def enabled : Bus := (ahciRead32 (ahciBase+hbaPi) (ahciWrite32 (ahciBase+hbaGhc) hbaGhcAe b)).2

theorem enabled_ran :
    Ran b [.write (ahciBase+hbaGhc) hbaGhcAe,.read (ahciBase+hbaPi) (piOf b)] (enabled b) :=
  (Ran.write ..).trans (Ran.read ..)

theorem sstsOf_enabled (i : ℕ) : sstsOf (enabled b) i = sstsOf b i := by
  apply (enabled_ran b).answer_eq
  intro a ha
  simp only [List.mem_cons,List.not_mem_nil,or_false] at ha
  rcases ha with rfl | rfl
  · simp only [Access.addr,portReg,hbaGhc,hbaPortBase]
    omega
  · exact pi_ne_portReg i portSsts

theorem found_eq_drives : found (piOf b) (sstsOf b) (List.range ahciMaxPorts) = drives b := rfl

theorem ahciInit_eq (turns : ℕ) :
    ahciInit turns areas drv b =
      ((List.range ahciMaxPorts).foldlM (initTurn turns areas (piOf b)) (reset drv,enabled b)).bind
        fun s => if s.1.portCount = 0 then some (-1,s.1,s.2) else some (0,{ s.1 with initialized := 1 },s.2) := by
  rfl

theorem ahciInit_takesOver {turns : ℕ} {r : ℤ} {drv' : Driver} {b' : Bus}
    (h : ahciInit turns areas drv b = some (r,drv',b')) : TakesOver areas b r drv' b' := by
  rw [ahciInit_eq,Option.bind_eq_some_iff] at h
  obtain ⟨⟨drv₁,b₁⟩,hturns,hend⟩ := h
  obtain ⟨hdrv,runs,hran,hstarts⟩ := initTurns_spec List.nodup_range
    (fun i hi => List.mem_range.mp hi) rfl (fun i _ => sstsOf_enabled b i) hturns
  rw [found_eq_drives] at hdrv hstarts
  obtain ⟨hcount,hbase,hinit⟩ := addPorts_count (drives b) (reset drv)
  rw [← hdrv] at hcount hbase hinit
  have hlength : drv₁.portCount = (drives b).length := hcount.trans (Nat.zero_add _)
  have hports : ∀ k i, (drives b)[k]? = some i → drv₁.ports k = ⟨1,i⟩ := by
    intro k i hi
    have hport := addPorts_ports (drives b) (reset drv) hi
    rw [← hdrv] at hport
    rwa [show (reset drv).portCount = 0 from rfl,Nat.zero_add] at hport
  have hlog : b₁.log = b.log++(.write (ahciBase+hbaGhc) hbaGhcAe::.read (ahciBase+hbaPi) (piOf b)::
      (List.range ahciMaxPorts).flatMap fun i => scanned (piOf b) i (sstsOf b i) (runs i)) :=
    ((enabled_ran b).trans hran).log
  have hnone : drv₁.portCount = 0 ↔ drives b = [] := by rw [hlength,List.length_eq_zero_iff]
  by_cases hempty : drives b = []
  · rw [if_pos (hnone.mpr hempty)] at hend
    obtain ⟨rfl,rfl,rfl⟩ : (-1 : ℤ) = r ∧ drv₁ = drv' ∧ b₁ = b' := by simpa using hend
    exact ⟨hbase,hlength,hports,by rw [if_pos hempty,hinit]; rfl,(if_pos hempty).symm,runs,hstarts,hlog⟩
  · rw [if_neg (hnone.not.mpr hempty)] at hend
    obtain ⟨rfl,rfl,rfl⟩ : (0 : ℤ) = r ∧ { drv₁ with initialized := 1 } = drv' ∧ b₁ = b' := by
      simpa using hend
    exact ⟨hbase,hlength,hports,(if_neg hempty).symm,(if_neg hempty).symm,runs,hstarts,hlog⟩

theorem ahciInit_settles (h : ∀ i ∈ drives b, ComesIdle b i) :
    Settles fun turns => ahciInit turns areas drv b := by
  have hssts : sstsOf (enabled b) = sstsOf b := funext (sstsOf_enabled b)
  have hidle : ∀ i ∈ found (piOf b) (sstsOf (enabled b)) (List.range ahciMaxPorts),
      ComesIdle (enabled b) i := by
    rw [hssts]
    exact h
  simp only [ahciInit_eq]
  refine (initTurns_settles List.nodup_range (fun i hi => List.mem_range.mp hi) rfl hidle).bind
    fun turns s _ => ?_
  by_cases hcount : s.1.portCount = 0
  · exact ⟨_,0,fun _ _ => if_pos hcount⟩
  · exact ⟨_,0,fun _ _ => if_neg hcount⟩

end Init

/-- Requests go to the first drive; without one they are refused, and the controller is
left alone. -/
theorem TakesOver.access {areas : Areas} {b b' : Bus} {r : ℤ} {drv' : Driver}
    (h : TakesOver areas b r drv' b') (ctba lba count buf : ℕ) (write : Bool) (c : Bus) :
    ahciAccess ctba lba count buf write drv' c =
      match drives b with
      | [] => (-1,drv',c)
      | i::_ => ahciSendCmd ctba i lba count buf write drv' c := by
  cases hdrives : drives b with
  | nil =>
    have hzero : drv'.initialized = 0 := by rw [h.initialized,if_pos hdrives]
    exact if_pos hzero
  | cons i is =>
    have hone : drv'.initialized ≠ 0 := by
      rw [h.initialized,if_neg (by rw [hdrives]; exact List.cons_ne_nil i is)]
      exact one_ne_zero
    have hcount : drv'.portCount ≠ 0 := by
      rw [h.count,hdrives]
      exact Nat.succ_ne_zero _
    have hport : drv'.ports 0 = ⟨1,i⟩ := h.ports 0 i (by rw [hdrives]; rfl)
    rw [ahciAccess,if_neg hone,if_neg hcount,hport]
    split_ifs with hbuf
    · exact (if_pos hbuf).symm
    · rfl

/-- Whatever the controller answers: when `ahci_init` returns, it has taken the controller
over and later requests go to the first drive, and it does return if every port with a drive
comes idle again and again. -/
theorem init_spec (areas : Areas) (drv : Driver) (b : Bus) :
    (∀ turns r drv' b', ahciInit turns areas drv b = some (r,drv',b') →
      TakesOver areas b r drv' b' ∧
      ∀ ctba lba count buf write c, ahciAccess ctba lba count buf write drv' c =
        match drives b with
        | [] => (-1,drv',c)
        | i::_ => ahciSendCmd ctba i lba count buf write drv' c) ∧
    ((∀ i ∈ drives b, ComesIdle b i) → Settles fun turns => ahciInit turns areas drv b) := by
  refine ⟨fun turns r drv' b' h => ?_,ahciInit_settles areas drv b⟩
  have htakes := ahciInit_takesOver areas drv b h
  exact ⟨htakes,htakes.access⟩

/-- A controller with the ports 0 and 2, and a drive at the second. -/
def twoPorts : Bus :=
  ⟨fun addr _ => if addr = ahciBase+hbaPi then 5 else if addr = portReg 2 portSsts then 0x123 else 0,
    fun _ => 0,[]⟩

theorem init_spec_two :
    (∃ r drv' b', ahciInit 1 ⟨0x8000,0x9000⟩ readyDriver twoPorts = some (r,drv',b') ∧ r = 0 ∧
      drv'.portCount = 1 ∧ drv'.ports 0 = ⟨1,2⟩) ∧
    Settles fun turns => ahciInit turns ⟨0x8000,0x9000⟩ readyDriver twoPorts := by
  have hdrives : drives twoPorts = [2] := by decide
  obtain ⟨hreturns,hsettles⟩ := init_spec ⟨0x8000,0x9000⟩ readyDriver twoPorts
  constructor
  · obtain ⟨⟨r,drv',b'⟩,hrun⟩ := Option.isSome_iff_exists.mp
      (show (ahciInit 1 ⟨0x8000,0x9000⟩ readyDriver twoPorts).isSome by decide)
    obtain ⟨htakes,-⟩ := hreturns 1 r drv' b' hrun
    refine ⟨r,drv',b',hrun,?_,?_,htakes.ports 0 2 (by rw [hdrives]; rfl)⟩
    · rw [htakes.result,hdrives]
      rfl
    · rw [htakes.count,hdrives]
      rfl
  · apply hsettles
    intro i hi n
    rw [hdrives] at hi
    refine ⟨n,le_rfl,?_⟩
    rw [List.mem_singleton.mp hi]
    have hzero : twoPorts.answer (portReg 2 portCmd) n = 0 := by
      show (if portReg 2 portCmd = ahciBase+hbaPi then 5 else
        if portReg 2 portCmd = portReg 2 portSsts then 0x123 else 0) = (0 : UInt32)
      decide
    rw [hzero]
    decide

end Ahci
end ValiantCore
