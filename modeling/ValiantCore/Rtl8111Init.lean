import ValiantCore.PciEnumeration
import ValiantCore.Rtl8111

/-! How `drivers/ethernet/realtek/rtl8111.c` takes over the card: `rtl8111_init` looks for it with a
scan of its own, resets it and sets it up. Its accesses to the bridge are of 32 bits, so they
arrive at every bridge, which those of `pci.c` do not. -/
namespace ValiantCore
namespace Rtl8111

open Reading

def rtlVendorId : ℕ := 0x10EC
def rtlDevice8111 : ℕ := 0x8168
def rtlDevice8111b : ℕ := 0x8136
def rtlDevice8111c : ℕ := 0x8169
def rtlMaco : ℕ := 0x00
def rtlRxbuf : ℕ := 0x30
def rtlCmd : ℕ := 0x37
def rtlImr : ℕ := 0x3C
def rtlTcr : ℕ := 0x40
def rtlRcr : ℕ := 0x44
def rtlConfig1 : ℕ := 0x52
def rtlMsr : ℕ := 0x58
def rtlCmdReset : UInt8 := 0x10
def rtlCmdRxEn : UInt8 := 0x08
def rtlCmdTxEn : UInt8 := 0x04
def rtlMsrLink : UInt8 := 0x04
def rtlRcrApm : UInt32 := 0x02
def rtlRcrAb : UInt32 := 0x08
def rtlRcrWrap : UInt32 := 0x80
def rtlRcrRblen : UInt32 := 0x1800
def rtlRcrMxdma : UInt32 := 0x0700
def pciConfigAddr : ℕ := 0xCF8
def pciConfigData : ℕ := 0xCFC
def pciBaro : ℕ := 0x10
def pciCmd : ℕ := 0x04

def known (vendor device : ℕ) : Bool :=
  vendor == rtlVendorId &&
    (device == rtlDevice8111 || device == rtlDevice8111b || device == rtlDevice8111c)

section Find
variable (react : Pci.React)

def pciAddr (bus slot func offset : ℕ) : ℕ :=
  bus <<< 16 ||| slot <<< 11 ||| func <<< 8 ||| (offset &&& 0xFC) ||| 0x80000000

def pciRead32 (bus slot func offset : ℕ) : StateM Pci.Bridge ℕ :=
  modifyGet fun b =>
    let b := Pci.outl react b pciConfigAddr (pciAddr bus slot func offset)
    (Pci.inl b pciConfigData,b)

def pciWrite32 (bus slot func offset val : ℕ) : StateM Pci.Bridge Unit :=
  modify fun b => Pci.outl react (Pci.outl react b pciConfigAddr (pciAddr bus slot func offset)) pciConfigData val

/-- One turn of the loops of `rtl_find_device`: the base address of the card, if there is one. -/
def findTurn (bus slot : ℕ) : StateM Pci.Bridge (Option ℕ) := do
  let id ← pciRead32 react bus slot 0 0
  if known (id &&& 0xFFFF) (id >>> 16 &&& 0xFFFF) then
    let cmd ← pciRead32 react bus slot 0 pciCmd
    pciWrite32 react bus slot 0 pciCmd (cmd ||| 0x07)
    let bar ← pciRead32 react bus slot 0 pciBaro
    return some (bar-bar%16)
  else return none

def rtlFindDevice : StateM Pci.Bridge ℕ := do
  let base ← (List.range 256).findSomeM? fun bus => (List.range 32).findSomeM? fun slot =>
    findTurn react bus slot
  return base.getD 0

end Find

/-- What the driver does that can be seen from outside of the bridge. -/
inductive Effect
  | kprint (message : String)
  | inb (port : ℕ) (val : UInt8)
  | outb (port : ℕ) (val : UInt8)
  | outw (port : ℕ) (val : UInt16)
  | outl (port : ℕ) (val : UInt32)
  deriving DecidableEq, Repr

/-- The bridge, the ports of the card (what each of them answers each time it is read, and how
often it was), the effects so far, and the static variables that `rtl8111_init` sets. -/
structure Machine where
  bridge : Pci.Bridge
  answer : ℕ → ℕ → UInt8
  reads : ℕ → ℕ
  log : List Effect
  rtlBase : ℕ
  rtlMac : ℕ → UInt8
  cableStatus : UInt8

def Machine.does (m : Machine) (effects : List Effect) : Machine := { m with log := m.log++effects }

theorem Machine.does_does (m : Machine) (first next : List Effect) :
    (m.does first).does next = m.does (first++next) := by
  rw [does,does,does,List.append_assoc]

/-- The number of a port has 16 bits. -/
def Machine.port (m : Machine) (reg : ℕ) : ℕ := (m.rtlBase+reg)%2^16

@[simp] theorem Machine.port_does (m : Machine) (effects : List Effect) (reg : ℕ) :
    (m.does effects).port reg = m.port reg := rfl

def kprint (message : String) (m : Machine) : Machine := m.does [.kprint message]

def rtlRead8 (reg : ℕ) (m : Machine) : UInt8 × Machine :=
  let port := m.port reg
  let val := m.answer port (m.reads port)
  (val,{ m with reads := Function.update m.reads port (m.reads port+1), log := m.log++[.inb port val] })

def rtlWrite8 (reg : ℕ) (val : UInt8) (m : Machine) : Machine := m.does [.outb (m.port reg) val]

def rtlWrite16 (reg : ℕ) (val : UInt16) (m : Machine) : Machine := m.does [.outw (m.port reg) val]

def rtlWrite32 (reg : ℕ) (val : UInt32) (m : Machine) : Machine := m.does [.outl (m.port reg) val]

/-- `while ((rtl_read8(RTL_CMD) & RTL_CMD_RESET) && timeout--)`, with the `timeout` it leaves. -/
def awaitReset : ℕ → Machine → ℤ × Machine
  | timeout, m =>
    let (cmd,m) := rtlRead8 rtlCmd m
    if cmd &&& rtlCmdReset ≠ 0 then
      match timeout with
      | 0 => (-1,m)
      | timeout+1 => awaitReset timeout m
    else (timeout,m)

def rtlReadMac (m : Machine) : Machine :=
  (List.range 6).foldl (fun m i =>
    let (val,m) := rtlRead8 (rtlMaco+i) m
    { m with rtlMac := Function.update m.rtlMac i val }) m

def rtlCheckCable (m : Machine) : UInt8 × Machine :=
  let (msr,m) := rtlRead8 rtlMsr m
  (if msr &&& rtlMsrLink ≠ 0 then 1 else 0,m)

/-- What `rtl8111_init` does once the card is reset; `rxBuf` is the address of `rx_buf`. -/
def setUp (rxBuf : ℕ) (m : Machine) : Machine :=
  let m := rtlReadMac m
  let m := rtlWrite32 rtlRxbuf (UInt32.ofNat rxBuf) m
  let m := rtlWrite16 rtlImr (UInt16.ofBitVec (rtlIsrRok ||| rtlIsrTok ||| rtlIsrCable)) m
  let m := rtlWrite32 rtlRcr (rtlRcrApm ||| rtlRcrAb ||| rtlRcrWrap ||| rtlRcrRblen ||| rtlRcrMxdma) m
  let m := rtlWrite32 rtlTcr 0x03000700 m
  let m := rtlWrite8 rtlCmd (rtlCmdRxEn ||| rtlCmdTxEn) m
  let m := rtlWrite8 rtlConfig1 0x00 m
  let (cable,m) := rtlCheckCable m
  let m := { m with cableStatus := cable }
  let m := if cable ≠ 0 then kprint "RTL8111 Ethernet Cable connected!\n" m
    else kprint "RTL8111 WARNING: Cable disconnected!\n" m
  kprint "RTL8111 Driver Ready.\n" m

def rtl8111Init (react : Pci.React) (rxBuf : ℕ) (m : Machine) : ℤ × Machine :=
  let m := kprint "RTL8111 Scanning PCI bus...\n" m
  let (base,bridge) := (rtlFindDevice react).run m.bridge
  let m := { m with bridge, rtlBase := base }
  if base = 0 then (-1,kprint "RTL8111 ERROR Device not found!\n" m)
  else
    let m := kprint "RTL8111 Device found! Initializing...\n" m
    let m := rtlWrite8 rtlCmd rtlCmdReset m
    let (timeout,m) := awaitReset 10000 m
    if timeout ≤ 0 then (-1,kprint "ERROR Reset timeout!\n" m)
    else (0,setUp rxBuf m)

def slots : List Pci.Place :=
  (List.range 256).flatMap fun bus => (List.range 32).map fun slot => ⟨bus,slot,0⟩

def IsCard (config : Pci.Config) (p : Pci.Place) : Bool :=
  known (Pci.vendorAt config p) (Bytes.field (config p) Pci.pciDeviceId 2)

def card (config : Pci.Config) : Option Pci.Place := slots.find? (IsCard config)

/-- The configuration once the function at `p` answers to its ports and its memory and may
use the bus. -/
def enabled (react : Pci.React) (config : Pci.Config) (p : Pci.Place) : Pci.Config :=
  Pci.writeRegister react config p pciCmd (Bytes.field (config p) pciCmd 4 ||| 0x07)

/-- The base address that the function at `p` is configured with. -/
def baseAt (config : Pci.Config) (p : Pci.Place) : ℕ :=
  Bytes.field (config p) pciBaro 4-Bytes.field (config p) pciBaro 4%16

theorem mem_slots {p : Pci.Place} : p ∈ slots ↔ p.bus < 256 ∧ p.slot < 32 ∧ p.func = 0 := by
  obtain ⟨bus,slot,func⟩ := p
  simp only [slots,List.mem_flatMap,List.mem_map,List.mem_range,Pci.Place.mk.injEq]
  constructor
  · rintro ⟨_,hbus,_,hslot,rfl,rfl,rfl⟩
    exact ⟨hbus,hslot,rfl⟩
  · rintro ⟨hbus,hslot,rfl⟩
    exact ⟨bus,hbus,slot,hslot,rfl,rfl,rfl⟩

theorem slots_inRange {p : Pci.Place} (hp : p ∈ slots) : p.InRange := by
  obtain ⟨hbus,hslot,hfunc⟩ := mem_slots.mp hp
  exact ⟨hbus,hslot,by omega⟩

section Scan
variable (react : Pci.React)

theorem pciAddr_eq (bus slot func offset : ℕ) : pciAddr bus slot func offset = Pci.pciAddress bus slot func offset := by
  rw [pciAddr,Pci.pciAddress,Nat.or_comm _ 0x80000000,← Nat.or_assoc,← Nat.or_assoc,← Nat.or_assoc]
  rfl

theorem outl_address (b : Pci.Bridge) {p : Pci.Place} (hp : p.InRange) {offset : ℕ} (hoffset : offset < 256) :
    (Pci.outl react b pciConfigAddr (pciAddr p.bus p.slot p.func offset)).selected = some (p,offset/4*4) ∧
    (Pci.outl react b pciConfigAddr (pciAddr p.bus p.slot p.func offset)).config = b.config := by
  have hwritten : Pci.outl react b pciConfigAddr (pciAddr p.bus p.slot p.func offset) =
      { b with address := fun k => UInt8.ofNat (pciAddr p.bus p.slot p.func offset >>> (8*k)) } := if_pos rfl
  have hlt := Pci.pciAddress_lt hp hoffset
  rw [hwritten]
  refine ⟨Pci.selected_of_address hp hoffset ?_,rfl⟩
  rw [← pciAddr_eq] at hlt ⊢
  simp [Bytes.field,Bytes.bytesAt,Bytes.leNat,Nat.shiftRight_eq_div_pow]
  omega

theorem pciWrite32_config {p : Pci.Place} (hp : p.InRange) (b : Pci.Bridge) (val : ℕ) :
    ((pciWrite32 react p.bus p.slot p.func pciCmd val).run b).2.config =
      Pci.writeRegister react b.config p pciCmd val := by
  obtain ⟨hselected,hconfig⟩ := outl_address react b hp (show pciCmd < 256 by decide)
  change (Pci.outl react (Pci.outl react b pciConfigAddr _) pciConfigData val).config = _
  rw [Pci.outl,if_neg (by decide),if_pos (by rfl),hselected]
  exact congrArg (fun config => Pci.writeRegister react config p pciCmd val) hconfig

variable {config : Pci.Config} {p : Pci.Place} (hp : p ∈ slots)
include hp

theorem pciRead32_yields {offset : ℕ} (hoffset : offset < 256) (hword : offset%4 = 0) (config : Pci.Config) :
    Yields Pci.Bridge.config config (pciRead32 react p.bus p.slot 0 offset) (Bytes.field (config p) offset 4) := by
  have haddress := fun b => outl_address react b (slots_inRange hp) hoffset
  rw [(mem_slots.mp hp).2.2] at haddress
  refine Yields.modifyGet ?_ fun b => (haddress b).2
  rintro b rfl
  change Pci.inl (Pci.outl react b pciConfigAddr _) Pci.pciConfigData = _
  rw [Pci.inl_selected (haddress b).1,(haddress b).2,show offset/4*4 = offset by omega]

omit hp in
theorem known_ids (config : Pci.Config) (p : Pci.Place) :
    known (Bytes.field (config p) 0 4 &&& 0xFFFF) (Bytes.field (config p) 0 4 >>> 16 &&& 0xFFFF) =
      IsCard config p := by
  have hmask : ∀ n, n &&& 0xFFFF = n%256^2 := fun n => Nat.and_two_pow_sub_one_eq_mod n 16
  have hvendor := Bytes.field_div_mod (config p) 0 (show 0+2 ≤ 4 by decide)
  have hdevice := Bytes.field_div_mod (config p) 0 (show 2+2 ≤ 4 by decide)
  rw [pow_zero,Nat.div_one] at hvendor
  rw [hmask,hmask,Nat.shiftRight_eq_div_pow,hvendor,show 2^16 = 256^2 by decide,hdevice]
  rfl

theorem findTurn_yields (hno : IsCard config p = false) :
    Yields Pci.Bridge.config config (findTurn react p.bus p.slot) none := by
  have hid := pciRead32_yields react hp (show 0 < 256 by decide) rfl config
  refine hid.bind ?_
  rw [known_ids,hno]
  exact Yields.pure Pci.Bridge.config config none

theorem findTurn_run (hcard : IsCard config p = true) {b : Pci.Bridge} (hb : b.config = config) :
    ∃ b', (findTurn react p.bus p.slot).run b = (some (baseAt (enabled react config p) p),b') ∧
      b'.config = enabled react config p := by
  obtain ⟨b₁,hid,hb₁⟩ := pciRead32_yields react hp (show 0 < 256 by decide) rfl config b hb
  obtain ⟨b₂,hcmd,hb₂⟩ := pciRead32_yields react hp (show pciCmd < 256 by decide) rfl config b₁ hb₁
  have hwrite := pciWrite32_config react (slots_inRange hp) b₂ (Bytes.field (config p) pciCmd 4 ||| 0x07)
  rw [hb₂,(mem_slots.mp hp).2.2] at hwrite
  obtain ⟨b₃,hbar,hb₃⟩ := pciRead32_yields react hp (show pciBaro < 256 by decide) rfl
    (enabled react config p) _ hwrite
  refine ⟨b₃,?_,hb₃⟩
  simp only [findTurn,StateT.run_bind,hid]
  show StateT.run (if known (Bytes.field (config p) 0 4 &&& 0xFFFF)
    (Bytes.field (config p) 0 4 >>> 16 &&& 0xFFFF) = true then _ else _) b₁ = _
  rw [known_ids,if_pos hcard]
  simp only [StateT.run_bind,hcmd]
  show (do
    let bar ← pciRead32 react p.bus p.slot 0 pciBaro
    return some (bar-bar%16) : StateM Pci.Bridge (Option ℕ)).run
      ((pciWrite32 react p.bus p.slot 0 pciCmd (Bytes.field (config p) pciCmd 4 ||| 0x07)).run b₂).2 = _
  simp only [StateT.run_bind,hbar]
  rfl

omit hp

theorem rtlFindDevice_run {b : Pci.Bridge} (hb : b.config = config) :
    match card config with
    | none => ∃ b', (rtlFindDevice react).run b = (0,b') ∧ b'.config = config
    | some p => ∃ b', (rtlFindDevice react).run b = (baseAt (enabled react config p) p,b') ∧
        b'.config = enabled react config p := by
  have hloops : rtlFindDevice react = (do
      let base ← slots.findSomeM? fun p => findTurn react p.bus p.slot
      return base.getD 0) := by
    rw [slots,findSomeM?_flatMap]
    simp only [findSomeM?_map]
    rfl
  have hskip : ∀ p ∈ slots, IsCard config p = false →
      Yields Pci.Bridge.config config (findTurn react p.bus p.slot) none :=
    fun p hp hno => findTurn_yields react hp hno
  have hfound : ∀ p ∈ slots, IsCard config p = true → ∀ s : Pci.Bridge, s.config = config →
      ((findTurn react p.bus p.slot).run s).1.isSome := by
    intro p hp hcard s hs
    obtain ⟨b',hrun,-⟩ := findTurn_run react hp hcard hs
    rw [hrun]
    rfl
  have hsearch := findSomeM?_run hskip hfound hb
  rw [← card] at hsearch
  rw [hloops]
  cases hfirst : card config with
  | none =>
    rw [hfirst] at hsearch
    obtain ⟨b',hrun,hb'⟩ := hsearch
    refine ⟨b',?_,hb'⟩
    rw [StateT.run_bind,hrun]
    rfl
  | some p =>
    rw [hfirst] at hsearch
    obtain ⟨b₁,hrun,hb₁⟩ := hsearch
    have hcard := List.find?_some hfirst
    obtain ⟨b',hturn,hb'⟩ := findTurn_run react (List.mem_of_find?_eq_some hfirst) hcard hb₁
    refine ⟨b',?_,hb'⟩
    rw [StateT.run_bind,hrun,hturn]
    rfl

end Scan

/-- The `k`-th reading of the command register from now on shows the reset over. -/
def Over (m : Machine) (k : ℕ) : Bool :=
  m.answer (m.port rtlCmd) (m.reads (m.port rtlCmd)+k) &&& rtlCmdReset == 0

/-- The next `k` readings of the command register. -/
def resetReads (m : Machine) (k : ℕ) : List Effect :=
  (List.range k).map fun j => .inb (m.port rtlCmd) (m.answer (m.port rtlCmd) (m.reads (m.port rtlCmd)+j))

def polled (m : Machine) (k : ℕ) : Machine :=
  { m with
    reads := Function.update m.reads (m.port rtlCmd) (m.reads (m.port rtlCmd)+k)
    log := m.log++resetReads m k }

@[simp] theorem polled_port (m : Machine) (k reg : ℕ) : (polled m k).port reg = m.port reg := rfl

theorem over_polled (m : Machine) (j k : ℕ) : Over (polled m j) k = Over m (j+k) := by
  simp only [Over,polled_port]
  simp only [polled,Function.update_self,Nat.add_assoc]

theorem polled_polled (m : Machine) (j k : ℕ) : polled (polled m j) k = polled m (j+k) := by
  have hpolls : resetReads m j++resetReads (polled m j) k = resetReads m (j+k) := by
    simp only [resetReads,polled_port,List.range_add,List.map_append,List.map_map]
    simp only [polled,Function.update_self,Function.comp_def,Nat.add_assoc]
  have hreads : (polled m j).reads (m.port rtlCmd) = m.reads (m.port rtlCmd)+j := Function.update_self ..
  rw [polled,polled_port,hreads]
  simp only [polled,Function.update_idem,Nat.add_assoc,List.append_assoc,← hpolls]

theorem cmd_over (m : Machine) : (rtlRead8 rtlCmd m).1 &&& rtlCmdReset = 0 ↔ Over m 0 = true := beq_iff_eq.symm

theorem awaitReset_turn_over {m : Machine} (hover : Over m 0 = true) (timeout : ℕ) :
    awaitReset timeout m = (↑timeout,polled m 1) := by
  have hclear := (cmd_over m).mpr hover
  cases timeout <;> exact if_neg (not_not.mpr hclear)

theorem awaitReset_turn_zero {m : Machine} (hstill : Over m 0 = false) : awaitReset 0 m = (-1,polled m 1) :=
  if_pos ((cmd_over m).not.mpr (Bool.eq_false_iff.mp hstill))

theorem awaitReset_turn_succ {m : Machine} (hstill : Over m 0 = false) (timeout : ℕ) :
    awaitReset (timeout+1) m = awaitReset timeout (polled m 1) :=
  if_pos ((cmd_over m).not.mpr (Bool.eq_false_iff.mp hstill))

/-- The loop ends with the first reading that shows the reset over, with what is left of the
timeout. -/
theorem awaitReset_over {k : ℕ} {m : Machine} (hbefore : ∀ j < k, Over m j = false) (hover : Over m k = true)
    (timeout : ℕ) : awaitReset (k+timeout) m = (↑timeout,polled m (k+1)) := by
  induction k generalizing m with
  | zero => rw [Nat.zero_add,awaitReset_turn_over hover]
  | succ k ih =>
    have hnext := ih (m := polled m 1)
      (fun j hj => by rw [over_polled,Nat.add_comm]; exact hbefore (j+1) (Nat.succ_lt_succ hj))
      (by rw [over_polled,Nat.add_comm]; exact hover)
    rw [Nat.succ_add,awaitReset_turn_succ (hbefore 0 (Nat.succ_pos k)),hnext,polled_polled,Nat.add_comm 1]

theorem awaitReset_timeout {timeout : ℕ} {m : Machine} (hstill : ∀ j ≤ timeout, Over m j = false) :
    awaitReset timeout m = (-1,polled m (timeout+1)) := by
  induction timeout generalizing m with
  | zero => exact awaitReset_turn_zero (hstill 0 le_rfl)
  | succ timeout ih =>
    have hnext := ih (m := polled m 1) fun j hj => by
      rw [over_polled,Nat.add_comm]
      exact hstill (j+1) (Nat.succ_le_succ hj)
    rw [awaitReset_turn_succ (hstill 0 (Nat.zero_le _)),hnext,polled_polled,Nat.add_comm 1]

/-- What the card has in the register when it is next read. -/
def Machine.peek (m : Machine) (reg : ℕ) : UInt8 := m.answer (m.port reg) (m.reads (m.port reg))

def setUpEffects (rxBuf : ℕ) (m : Machine) : List Effect :=
  ((List.range 6).map fun i => .inb (m.port (rtlMaco+i)) (m.peek (rtlMaco+i)))++
  [.outl (m.port rtlRxbuf) (UInt32.ofNat rxBuf),
    .outw (m.port rtlImr) 0x2005,
    .outl (m.port rtlRcr) 0x1F8A,
    .outl (m.port rtlTcr) 0x03000700,
    .outb (m.port rtlCmd) 0x0C,
    .outb (m.port rtlConfig1) 0,
    .inb (m.port rtlMsr) (m.peek rtlMsr),
    if m.peek rtlMsr &&& rtlMsrLink ≠ 0 then .kprint "RTL8111 Ethernet Cable connected!\n"
    else .kprint "RTL8111 WARNING: Cable disconnected!\n",
    .kprint "RTL8111 Driver Ready.\n"]

theorem port_inj (m : Machine) {reg reg' : ℕ} (hreg : reg < 2^16) (hreg' : reg' < 2^16)
    (h : m.port reg = m.port reg') : reg = reg' := by
  simp only [Machine.port] at h
  omega

/-- The first `n` bytes of the address have been read. -/
structure MacRead (m : Machine) (n : ℕ) (m' : Machine) : Prop where
  bridge : m'.bridge = m.bridge
  rtlBase : m'.rtlBase = m.rtlBase
  answer : m'.answer = m.answer
  log : m'.log = m.log++(List.range n).map fun i => .inb (m.port (rtlMaco+i)) (m.peek (rtlMaco+i))
  rtlMac : ∀ i < n, m'.rtlMac i = m.peek (rtlMaco+i)
  peek : ∀ reg, n ≤ reg → reg < 2^16 → m'.peek reg = m.peek reg

theorem rtlReadMac_read (m : Machine) : MacRead m 6 (rtlReadMac m) := by
  have hturns : ∀ n ≤ 6, MacRead m n ((List.range n).foldl (fun m i =>
      let (val,m) := rtlRead8 (rtlMaco+i) m
      { m with rtlMac := Function.update m.rtlMac i val }) m) := by
    intro n
    induction n with
    | zero =>
      exact fun _ => ⟨rfl,rfl,rfl,(List.append_nil _).symm,fun i hi => absurd hi (Nat.not_lt_zero i),
        fun _ _ _ => rfl⟩
    | succ n ih =>
      intro hn
      have h := ih (Nat.le_of_succ_le hn)
      rw [List.range_succ,List.foldl_append,List.foldl_cons,List.foldl_nil]
      generalize (List.range n).foldl _ m = m₁ at h ⊢
      have hval : m₁.peek (rtlMaco+n) = m.peek (rtlMaco+n) :=
        h.peek _ (Nat.le_add_left _ _) (by unfold rtlMaco; omega)
      have hport : ∀ reg, m₁.port reg = m.port reg := fun reg => by rw [Machine.port,h.rtlBase,Machine.port]
      refine ⟨h.bridge,h.rtlBase,h.answer,?_,?_,?_⟩
      · show m₁.log++[.inb (m₁.port (rtlMaco+n)) (m₁.peek (rtlMaco+n))] = _
        rw [h.log,hval,hport,List.append_assoc,List.range_succ,List.map_append]
        rfl
      · intro i hi
        show Function.update m₁.rtlMac n (m₁.peek (rtlMaco+n)) i = _
        by_cases heq : i = n
        · rw [heq,Function.update_self,hval]
        · rw [Function.update_of_ne heq]
          exact h.rtlMac i (by omega)
      · intro reg hreg hlt
        rw [← h.peek reg (by omega) hlt]
        have hne : m₁.port reg ≠ m₁.port (rtlMaco+n) := fun heq => by
          have hsame := port_inj m₁ hlt (show rtlMaco+n < 2^16 by unfold rtlMaco; omega) heq
          unfold rtlMaco at hsame
          omega
        show m₁.answer (m₁.port reg) (Function.update m₁.reads (m₁.port (rtlMaco+n)) _ (m₁.port reg)) = _
        rw [Function.update_of_ne hne]
        rfl
  exact hturns 6 le_rfl

structure SetUp (rxBuf : ℕ) (m m' : Machine) : Prop where
  bridge : m'.bridge = m.bridge
  rtlBase : m'.rtlBase = m.rtlBase
  log : m'.log = m.log++setUpEffects rxBuf m
  rtlMac : ∀ i < 6, m'.rtlMac i = m.peek (rtlMaco+i)
  cableStatus : m'.cableStatus = if m.peek rtlMsr &&& rtlMsrLink ≠ 0 then 1 else 0

theorem rtlCheckCable_does (m : Machine) (effects : List Effect) :
    rtlCheckCable (m.does effects) = (if m.peek rtlMsr &&& rtlMsrLink ≠ 0 then 1 else 0,
      { m with
        reads := Function.update m.reads (m.port rtlMsr) (m.reads (m.port rtlMsr)+1)
        log := m.log++(effects++[.inb (m.port rtlMsr) (m.peek rtlMsr)]) }) := by
  rw [← List.append_assoc]
  rfl

theorem setUp_eq (rxBuf : ℕ) (m : Machine) :
    setUp rxBuf m =
      { rtlReadMac m with
        reads := Function.update (rtlReadMac m).reads ((rtlReadMac m).port rtlMsr)
          ((rtlReadMac m).reads ((rtlReadMac m).port rtlMsr)+1)
        log := (rtlReadMac m).log++(setUpEffects rxBuf (rtlReadMac m)).drop 6
        cableStatus := if (rtlReadMac m).peek rtlMsr &&& rtlMsrLink ≠ 0 then 1 else 0 } := by
  have himr : UInt16.ofBitVec (rtlIsrRok ||| rtlIsrTok ||| rtlIsrCable) = 0x2005 := by decide
  have hrcr : rtlRcrApm ||| rtlRcrAb ||| rtlRcrWrap ||| rtlRcrRblen ||| rtlRcrMxdma = 0x1F8A := by decide
  have hcmd : rtlCmdRxEn ||| rtlCmdTxEn = 0x0C := by decide
  have hone : (1 : UInt8) ≠ 0 := by decide
  rw [setUp]
  generalize rtlReadMac m = m₁
  simp only [rtlWrite8,rtlWrite16,rtlWrite32,Machine.does_does,Machine.port_does,rtlCheckCable_does,himr,hrcr,hcmd]
  by_cases hlink : m₁.peek rtlMsr &&& rtlMsrLink ≠ 0
  · simp only [if_pos hlink,if_pos hone,kprint,Machine.does,setUpEffects,List.append_assoc]
    rfl
  · simp only [if_neg hlink,if_neg (not_not.mpr (rfl : (0 : UInt8) = 0)),kprint,Machine.does,setUpEffects,
      List.append_assoc]
    rfl

theorem setUp_spec (rxBuf : ℕ) (m : Machine) : SetUp rxBuf m (setUp rxBuf m) := by
  have h := rtlReadMac_read m
  have hmsr : (rtlReadMac m).peek rtlMsr = m.peek rtlMsr := h.peek rtlMsr (by decide) (by decide)
  have hport : ∀ reg, (rtlReadMac m).port reg = m.port reg := fun reg => by
    rw [Machine.port,h.rtlBase,Machine.port]
  have hrest : (setUpEffects rxBuf (rtlReadMac m)).drop 6 = (setUpEffects rxBuf m).drop 6 := by
    simp only [setUpEffects,List.drop_append,List.length_map,List.length_range,hport,hmsr]
    rfl
  rw [setUp_eq]
  refine ⟨h.bridge,h.rtlBase,?_,h.rtlMac,?_⟩
  · show (rtlReadMac m).log++(setUpEffects rxBuf (rtlReadMac m)).drop 6 = _
    rw [hrest,h.log,List.append_assoc]
    rfl
  · rw [hmsr]

/-- The base address that the scan finds, 0 without a card, and the configuration that it
leaves. -/
def scanned (react : Pci.React) (config : Pci.Config) : ℕ × Pci.Config :=
  match card config with
  | none => (0,config)
  | some p => (baseAt (enabled react config p) p,enabled react config p)

/-- The registers are those of the card that the scan finds. -/
def atCard (react : Pci.React) (m : Machine) : Machine :=
  { m with rtlBase := (scanned react m.bridge.config).1 }

/-- The first of the 10000 readings that may show the reset over. -/
def firstOver (m : Machine) : Option ℕ := Slots.firstSlot 10000 (Over m)

def initEffects (rxBuf : ℕ) (m : Machine) : List Effect :=
  .kprint "RTL8111 Scanning PCI bus...\n"::
  if m.rtlBase = 0 then [.kprint "RTL8111 ERROR Device not found!\n"]
  else
    .kprint "RTL8111 Device found! Initializing...\n"::.outb (m.port rtlCmd) rtlCmdReset::
      match firstOver m with
      | some k => resetReads m (k+1)++setUpEffects rxBuf m
      | none => resetReads m 10001++[.kprint "ERROR Reset timeout!\n"]

/-- `rtl8111_init` has returned `ret`, and 0 just if there is a card with an address whose reset
was over in time. Then its hardware address and the state of the cable are known; else they
are what they were. -/
structure Initialized (react : Pci.React) (rxBuf : ℕ) (m : Machine) (ret : ℤ) (m' : Machine) : Prop where
  config : m'.bridge.config = (scanned react m.bridge.config).2
  rtlBase : m'.rtlBase = (scanned react m.bridge.config).1
  log : m'.log = m.log++initEffects rxBuf (atCard react m)
  returns : ret = if (atCard react m).rtlBase ≠ 0 ∧ (firstOver (atCard react m)).isSome then 0 else -1
  ready : ret = 0 → (∀ i < 6, m'.rtlMac i = (atCard react m).peek (rtlMaco+i)) ∧
    m'.cableStatus = if (atCard react m).peek rtlMsr &&& rtlMsrLink ≠ 0 then 1 else 0
  failed : ret = -1 → m'.rtlMac = m.rtlMac ∧ m'.cableStatus = m.cableStatus

theorem rtlFindDevice_scanned (react : Pci.React) (b : Pci.Bridge) :
    ∃ b', (rtlFindDevice react).run b = ((scanned react b.config).1,b') ∧
      b'.config = (scanned react b.config).2 := by
  have hrun := rtlFindDevice_run react (rfl : b.config = b.config)
  rw [scanned]
  cases hcard : card b.config with
  | none => rw [hcard] at hrun; exact hrun
  | some p => rw [hcard] at hrun; exact hrun

theorem polled_peek (m : Machine) (k : ℕ) {reg : ℕ} (hreg : reg < 2^16) (hne : reg ≠ rtlCmd) :
    (polled m k).peek reg = m.peek reg := by
  have hport : m.port reg ≠ m.port rtlCmd := fun h => hne (port_inj m hreg (by decide) h)
  show m.answer (m.port reg) (Function.update m.reads (m.port rtlCmd) _ (m.port reg)) = _
  rw [Function.update_of_ne hport]
  rfl

theorem setUpEffects_polled (rxBuf : ℕ) (m : Machine) (k : ℕ) :
    setUpEffects rxBuf (polled m k) = setUpEffects rxBuf m := by
  have hmac : ∀ i ∈ List.range 6, (Effect.inb (m.port (rtlMaco+i)) ((polled m k).peek (rtlMaco+i))) =
      .inb (m.port (rtlMaco+i)) (m.peek (rtlMaco+i)) := by
    intro i hi
    have hlt := List.mem_range.mp hi
    rw [polled_peek m k (by unfold rtlMaco; omega) (by unfold rtlMaco rtlCmd; omega)]
  simp only [setUpEffects,polled_port,List.map_congr_left hmac,
    polled_peek m k (show rtlMsr < 2^16 by decide) (show rtlMsr ≠ rtlCmd by decide)]

/-- The machine when the reset has been written. -/
def resetting (react : Pci.React) (m : Machine) (b : Pci.Bridge) : Machine :=
  { atCard react m with
    bridge := b
    log := m.log++[.kprint "RTL8111 Scanning PCI bus...\n",.kprint "RTL8111 Device found! Initializing...\n",
      .outb ((atCard react m).port rtlCmd) rtlCmdReset] }

theorem resetting_log (react : Pci.React) (m : Machine) (b : Pci.Bridge) (k : ℕ) :
    (polled (resetting react m b) k).log = m.log++
      [.kprint "RTL8111 Scanning PCI bus...\n",.kprint "RTL8111 Device found! Initializing...\n",
        .outb ((atCard react m).port rtlCmd) rtlCmdReset]++resetReads (atCard react m) k := rfl

section Init
variable {react : Pci.React} {m : Machine} {b : Pci.Bridge}
  (hscan : (rtlFindDevice react).run m.bridge = ((scanned react m.bridge.config).1,b))
include hscan

theorem rtl8111Init_none (hnone : (atCard react m).rtlBase = 0) (rxBuf : ℕ) :
    rtl8111Init react rxBuf m = (-1,{ atCard react m with
      bridge := b
      log := m.log++[.kprint "RTL8111 Scanning PCI bus...\n",.kprint "RTL8111 ERROR Device not found!\n"] }) := by
  have hbase : (scanned react m.bridge.config).1 = 0 := hnone
  rw [rtl8111Init]
  simp only [kprint,Machine.does,hscan,if_pos hbase,List.append_assoc]
  rfl

theorem rtl8111Init_found (hfound : (atCard react m).rtlBase ≠ 0) (rxBuf : ℕ) :
    rtl8111Init react rxBuf m =
      if (awaitReset 10000 (resetting react m b)).1 ≤ 0 then
        (-1,kprint "ERROR Reset timeout!\n" (awaitReset 10000 (resetting react m b)).2)
      else (0,setUp rxBuf (awaitReset 10000 (resetting react m b)).2) := by
  have hbase : (scanned react m.bridge.config).1 ≠ 0 := hfound
  rw [rtl8111Init]
  simp only [kprint,Machine.does,hscan,if_neg hbase,rtlWrite8,List.append_assoc]
  rfl

end Init

/-- Whatever is on the buses and however the card answers, `rtl8111_init` takes over the first
card that the buses have, or fails and says why. -/
theorem rtl8111Init_initialized (react : Pci.React) (rxBuf : ℕ) (m : Machine) :
    Initialized react rxBuf m (rtl8111Init react rxBuf m).1 (rtl8111Init react rxBuf m).2 := by
  obtain ⟨b,hscan,hconfig⟩ := rtlFindDevice_scanned react m.bridge
  by_cases hnone : (atCard react m).rtlBase = 0
  · rw [rtl8111Init_none hscan hnone]
    refine ⟨hconfig,rfl,?_,?_,fun h => absurd h (show (-1 : ℤ) ≠ 0 by decide),
      fun _ => ⟨rfl,rfl⟩⟩
    · rw [initEffects,if_pos hnone]
    · rw [if_neg fun h => h.1 hnone]
  rw [rtl8111Init_found hscan hnone]
  cases hfirst : firstOver (atCard react m) with
  | some k =>
    obtain ⟨hk,hover,hbefore⟩ := Slots.firstSlot_eq_some.mp hfirst
    have hwait := awaitReset_over (m := resetting react m b) hbefore hover (10000-k)
    rw [Nat.add_sub_cancel' hk.le] at hwait
    have hleft : ¬ ((10000-k : ℕ) : ℤ) ≤ 0 := by omega
    have hsetUp := setUp_spec rxBuf (polled (resetting react m b) (k+1))
    rw [hwait,if_neg hleft]
    refine ⟨hsetUp.bridge ▸ hconfig,hsetUp.rtlBase,?_,?_,fun _ => ⟨fun i hi => ?_,?_⟩,
      fun h => absurd h (show (0 : ℤ) ≠ -1 by decide)⟩
    · rw [hsetUp.log,setUpEffects_polled,initEffects,if_neg hnone,hfirst,resetting_log,List.append_assoc,
        List.append_assoc]
      rfl
    · rw [if_pos ⟨hnone,Option.isSome_iff_exists.mpr ⟨k,hfirst⟩⟩]
    · rw [hsetUp.rtlMac i hi,polled_peek _ _ (by unfold rtlMaco; omega) (by unfold rtlMaco rtlCmd; omega)]
      rfl
    · rw [hsetUp.cableStatus,polled_peek _ _ (by decide) (by decide)]
      rfl
  | none =>
    have hstill : ∀ j < 10000, Over (resetting react m b) j = false := Slots.firstSlot_eq_none.mp hfirst
    have hlate : (awaitReset 10000 (resetting react m b)).1 ≤ 0 ∧
        (awaitReset 10000 (resetting react m b)).2 = polled (resetting react m b) 10001 := by
      cases hlast : Over (resetting react m b) 10000 with
      | true => rw [awaitReset_over (k := 10000) hstill hlast 0]; exact ⟨le_rfl,rfl⟩
      | false =>
        rw [awaitReset_timeout fun j hj => (Nat.lt_or_eq_of_le hj).elim (hstill j) fun h => h ▸ hlast]
        exact ⟨show (-1 : ℤ) ≤ 0 by decide,rfl⟩
    rw [if_pos hlate.1,hlate.2]
    refine ⟨hconfig,rfl,?_,?_,fun h => absurd h (show (-1 : ℤ) ≠ 0 by decide),fun _ => ⟨rfl,rfl⟩⟩
    · rw [initEffects,if_neg hnone,hfirst]
      show (polled (resetting react m b) 10001).log++[.kprint "ERROR Reset timeout!\n"] = _
      rw [resetting_log,List.append_assoc,List.append_assoc]
      simp only [List.cons_append,List.nil_append]
    · rw [hfirst,if_neg fun h => Bool.noConfusion h.2]

/-- A card in slot 3 of the first bus, with its ports at 0xC000. -/
def slotThree : Pci.Config := fun p k =>
  if p = ⟨0,3,0⟩ then
    [0xEC,0x10,0x68,0x81,0,0,0,0,0,0,0,2,0,0,0,0,1,0xC0,0,0].getD k 0
  else 0xFF

/-- The reset of the card is over at once, and its cable is connected. -/
def readyCard (b : Pci.Bridge) : Machine :=
  ⟨b,fun port _ => if port = 0xC000+rtlMsr then 0x04 else 0,fun _ => 0,[],0,fun _ => 0,0⟩

example : (rtl8111Init Pci.keepCommand 0x8000 (readyCard ⟨fun _ => 0,slotThree,false⟩)).1 = 0 := by decide +kernel

example : (rtl8111Init Pci.keepCommand 0x8000 (readyCard ⟨fun _ => 0,slotThree,false⟩)).2.rtlBase = 0xC000 := by
  decide +kernel

end Rtl8111
end ValiantCore
