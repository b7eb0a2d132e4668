import ValiantCore.Bytes
import ValiantCore.Reading
import ValiantCore.Slots

/-! The PCI driver `drivers/pci.c`. It sees the functions on the buses through the host
bridge: it writes the address of a function to one group of ports, a byte at a time, and
then reads and writes the configuration of that function at the other. A bridge as it is
documented takes its address by one write of 32 bits only, the way `rtl8111.c` does it, and
writes of single bytes pass it by. -/
namespace ValiantCore
namespace Pci

open Reading

def pciConfigAddress : ℕ := 0xCF8
def pciConfigData : ℕ := 0xCFC
def pciMaxBus : ℕ := 256
def pciMaxSlot : ℕ := 32
def pciMaxFunc : ℕ := 8
def pciMaxDevices : ℕ := 256
def pciVendorId : ℕ := 0x0
def pciDeviceId : ℕ := 0x02
def pciCommand : ℕ := 0x04
def pciProgIf : ℕ := 0x09
def pciSubclass : ℕ := 0x0A
def pciClassCode : ℕ := 0x0B
def pciHeaderType : ℕ := 0x0E
def pciBar0 : ℕ := 0x10
def pciIrqLine : ℕ := 0x3C

structure Place where
  bus : ℕ
  slot : ℕ
  func : ℕ
  deriving DecidableEq, Repr

structure Place.InRange (p : Place) : Prop where
  bus : p.bus < 256
  slot : p.slot < 32
  func : p.func < 8

/-- The configuration of every function, byte by byte; where no function is, the bytes
are 0xFF. -/
abbrev Config := Place → ℕ → UInt8

/-- What the functions make of a byte that is written into the configuration of one of them. -/
abbrev React := Config → Place → ℕ → UInt8 → Config

/-- The host bridge: the bytes of its address register and the functions behind it, and
whether the register takes writes of single bytes. -/
structure Bridge where
  address : ℕ → UInt8
  config : Config
  bytewise : Bool

/-- The function and the offset that the address register names, if it is enabled. -/
def Bridge.selected (b : Bridge) : Option (Place × ℕ) :=
  let address := Bytes.field b.address 0 4
  if address/2^31%2 = 1 then
    some (⟨address/2^16%2^8,address/2^11%2^5,address/2^8%2^3⟩,address/2^2%2^6*4)
  else none

def inb (b : Bridge) (port : ℕ) : UInt8 :=
  if pciConfigData ≤ port ∧ port < pciConfigData+4 then
    match b.selected with
    | some (place,offset) => b.config place (offset+(port-pciConfigData))
    | none => 0xFF
  else 0xFF

def inl (b : Bridge) (port : ℕ) : ℕ := Bytes.field (inb b) port 4

structure PciDevice where
  bus : ℕ
  slot : ℕ
  func : ℕ
  vendorId : ℕ
  deviceId : ℕ
  classCode : ℕ
  subclass : ℕ
  progIf : ℕ
  irq : ℕ
  bar : List ℕ
  valid : ℕ

structure State where
  pciDevices : ℕ → PciDevice
  pciDeviceCount : ℕ
  bridge : Bridge

/-- The address of a register, each argument within its range. -/
def pciAddress (bus slot func offset : ℕ) : ℕ :=
  1 <<< 31 ||| bus <<< 16 ||| slot <<< 11 ||| func <<< 8 ||| (offset &&& 0xFC)

section Driver

variable (react : React)

def outb (b : Bridge) (port : ℕ) (val : UInt8) : Bridge :=
  if pciConfigAddress ≤ port ∧ port < pciConfigAddress+4 then
    if b.bytewise then { b with address := Function.update b.address (port-pciConfigAddress) val } else b
  else if pciConfigData ≤ port ∧ port < pciConfigData+4 then
    match b.selected with
    | some (place,offset) =>
      { b with config := react b.config place (offset+(port-pciConfigData)) val }
    | none => b
  else b

/-- The bytes of a 32-bit value into the register of a function. -/
def writeRegister (config : Config) (place : Place) (offset val : ℕ) : Config :=
  (List.range 4).foldl (fun config j => react config place (offset+j) (UInt8.ofNat (val >>> (8*j)))) config

def outl (b : Bridge) (port val : ℕ) : Bridge :=
  if port = pciConfigAddress then { b with address := fun k => UInt8.ofNat (val >>> (8*k)) }
  else if port = pciConfigData then
    match b.selected with
    | some (place,offset) => { b with config := writeRegister react b.config place offset val }
    | none => b
  else b

def outBytes (b : Bridge) (port val : ℕ) : Bridge :=
  (List.range 4).foldl (fun b k => outb react b (port+k) (UInt8.ofNat (val >>> (8*k)))) b

def pciRead32 (bus slot func offset : ℕ) : StateM Bridge ℕ :=
  modifyGet fun b =>
    let b := outBytes react b pciConfigAddress (pciAddress bus slot func offset)
    (Bytes.field (inb b) pciConfigData 4,b)

def pciRead16 (bus slot func offset : ℕ) : StateM Bridge ℕ := do
  let val ← pciRead32 react bus slot func (offset &&& 0xFC)
  return val >>> ((offset &&& 3)*8) &&& 0xFFFF

def pciRead8 (bus slot func offset : ℕ) : StateM Bridge ℕ := do
  let val ← pciRead32 react bus slot func (offset &&& 0xFC)
  return val >>> ((offset &&& 3)*8) &&& 0xFF

def pciWrite32 (b : Bridge) (bus slot func offset val : ℕ) : Bridge :=
  outBytes react (outBytes react b pciConfigAddress (pciAddress bus slot func offset)) pciConfigData val

/-- What `pci_scan_device` reads into a new entry. -/
def readDevice (bus slot func vendor : ℕ) : StateM Bridge PciDevice := do
  let deviceId ← pciRead16 react bus slot func pciDeviceId
  let classCode ← pciRead8 react bus slot func pciClassCode
  let subclass ← pciRead8 react bus slot func pciSubclass
  let progIf ← pciRead8 react bus slot func pciProgIf
  let irq ← pciRead8 react bus slot func pciIrqLine
  let bar ← (List.range 6).mapM fun i => pciRead32 react bus slot func (pciBar0+i*4)
  return { bus, slot, func, vendorId := vendor, deviceId, classCode, subclass, progIf, irq, bar, valid := 1 }

def pciScanDevice (s : State) (bus slot func : ℕ) : State :=
  let vendor := (pciRead16 react bus slot func pciVendorId).run s.bridge
  if vendor.1 = 0xFFFF then { s with bridge := vendor.2 }
  else if s.pciDeviceCount ≥ pciMaxDevices then { s with bridge := vendor.2 }
  else
    let device := (readDevice react bus slot func vendor.1).run vendor.2
    let cmd := (pciRead16 react bus slot func pciCommand).run device.2
    { pciDevices := Function.update s.pciDevices s.pciDeviceCount device.1
      pciDeviceCount := s.pciDeviceCount+1
      bridge := pciWrite32 react cmd.2 bus slot func pciCommand (cmd.1 ||| 0x0006) }

def scanFunc (bus slot : ℕ) (s : State) (func : ℕ) : State :=
  let vendor := (pciRead16 react bus slot func pciVendorId).run s.bridge
  let s := { s with bridge := vendor.2 }
  if vendor.1 ≠ 0xFFFF then pciScanDevice react s bus slot func else s

def scanSlot (bus : ℕ) (s : State) (slot : ℕ) : State :=
  let vendor := (pciRead16 react bus slot 0 pciVendorId).run s.bridge
  let s := { s with bridge := vendor.2 }
  if vendor.1 = 0xFFFF then s
  else
    let s := pciScanDevice react s bus slot 0
    let hdr := (pciRead8 react bus slot 0 pciHeaderType).run s.bridge
    let s := { s with bridge := hdr.2 }
    if hdr.1 &&& 0x80 ≠ 0 then
      (List.range' 1 (pciMaxFunc-1)).foldl (scanFunc react bus slot) s
    else s

def scanBus (s : State) (bus : ℕ) : State := (List.range pciMaxSlot).foldl (scanSlot react bus) s

def pciInit (s : State) : State :=
  (List.range pciMaxBus).foldl (scanBus react) { s with pciDeviceCount := 0 }

end Driver

def pciFind (s : State) (p : PciDevice → Bool) : Option ℕ :=
  Slots.firstSlot s.pciDeviceCount fun i => p (s.pciDevices i)

def pciFindDevice (s : State) (vendor device : ℕ) : Option ℕ :=
  pciFind s fun d => d.vendorId == vendor && d.deviceId == device

def pciFindClass (s : State) (classCode subclass : ℕ) : Option ℕ :=
  pciFind s fun d => d.classCode == classCode && d.subclass == subclass

/-- The register that the address register keeps naming where the addresses of the driver do
not arrive. -/
def Bridge.latch (b : Bridge) : Option (Place × ℕ) := if b.bytewise then none else b.selected

/-- The functions as the reads of the driver show them. Where the address does not arrive,
every register of every function reads as the one that the address register names. -/
def Bridge.shown (b : Bridge) : Config :=
  if b.bytewise then b.config else fun _ k => inb b (pciConfigData+k%4)

/-- What the reads of the driver depend on. -/
def Bridge.view (b : Bridge) : Config × Option (Place × ℕ) := (b.shown,b.latch)

theorem shown_of_bytewise {b : Bridge} (hb : b.bytewise = true) : b.shown = b.config := if_pos hb

theorem shown_of_wordwise {b : Bridge} (hb : b.bytewise = false) :
    b.shown = fun _ k => inb b (pciConfigData+k%4) :=
  if_neg (Bool.eq_false_iff.mp hb)

theorem latch_of_bytewise {b : Bridge} (hb : b.bytewise = true) : b.latch = none := if_pos hb

theorem latch_of_wordwise {b : Bridge} (hb : b.bytewise = false) : b.latch = b.selected :=
  if_neg (Bool.eq_false_iff.mp hb)

section Registers
variable (react : React) (config : Config) (left : Option (Place × ℕ)) {p : Place} {offset : ℕ}

theorem and_wordMask (hoffset : offset < 256) : offset &&& 0xFC = offset/4*4 := by
  have hall : ∀ o < 256, o &&& 0xFC = o/4*4 := by decide +kernel
  exact hall offset hoffset

theorem pciAddress_eq (hp : p.InRange) (hoffset : offset < 256) :
    pciAddress p.bus p.slot p.func offset =
      2^31+p.bus*2^16+p.slot*2^11+p.func*2^8+offset/4*4 := by
  obtain ⟨hbus,hslot,hfunc⟩ := hp
  have hlow : offset/4*4 < 2^8 := by omega
  have hfuncs : p.func <<< 8+offset/4*4 < 2^11 := by rw [Nat.shiftLeft_eq]; omega
  have hslots : p.slot <<< 11+(p.func <<< 8+offset/4*4) < 2^16 := by simp only [Nat.shiftLeft_eq]; omega
  have hbuses : p.bus <<< 16+(p.slot <<< 11+(p.func <<< 8+offset/4*4)) < 2^31 := by
    simp only [Nat.shiftLeft_eq]
    omega
  rw [pciAddress,and_wordMask hoffset,Nat.or_assoc,Nat.or_assoc,Nat.or_assoc,← Nat.shiftLeft_add_eq_or_of_lt hlow,
    ← Nat.shiftLeft_add_eq_or_of_lt hfuncs,← Nat.shiftLeft_add_eq_or_of_lt hslots,
    ← Nat.shiftLeft_add_eq_or_of_lt hbuses]
  simp only [Nat.shiftLeft_eq]
  ring

theorem pciAddress_lt (hp : p.InRange) (hoffset : offset < 256) :
    pciAddress p.bus p.slot p.func offset < 2^32 := by
  obtain ⟨hbus,hslot,hfunc⟩ := hp
  rw [pciAddress_eq ⟨hbus,hslot,hfunc⟩ hoffset]
  omega

theorem selected_of_address {b : Bridge} (hp : p.InRange) (hoffset : offset < 256)
    (haddress : Bytes.field b.address 0 4 = pciAddress p.bus p.slot p.func offset) :
    b.selected = some (p,offset/4*4) := by
  obtain ⟨hbus,hslot,hfunc⟩ := hp
  rw [pciAddress_eq ⟨hbus,hslot,hfunc⟩ hoffset] at haddress
  simp only [Bridge.selected,haddress]
  rw [if_pos (by omega)]
  congr 2
  · obtain ⟨bus,slot,func⟩ := p
    simp only [Place.mk.injEq] at hbus hslot hfunc ⊢
    omega
  · omega

theorem outBytes_address {b : Bridge} (hb : b.bytewise = true) {val : ℕ} (hval : val < 2^32) :
    Bytes.field (outBytes react b pciConfigAddress val).address 0 4 = val ∧
    (outBytes react b pciConfigAddress val).config = b.config ∧
    (outBytes react b pciConfigAddress val).bytewise = true := by
  have hrange : List.range 4 = [0,1,2,3] := rfl
  refine ⟨?_,?_,?_⟩
  · simp [outBytes,hrange,outb,hb,pciConfigAddress,Bytes.field,Bytes.bytesAt,Bytes.leNat,
      Nat.shiftRight_eq_div_pow]
    omega
  · simp [outBytes,hrange,outb,hb,pciConfigAddress]
  · simp [outBytes,hrange,outb,hb,pciConfigAddress]

theorem outBytes_lost {b : Bridge} (hb : b.bytewise = false) (val : ℕ) :
    outBytes react b pciConfigAddress val = b := by
  have hrange : List.range 4 = [0,1,2,3] := rfl
  simp [outBytes,hrange,outb,hb,pciConfigAddress]

theorem outBytes_view (b : Bridge) {val : ℕ} (hval : val < 2^32) :
    (outBytes react b pciConfigAddress val).view = b.view := by
  cases hb : b.bytewise with
  | true =>
    obtain ⟨-,hconfig,hbytewise⟩ := outBytes_address react hb hval
    rw [Bridge.view,Bridge.view,shown_of_bytewise hbytewise,shown_of_bytewise hb,hconfig,
      latch_of_bytewise hbytewise,latch_of_bytewise hb]
  | false => rw [outBytes_lost react hb]

theorem inb_selected {b : Bridge} (hselected : b.selected = some (p,offset)) {k : ℕ} (hk : k < 4) :
    inb b (pciConfigData+k) = b.config p (offset+k) := by
  rw [inb,if_pos ⟨Nat.le_add_right _ _,Nat.add_lt_add_left hk _⟩,hselected,Nat.add_sub_cancel_left]

theorem inl_selected {b : Bridge} (hselected : b.selected = some (p,offset)) :
    inl b pciConfigData = Bytes.field (b.config p) offset 4 := by
  rw [inl,Bytes.field,Bytes.field,Bytes.bytesAt_eq_map,Bytes.bytesAt_eq_map]
  congr 1
  exact List.map_congr_left fun k hk => inb_selected hselected (List.mem_range.mp hk)

theorem pciRead32_yields (hp : p.InRange) (hoffset : offset < 256) :
    Yields Bridge.view (config,left) (pciRead32 react p.bus p.slot p.func offset)
      (Bytes.field (config p) (offset/4*4) 4) := by
  refine Yields.modifyGet ?_ fun b => outBytes_view react b (pciAddress_lt hp hoffset)
  intro b hview
  obtain rfl : b.shown = config := congrArg Prod.fst hview
  change Bytes.field (inb (outBytes react b pciConfigAddress _)) pciConfigData 4 = _
  cases hb : b.bytewise with
  | true =>
    obtain ⟨haddress,hconfig,-⟩ := outBytes_address react hb (pciAddress_lt hp hoffset)
    have hselected := selected_of_address hp hoffset haddress
    rw [shown_of_bytewise hb,← hconfig]
    exact inl_selected hselected
  | false =>
    rw [outBytes_lost react hb,shown_of_wordwise hb]
    rw [Bytes.field,Bytes.field,Bytes.bytesAt_congr fun k hk => ?_]
    exact congrArg (fun k => inb b (pciConfigData+k)) (show k = (offset/4*4+k)%4 by omega)

theorem part_yields (hp : p.InRange) {w : ℕ} (hoffset : offset < 256) (hw : offset%4+w ≤ 4) :
    Yields Bridge.view (config,left) (do
        let val ← pciRead32 react p.bus p.slot p.func (offset &&& 0xFC)
        return val >>> ((offset &&& 3)*8) &&& (2^(8*w)-1))
      (Bytes.field (config p) offset w) := by
  have hrest : offset &&& 3 = offset%4 := Nat.and_two_pow_sub_one_eq_mod offset 2
  have hread := pciRead32_yields react config left hp (show offset/4*4 < 256 by omega)
  have hsame : offset/4*4/4*4 = offset/4*4 := by omega
  have hpart := Bytes.field_div_mod (config p) (offset/4*4) hw
  rw [show offset/4*4+offset%4 = offset by omega] at hpart
  rw [hsame] at hread
  rw [and_wordMask hoffset,hrest,← hpart]
  refine hread.bind ?_
  rw [Nat.shiftRight_eq_div_pow,Nat.and_two_pow_sub_one_eq_mod,Nat.mul_comm (offset%4) 8,pow_mul,pow_mul]
  exact Yields.pure Bridge.view (config,left) _

theorem pciRead16_yields (hp : p.InRange) (hoffset : offset < 256) (hw : offset%4+2 ≤ 4) :
    Yields Bridge.view (config,left) (pciRead16 react p.bus p.slot p.func offset) (Bytes.field (config p) offset 2) :=
  part_yields react config left hp hoffset hw

theorem pciRead8_yields (hp : p.InRange) (hoffset : offset < 256) :
    Yields Bridge.view (config,left) (pciRead8 react p.bus p.slot p.func offset) (config p offset).toNat := by
  have hbyte : Bytes.field (config p) offset 1 = (config p offset).toNat := by
    simp [Bytes.field,Bytes.bytesAt,Bytes.leNat]
  rw [← hbyte]
  exact part_yields react config left hp hoffset (show offset%4+1 ≤ 4 by omega)

def vendorAt (config : Config) (p : Place) : ℕ := Bytes.field (config p) pciVendorId 2

def deviceAt (config : Config) (p : Place) : PciDevice where
  bus := p.bus
  slot := p.slot
  func := p.func
  vendorId := vendorAt config p
  deviceId := Bytes.field (config p) pciDeviceId 2
  classCode := (config p pciClassCode).toNat
  subclass := (config p pciSubclass).toNat
  progIf := (config p pciProgIf).toNat
  irq := (config p pciIrqLine).toNat
  bar := (List.range 6).map fun i => Bytes.field (config p) (pciBar0+i*4) 4
  valid := 1

theorem readDevice_yields (hp : p.InRange) :
    Yields Bridge.view (config,left) (readDevice react p.bus p.slot p.func (vendorAt config p)) (deviceAt config p) := by
  have hbar : ∀ i ∈ List.range 6, Yields Bridge.view (config,left) (pciRead32 react p.bus p.slot p.func (pciBar0+i*4))
      (Bytes.field (config p) (pciBar0+i*4) 4) := by
    intro i hi
    have hlt := List.mem_range.mp hi
    have hword : (pciBar0+i*4)/4*4 = pciBar0+i*4 := by rw [pciBar0]; omega
    have hread := pciRead32_yields react config left hp (show pciBar0+i*4 < 256 by rw [pciBar0]; omega)
    rwa [hword] at hread
  exact (pciRead16_yields react config left hp (by decide) (by decide)).bind <|
    (pciRead8_yields react config left hp (by decide)).bind <|
    (pciRead8_yields react config left hp (by decide)).bind <|
    (pciRead8_yields react config left hp (by decide)).bind <|
    (pciRead8_yields react config left hp (by decide)).bind <|
    (Yields.mapM hbar).bind (Yields.pure Bridge.view (config,left) _)

end Registers

section Writes
variable {react : React}

/-- No write to a command register, nor to the status behind it, changes the byte at this
offset of any function. -/
def Unaffected (react : React) (k : ℕ) : Prop :=
  ∀ (config : Config) (p : Place) (offset : ℕ) (val : UInt8) (q : Place),
    pciCommand ≤ offset → offset < pciCommand+4 → react config p offset val q k = config q k

/-- No write to the register that is left selected changes it. -/
def Settled (react : React) (left : Option (Place × ℕ)) : Prop :=
  ∀ p offset, left = some (p,offset) → ∀ (config : Config) (j : ℕ) (val : UInt8), j < 4 →
    ∀ k < 4, react config p (offset+j) val p (offset+k) = config p (offset+k)

theorem settled_none (react : React) : Settled react none := fun _ _ h => nomatch h

/-- The bridge shows what it did, but for what writes to command registers may change. -/
structure Keeps (react : React) (b b' : Bridge) : Prop where
  latch : b'.latch = b.latch
  shown : ∀ k, Unaffected react k → ∀ q, b'.shown q k = b.shown q k

theorem Keeps.of_view {b b' : Bridge} (h : b'.view = b.view) : Keeps react b b' :=
  ⟨congrArg Prod.snd h,fun k _ q => congrFun (congrFun (congrArg Prod.fst h) q) k⟩

theorem Keeps.trans {b b' b'' : Bridge} (h : Keeps react b b') (h' : Keeps react b' b'') : Keeps react b b'' :=
  ⟨h'.latch.trans h.latch,fun k hk q => (h'.shown k hk q).trans (h.shown k hk q)⟩

/-- What is written to the data ports goes to the command register of the function, or to a
register that it does not change. -/
structure Addressed (react : React) (p : Place) (b : Bridge) : Prop where
  settled : Settled react b.latch
  selected : b.bytewise = true → b.selected = some (p,pciCommand)

theorem outb_data {p : Place} {b : Bridge} (h : Addressed react p b) {j : ℕ} (hj : j < 4) (val : UInt8) :
    Addressed react p (outb react b (pciConfigData+j) val) ∧ Keeps react b (outb react b (pciConfigData+j) val) := by
  have hport : outb react b (pciConfigData+j) val = match b.selected with
      | some (place,offset) => { b with config := react b.config place (offset+j) val }
      | none => b := by
    rw [outb,if_neg (by unfold pciConfigAddress pciConfigData; omega),if_pos (by omega),Nat.add_sub_cancel_left]
  rw [hport]
  cases hsel : b.selected with
  | none => exact ⟨h,rfl,fun _ _ _ => rfl⟩
  | some register =>
    obtain ⟨place,offset⟩ := register
    let b' : Bridge := { b with config := react b.config place (offset+j) val }
    change Addressed react p b' ∧ Keeps react b b'
    refine ⟨⟨h.settled,h.selected⟩,rfl,fun k hk q => ?_⟩
    cases hb : b.bytewise with
    | true =>
      have hcommand := (h.selected hb).symm.trans hsel
      simp only [Option.some.injEq,Prod.mk.injEq] at hcommand
      have hb' : b'.bytewise = true := hb
      rw [shown_of_bytewise hb,shown_of_bytewise hb']
      refine hk b.config place _ val q ?_ ?_
      · rw [← hcommand.2]
        exact Nat.le_add_right _ _
      · rw [← hcommand.2]
        exact Nat.add_lt_add_left hj _
    | false =>
      have hb' : b'.bytewise = false := hb
      have hsel' : b'.selected = some (place,offset) := hsel
      have hmod : k%4 < 4 := Nat.mod_lt k (Nat.succ_pos 3)
      rw [shown_of_wordwise hb,shown_of_wordwise hb']
      change inb b' (pciConfigData+k%4) = inb b (pciConfigData+k%4)
      rw [inb_selected hsel hmod,inb_selected hsel' hmod]
      exact h.settled place offset ((latch_of_wordwise hb).trans hsel) b.config j val hj (k%4) hmod

theorem outBytes_data {p : Place} {b : Bridge} (h : Addressed react p b) (val : ℕ) :
    Keeps react b (outBytes react b pciConfigData val) := by
  have hsteps : ∀ (js : List ℕ) (b : Bridge), Addressed react p b → (∀ j ∈ js, j < 4) →
      Keeps react b (js.foldl (fun b j => outb react b (pciConfigData+j) (UInt8.ofNat (val >>> (8*j)))) b) := by
    intro js
    induction js with
    | nil => exact fun _ _ _ => Keeps.of_view rfl
    | cons j js ih =>
      intro b hb hjs
      obtain ⟨hnext,hkeeps⟩ := outb_data hb (hjs j List.mem_cons_self) (UInt8.ofNat (val >>> (8*j)))
      exact hkeeps.trans (ih _ hnext fun i hi => hjs i (List.mem_cons_of_mem j hi))
  exact hsteps _ b h fun j hj => List.mem_range.mp hj

theorem pciWrite32_command {b : Bridge} (hsettled : Settled react b.latch) {p : Place} (hp : p.InRange)
    (val : ℕ) : Keeps react b (pciWrite32 react b p.bus p.slot p.func pciCommand val) := by
  have hlt := pciAddress_lt hp (show pciCommand < 256 by decide)
  have hview := outBytes_view react b hlt
  have hlatch : (outBytes react b pciConfigAddress (pciAddress p.bus p.slot p.func pciCommand)).latch = b.latch :=
    congrArg Prod.snd hview
  refine (Keeps.of_view hview).trans (outBytes_data (p := p) ⟨hlatch ▸ hsettled,fun hb => ?_⟩ val)
  cases hbytewise : b.bytewise with
  | true => exact selected_of_address hp (by decide) (outBytes_address react hbytewise hlt).1
  | false =>
    rw [outBytes_lost react hbytewise,hbytewise] at hb
    exact nomatch hb

/-- Where no function is, or the table is full, the scan leaves the table as it is; else it
appends the entry of the function. -/
theorem pciScanDevice_spec (react : React) (s : State) (hsettled : Settled react s.bridge.latch) {p : Place}
    (hp : p.InRange) :
    ∃ b, Keeps react s.bridge b ∧
      pciScanDevice react s p.bus p.slot p.func =
        if vendorAt s.bridge.shown p = 0xFFFF ∨ s.pciDeviceCount ≥ pciMaxDevices then { s with bridge := b }
        else ⟨Function.update s.pciDevices s.pciDeviceCount (deviceAt s.bridge.shown p),
          s.pciDeviceCount+1,b⟩ := by
  obtain ⟨b₁,hvendor,hb₁⟩ := pciRead16_yields react s.bridge.shown s.bridge.latch hp
    (show pciVendorId < 256 by decide) (by decide) s.bridge rfl
  rw [← vendorAt] at hvendor
  by_cases habsent : vendorAt s.bridge.shown p = 0xFFFF
  · refine ⟨b₁,Keeps.of_view hb₁,?_⟩
    rw [if_pos (Or.inl habsent),pciScanDevice,hvendor]
    exact if_pos habsent
  by_cases hfull : s.pciDeviceCount ≥ pciMaxDevices
  · refine ⟨b₁,Keeps.of_view hb₁,?_⟩
    rw [if_pos (Or.inr hfull),pciScanDevice,hvendor]
    exact (if_neg habsent).trans (if_pos hfull)
  · obtain ⟨b₂,hdevice,hb₂⟩ := readDevice_yields react s.bridge.shown s.bridge.latch hp b₁ hb₁
    obtain ⟨b₃,hcmd,hb₃⟩ := pciRead16_yields react s.bridge.shown s.bridge.latch hp
      (show pciCommand < 256 by decide) (by decide) b₂ hb₂
    have hlatch : b₃.latch = s.bridge.latch := congrArg Prod.snd hb₃
    refine ⟨pciWrite32 react b₃ p.bus p.slot p.func pciCommand
      (Bytes.field (s.bridge.shown p) pciCommand 2 ||| 0x0006),
      (Keeps.of_view hb₃).trans (pciWrite32_command (hlatch ▸ hsettled) hp _),?_⟩
    rw [if_neg (not_or.mpr ⟨habsent,hfull⟩),pciScanDevice,hvendor]
    refine (if_neg habsent).trans ((if_neg hfull).trans ?_)
    simp only [hdevice,hcmd]

end Writes

end Pci
end ValiantCore
