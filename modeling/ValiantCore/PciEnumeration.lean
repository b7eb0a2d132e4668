import ValiantCore.Pci
import Mathlib.Data.List.Flatten

/-! What the scan of `pci_init` leaves in the table. Three nested loops, two tests for the
vendor of a function and the end of the table come to one enumeration: of all functions in
the order of their places, those that count, and of these the first 256. -/
namespace ValiantCore
namespace Pci

/-- Every place, by bus, slot and function. -/
def allFunctions : List Place :=
  (List.range pciMaxBus).flatMap fun bus => (List.range pciMaxSlot).flatMap fun slot =>
    (List.range pciMaxFunc).map fun func => ⟨bus,slot,func⟩

def Present (config : Config) (p : Place) : Prop := vendorAt config p ≠ 0xFFFF

instance (config : Config) (p : Place) : Decidable (Present config p) :=
  inferInstanceAs (Decidable (_ ≠ _))

/-- Function 0 of the slot is there and has the multi-function bit. -/
def MultiFunction (config : Config) (p : Place) : Prop :=
  Present config { p with func := 0 } ∧ (config { p with func := 0 } pciHeaderType).toNat &&& 0x80 ≠ 0

instance (config : Config) (p : Place) : Decidable (MultiFunction config p) :=
  inferInstanceAs (Decidable (_ ∧ _))

/-- A function counts if it is there and, unless it is function 0, its slot says so. -/
def Counts (config : Config) (p : Place) : Prop :=
  Present config p ∧ (p.func ≠ 0 → MultiFunction config p)

instance (config : Config) (p : Place) : Decidable (Counts config p) :=
  inferInstanceAs (Decidable (_ ∧ _))

/-- The functions that the table has room for. -/
def enumerated (config : Config) (seen : List Place) : List Place :=
  (seen.filter fun p => Counts config p).take pciMaxDevices

def Place.Before (p q : Place) : Prop :=
  p.bus < q.bus ∨ p.bus = q.bus ∧ (p.slot < q.slot ∨ p.slot = q.slot ∧ p.func < q.func)

def PciDevice.place (d : PciDevice) : Place := ⟨d.bus,d.slot,d.func⟩

/-- What tells a function from the others and says what it is. -/
structure Identity where
  place : Place
  vendorId : ℕ
  classCode : ℕ
  subclass : ℕ
  progIf : ℕ

def PciDevice.identity (d : PciDevice) : Identity := ⟨d.place,d.vendorId,d.classCode,d.subclass,d.progIf⟩

def devices (s : State) : List PciDevice := (List.range s.pciDeviceCount).map s.pciDevices

def HasIds (vendor device : ℕ) (d : PciDevice) : Prop := d.vendorId = vendor ∧ d.deviceId = device

def HasClass (classCode subclass : ℕ) (d : PciDevice) : Prop :=
  d.classCode = classCode ∧ d.subclass = subclass

/-- The place is that of the first entry with the property; there is none if no entry has it. -/
def First (s : State) (P : PciDevice → Prop) : Option ℕ → Prop
  | some i => i < s.pciDeviceCount ∧ P (s.pciDevices i) ∧ ∀ j < i, ¬ P (s.pciDevices j)
  | none => ∀ i < s.pciDeviceCount, ¬ P (s.pciDevices i)

/-- The writes to command registers leave the vendor, the class and the header type of
every function as they are. -/
structure Stable (react : React) : Prop where
  vendor : ∀ k < 2, Unaffected react (pciVendorId+k)
  classCode : Unaffected react pciClassCode
  subclass : Unaffected react pciSubclass
  progIf : Unaffected react pciProgIf
  headerType : Unaffected react pciHeaderType

theorem mem_allFunctions {p : Place} : p ∈ allFunctions ↔ p.InRange := by
  obtain ⟨bus,slot,func⟩ := p
  simp only [allFunctions,List.mem_flatMap,List.mem_map,List.mem_range,Place.mk.injEq]
  constructor
  · rintro ⟨_,hbus,_,hslot,_,hfunc,rfl,rfl,rfl⟩
    exact ⟨hbus,hslot,hfunc⟩
  · rintro ⟨hbus,hslot,hfunc⟩
    exact ⟨bus,hbus,slot,hslot,func,hfunc,rfl,rfl,rfl⟩

theorem allFunctions_ordered : allFunctions.Pairwise Place.Before := by
  have hrange : ∀ n, (List.range n).Pairwise (· < ·) := fun _ => List.pairwise_lt_range
  rw [allFunctions,List.pairwise_flatMap]
  refine ⟨fun bus _ => ?_,(hrange _).imp ?_⟩
  · rw [List.pairwise_flatMap]
    refine ⟨fun slot _ => ?_,(hrange _).imp ?_⟩
    · exact List.pairwise_map.mpr ((hrange _).imp fun hfunc => Or.inr ⟨rfl,Or.inr ⟨rfl,hfunc⟩⟩)
    · intro slot slot' hslot p hp q hq
      obtain ⟨_,-,rfl⟩ := List.mem_map.mp hp
      obtain ⟨_,-,rfl⟩ := List.mem_map.mp hq
      exact Or.inr ⟨rfl,Or.inl hslot⟩
  · intro bus bus' hbus p hp q hq
    obtain ⟨_,-,hp⟩ := List.mem_flatMap.mp hp
    obtain ⟨_,-,hq⟩ := List.mem_flatMap.mp hq
    obtain ⟨_,-,rfl⟩ := List.mem_map.mp hp
    obtain ⟨_,-,rfl⟩ := List.mem_map.mp hq
    exact Or.inl hbus

theorem enumerated_ordered (config : Config) : (enumerated config allFunctions).Pairwise Place.Before :=
  (allFunctions_ordered.filter _).take

theorem enumerated_append (config : Config) (xs ys : List Place) :
    enumerated config (xs++ys) =
      enumerated config xs++(ys.filter fun p => Counts config p).take (pciMaxDevices-(enumerated config xs).length) := by
  rw [enumerated,List.filter_append,List.take_append,enumerated,List.length_take]
  congr 2
  omega

section Scan
variable {react : React}

/-- No write to a command register makes a difference to `f`. -/
def Kept {A : Type} (react : React) (f : PciDevice → A) : Prop :=
  ∀ config config' : Config, (∀ k, Unaffected react k → ∀ q, config' q k = config q k) →
    ∀ p, f (deviceAt config' p) = f (deviceAt config p)

/-- The scan has come past the places `seen`. -/
structure Scanned {A : Type} (react : React) (start : Bridge)
    (f : PciDevice → A) (seen : List Place) (s : State) : Prop where
  keeps : Keeps react start s.bridge
  entries : (devices s).map f = (enumerated start.shown seen).map fun p => f (deviceAt start.shown p)

variable {A : Type} {start : Bridge} {f : PciDevice → A} {seen : List Place} {s : State}

theorem Stable.vendorAt (hstable : Stable react) {config config' : Config}
    (hagrees : ∀ k, Unaffected react k → ∀ q, config' q k = config q k) (p : Place) :
    vendorAt config' p = vendorAt config p :=
  Bytes.field_eq_iff.mpr fun k hk => hagrees _ (hstable.vendor k hk) p

theorem Scanned.count (h : Scanned react start f seen s) :
    s.pciDeviceCount = (enumerated start.shown seen).length := by
  simpa [devices] using congrArg List.length h.entries

theorem Scanned.withBridge (h : Scanned react start f seen s) {b : Bridge}
    (hb : Keeps react s.bridge b) : Scanned react start f seen { s with bridge := b } :=
  ⟨h.keeps.trans hb,h.entries⟩

theorem Scanned.skip (h : Scanned react start f seen s) {ps : List Place}
    (hskip : ∀ p ∈ ps, ¬ Counts start.shown p) : Scanned react start f (seen++ps) s := by
  have hnone : (ps.filter fun p => Counts start.shown p) = [] := by simpa using hskip
  refine ⟨h.keeps,?_⟩
  rw [enumerated_append,hnone,List.take_nil,List.append_nil]
  exact h.entries

theorem devices_update (s : State) (d : PciDevice) (b : Bridge) :
    devices ⟨Function.update s.pciDevices s.pciDeviceCount d,s.pciDeviceCount+1,b⟩ = devices s++[d] := by
  rw [devices,List.range_succ,List.map_append,devices]
  congr 1
  · apply List.map_congr_left
    intro i hi
    exact Function.update_of_ne (List.mem_range.mp hi).ne d s.pciDevices
  · simp

theorem Scanned.scanDevice (h : Scanned react start f seen s) (hstable : Stable react) (hf : Kept react f)
    (hsettled : Settled react start.latch) {p : Place} (hp : p.InRange)
    (hcounts : Present start.shown p → Counts start.shown p) :
    Scanned react start f (seen++[p]) (pciScanDevice react s p.bus p.slot p.func) := by
  obtain ⟨b,hb,hscan⟩ := pciScanDevice_spec react s (h.keeps.latch ▸ hsettled) hp
  have hvendor := hstable.vendorAt h.keeps.shown p
  rw [hscan]
  by_cases hpresent : Present start.shown p
  · by_cases hfull : s.pciDeviceCount ≥ pciMaxDevices
    · rw [if_pos (Or.inr hfull)]
      refine Scanned.withBridge ⟨h.keeps,?_⟩ hb
      rw [enumerated_append,← h.count,Nat.sub_eq_zero_of_le hfull,List.take_zero,List.append_nil]
      exact h.entries
    · have hroom : 0 < pciMaxDevices-s.pciDeviceCount := by omega
      have hone : ([p].filter fun p => Counts start.shown p).take (pciMaxDevices-s.pciDeviceCount) = [p] := by
        rw [List.filter_eq_self.mpr fun q hq => ?_,List.take_of_length_le hroom]
        exact decide_eq_true (List.mem_singleton.mp hq ▸ hcounts hpresent)
      rw [if_neg (not_or.mpr ⟨hvendor ▸ hpresent,hfull⟩)]
      refine ⟨h.keeps.trans hb,?_⟩
      rw [devices_update,List.map_append,h.entries,enumerated_append,← h.count,hone,List.map_append,
        List.map_singleton,List.map_singleton,hf start.shown s.bridge.shown h.keeps.shown p]
  · have habsent : vendorAt s.bridge.shown p = 0xFFFF := hvendor.trans (not_not.mp hpresent)
    rw [if_pos (Or.inl habsent)]
    exact (h.skip fun q hq => List.mem_singleton.mp hq ▸ fun hcount => hpresent hcount.1).withBridge hb

theorem Scanned.readVendor (h : Scanned react start f seen s) (hstable : Stable react) {p : Place}
    (hp : p.InRange) :
    ∃ b, (pciRead16 react p.bus p.slot p.func pciVendorId).run s.bridge = (vendorAt start.shown p,b) ∧
      Scanned react start f seen { s with bridge := b } := by
  obtain ⟨b,hread,hb⟩ := pciRead16_yields react s.bridge.shown s.bridge.latch hp
    (show pciVendorId < 256 by decide) (by decide) s.bridge rfl
  rw [← Pci.vendorAt,hstable.vendorAt h.keeps.shown] at hread
  exact ⟨b,hread,h.withBridge (Keeps.of_view hb)⟩

theorem Scanned.readHeader (h : Scanned react start f seen s) (hstable : Stable react) {p : Place}
    (hp : p.InRange) :
    ∃ b, (pciRead8 react p.bus p.slot p.func pciHeaderType).run s.bridge = ((start.shown p pciHeaderType).toNat,b) ∧
      Scanned react start f seen { s with bridge := b } := by
  obtain ⟨b,hread,hb⟩ := pciRead8_yields react s.bridge.shown s.bridge.latch hp
    (show pciHeaderType < 256 by decide) s.bridge rfl
  rw [h.keeps.shown _ hstable.headerType] at hread
  exact ⟨b,hread,h.withBridge (Keeps.of_view hb)⟩

theorem Scanned.scanFunc (h : Scanned react start f seen s) (hstable : Stable react) (hf : Kept react f)
    (hsettled : Settled react start.latch) {p : Place} (hp : p.InRange) (hmulti : MultiFunction start.shown p) :
    Scanned react start f (seen++[p]) (scanFunc react p.bus p.slot s p.func) := by
  obtain ⟨b,hread,hnext⟩ := h.readVendor hstable hp
  simp only [Pci.scanFunc,hread]
  split_ifs with hpresent
  · exact hnext.scanDevice hstable hf hsettled hp fun hpresent => ⟨hpresent,fun _ => hmulti⟩
  · exact hnext.skip fun q hq hcount => hpresent (List.mem_singleton.mp hq ▸ hcount.1)

theorem Scanned.scanSlot (h : Scanned react start f seen s) (hstable : Stable react) (hf : Kept react f)
    (hsettled : Settled react start.latch) {bus slot : ℕ} (hbus : bus < pciMaxBus) (hslot : slot < pciMaxSlot) :
    Scanned react start f (seen++(List.range pciMaxFunc).map fun func => ⟨bus,slot,func⟩)
      (scanSlot react bus s slot) := by
  have hfirst : (⟨bus,slot,0⟩ : Place).InRange := ⟨hbus,hslot,Nat.zero_lt_succ 7⟩
  have hslots : (List.range pciMaxFunc).map (fun func => (⟨bus,slot,func⟩ : Place)) =
      [⟨bus,slot,0⟩]++(List.range' 1 (pciMaxFunc-1)).flatMap fun func => [⟨bus,slot,func⟩] := rfl
  obtain ⟨b,hread,hnext⟩ := h.readVendor hstable hfirst
  dsimp only at hread
  by_cases habsent : vendorAt start.shown ⟨bus,slot,0⟩ = 0xFFFF
  · -- without function 0 no function of the slot counts
    simp only [Pci.scanSlot,hread,if_pos habsent]
    refine hnext.skip fun p hp hcount => ?_
    obtain ⟨func,-,rfl⟩ := List.mem_map.mp hp
    by_cases hfunc : func = 0
    · subst hfunc
      exact hcount.1 habsent
    · exact (hcount.2 hfunc).1 habsent
  · have hzero := hnext.scanDevice hstable hf hsettled hfirst fun hpresent => ⟨hpresent,fun hne => absurd rfl hne⟩
    obtain ⟨b₁,hheader,hrest⟩ := hzero.readHeader hstable hfirst
    dsimp only at hheader
    rw [hslots,← List.append_assoc]
    simp only [Pci.scanSlot,hread,if_neg habsent,hheader]
    split_ifs with hmulti
    · refine Slots.foldl_covers (fun func hfunc covered s hs => ?_) hrest
      have hlt : func < 8 := by
        have hrange := List.mem_range'_1.mp hfunc
        simp only [pciMaxFunc] at hrange
        omega
      exact hs.scanFunc hstable hf hsettled ⟨hbus,hslot,hlt⟩ ⟨habsent,hmulti⟩
    · refine hrest.skip fun p hp hcount => ?_
      obtain ⟨func,hfunc,hmem⟩ := List.mem_flatMap.mp hp
      obtain rfl := List.mem_singleton.mp hmem
      have hne : func ≠ 0 := Nat.one_le_iff_ne_zero.mp (List.mem_range'_1.mp hfunc).1
      exact hmulti (hcount.2 hne).2

theorem pciInit_scanned (hstable : Stable react) (hf : Kept react f) (s : State)
    (hsettled : Settled react s.bridge.latch) : Scanned react s.bridge f allFunctions (pciInit react s) := by
  have hstart : Scanned react s.bridge f [] { s with pciDeviceCount := 0 } := ⟨Keeps.of_view rfl,rfl⟩
  have hbuses : ∀ bus ∈ List.range pciMaxBus, ∀ covered s', Scanned react s.bridge f covered s' →
      Scanned react s.bridge f (covered++(List.range pciMaxSlot).flatMap fun slot =>
        (List.range pciMaxFunc).map fun func => ⟨bus,slot,func⟩) (scanBus react s' bus) := by
    intro bus hbus covered s' hs
    refine Slots.foldl_covers (fun slot hslot covered s' hs => ?_) hs
    exact hs.scanSlot hstable hf hsettled (List.mem_range.mp hbus) (List.mem_range.mp hslot)
  exact Slots.foldl_covers hbuses hstart

theorem kept_identity (hstable : Stable react) : Kept react PciDevice.identity := by
  intro config config' hagrees p
  simp only [PciDevice.identity,PciDevice.place,deviceAt,hstable.vendorAt hagrees,hagrees _ hstable.classCode,
    hagrees _ hstable.subclass,hagrees _ hstable.progIf]

theorem kept_deviceId (hids : ∀ k < 2, Unaffected react (pciDeviceId+k)) : Kept react PciDevice.deviceId :=
  fun _ _ hagrees p => Bytes.field_eq_iff.mpr fun k hk => hagrees _ (hids k hk) p

end Scan

theorem pciFind_first (s : State) {p : PciDevice → Bool} {P : PciDevice → Prop}
    (hp : ∀ d, p d = true ↔ P d) : First s P (pciFind s p) := by
  have hnot : ∀ d, p d = false ↔ ¬ P d := fun d => by rw [← hp d,Bool.not_eq_true]
  cases hfind : pciFind s p with
  | none => exact fun i hi => (hnot _).mp (Slots.firstSlot_eq_none.mp hfind i hi)
  | some i =>
    obtain ⟨hlt,hpass,hfirst⟩ := Slots.firstSlot_eq_some.mp hfind
    exact ⟨hlt,(hp _).mp hpass,fun j hj => (hnot _).mp (hfirst j hj)⟩

theorem pciFindDevice_first (s : State) (vendor device : ℕ) :
    First s (HasIds vendor device) (pciFindDevice s vendor device) :=
  pciFind_first s fun d => by simp [HasIds]

theorem pciFindClass_first (s : State) (classCode subclass : ℕ) :
    First s (HasClass classCode subclass) (pciFindClass s classCode subclass) :=
  pciFind_first s fun d => by simp [HasClass]

/-- The table lists the functions of the buses: of those that count the first 256, in their
order and each once; and the search finds the first of its entries with given ids. -/
structure Enumerates (react : React) (config : Config) (s : State) : Prop where
  entries : (devices s).map PciDevice.identity =
    (enumerated config allFunctions).map fun p => (deviceAt config p).identity
  ordered : (devices s).Pairwise fun d e => d.place.Before e.place
  deviceIds : (∀ k < 2, Unaffected react (pciDeviceId+k)) →
    (devices s).map PciDevice.deviceId =
      (enumerated config allFunctions).map fun p => (deviceAt config p).deviceId
  finds : ∀ vendor device, First s (HasIds vendor device) (pciFindDevice s vendor device)

theorem pciInit_shown {react : React} (hstable : Stable react) (s : State)
    (hsettled : Settled react s.bridge.latch) : Enumerates react s.bridge.shown (pciInit react s) := by
  have hscan := pciInit_scanned hstable (kept_identity hstable) s hsettled
  refine ⟨hscan.entries,?_,fun hids => ?_,pciFindDevice_first _⟩
  · have hplaces : (devices (pciInit react s)).map PciDevice.place = enumerated s.bridge.shown allFunctions := by
      have hmap := congrArg (List.map Identity.place) hscan.entries
      rw [List.map_map,List.map_map] at hmap
      exact hmap.trans (List.map_id _)
    have hordered := enumerated_ordered s.bridge.shown
    rw [← hplaces] at hordered
    exact List.pairwise_map.mp hordered
  · exact (pciInit_scanned hstable (kept_deviceId hids) s hsettled).entries

/-- The functions that count on the buses are those that the other configuration shows, as far
as the table has room for them. -/
structure Alike (react : React) (config shown : Config) : Prop where
  identity : ((enumerated config allFunctions).map fun p => (deviceAt config p).identity) =
    (enumerated shown allFunctions).map fun p => (deviceAt shown p).identity
  deviceIds : (∀ k < 2, Unaffected react (pciDeviceId+k)) →
    ((enumerated config allFunctions).map fun p => (deviceAt config p).deviceId) =
      (enumerated shown allFunctions).map fun p => (deviceAt shown p).deviceId

theorem enumerated_shown_none {b : Bridge} (hb : b.bytewise = false) (hnone : b.selected = none) :
    enumerated b.shown allFunctions = [] := by
  have habsent : ∀ p, vendorAt b.shown p = 0xFFFF := by
    intro p
    have hbyte : ∀ k, inb b k = 0xFF := fun k => by simp only [inb,hnone,ite_self]
    rw [shown_of_wordwise hb]
    simp [vendorAt,Bytes.field,Bytes.bytesAt,Bytes.leNat,hbyte]
  have hcounts : (allFunctions.filter fun p => Counts b.shown p) = [] :=
    List.filter_eq_nil_iff.mpr fun p _ hp => (of_decide_eq_true hp).1 (habsent p)
  rw [enumerated,hcounts,List.take_nil]

/-- From reset on, the table is right on such a bridge just if there is no function at all. -/
theorem alike_reset_iff (react : React) {b : Bridge} (hb : b.bytewise = false) (hnone : b.selected = none) :
    Alike react b.config b.shown ↔ ∀ p ∈ allFunctions, ¬ Counts b.config p := by
  have hempty : enumerated b.config allFunctions = [] ↔ ∀ p ∈ allFunctions, ¬ Counts b.config p := by
    rw [enumerated,List.take_eq_nil_iff]
    simp [pciMaxDevices]
  rw [← hempty]
  constructor
  · intro h
    have hmap := h.identity
    rw [enumerated_shown_none hb hnone,List.map_nil] at hmap
    exact List.map_eq_nil_iff.mp hmap
  · intro h
    refine ⟨?_,fun _ => ?_⟩
    · rw [h,enumerated_shown_none hb hnone,List.map_nil,List.map_nil]
    · rw [h,enumerated_shown_none hb hnone,List.map_nil,List.map_nil]

theorem enumerates_iff_alike {react : React} (hstable : Stable react) (s : State)
    (hsettled : Settled react s.bridge.latch) :
    Enumerates react s.bridge.config (pciInit react s) ↔ Alike react s.bridge.config s.bridge.shown := by
  have hshown := pciInit_shown hstable s hsettled
  constructor
  · exact fun h => ⟨h.entries.symm.trans hshown.entries,fun hids =>
      (h.deviceIds hids).symm.trans (hshown.deviceIds hids)⟩
  · intro halike
    exact ⟨hshown.entries.trans halike.identity.symm,hshown.ordered,fun hids =>
      (hshown.deviceIds hids).trans (halike.deviceIds hids).symm,hshown.finds⟩

theorem alike_of_bytewise (react : React) {b : Bridge} (hb : b.bytewise = true) :
    Alike react b.config b.shown := by
  rw [shown_of_bytewise hb]
  exact ⟨rfl,fun _ => rfl⟩

/-- The scan loses no function and lists none twice just where the bridge takes the addresses
of the driver, or the register that it leaves selected happens to show these very functions
at their places; where none is selected, as from reset on, just if there is no function. -/
theorem pciInit_enumerates_iff {react : React} (hstable : Stable react) (s : State)
    (hsettled : Settled react s.bridge.latch) :
    (Enumerates react s.bridge.config (pciInit react s) ↔
      s.bridge.bytewise = true ∨ Alike react s.bridge.config s.bridge.shown) ∧
    (s.bridge.selected = none → (Enumerates react s.bridge.config (pciInit react s) ↔
      s.bridge.bytewise = true ∨ ∀ p ∈ allFunctions, ¬ Counts s.bridge.config p)) := by
  have hiff := enumerates_iff_alike hstable s hsettled
  refine ⟨hiff.trans ⟨Or.inr,Or.rec (alike_of_bytewise react) id⟩,fun hnone => hiff.trans ?_⟩
  cases hb : s.bridge.bytewise with
  | true => exact ⟨fun _ => Or.inl rfl,fun _ => alike_of_bytewise react hb⟩
  | false => exact (alike_reset_iff react hb hnone).trans (or_iff_right Bool.false_ne_true).symm

/-- Functions that keep what is written to their command registers, and nothing else. -/
def keepCommand (config : Config) (p : Place) (offset : ℕ) (val : UInt8) : Config := fun q k =>
  if q = p ∧ k = offset ∧ pciCommand ≤ k ∧ k < pciCommand+2 then val else config q k

theorem keepCommand_unaffected {k : ℕ} (hk : ¬ (pciCommand ≤ k ∧ k < pciCommand+2)) :
    Unaffected keepCommand k :=
  fun _ _ _ _ _ _ _ => if_neg fun h => hk h.2.2

/-- A slot with a network card that has two functions. -/
def cardConfig : Config := fun p k =>
  if p.bus = 0 ∧ p.slot = 3 ∧ p.func < 2 then
    [0xEC,0x10,0x68,0x81,0,0,0,0,0,0,0,0x02,0,0,0x80,0].getD k 0
  else 0xFF

theorem keepCommand_stable : Stable keepCommand where
  vendor := fun k hk => keepCommand_unaffected (by unfold pciVendorId pciCommand; omega)
  classCode := keepCommand_unaffected (by decide)
  subclass := keepCommand_unaffected (by decide)
  progIf := keepCommand_unaffected (by decide)
  headerType := keepCommand_unaffected (by decide)

/-- The driver before its scan, behind a bridge whose address register holds this value. -/
def unscanned (config : Config) (address : ℕ) (bytewise : Bool) : State :=
  ⟨fun _ => deviceAt config ⟨0,0,0⟩,0,⟨fun k => UInt8.ofNat (address >>> (8*k)),config,bytewise⟩⟩

theorem settled_card : Settled keepCommand (unscanned cardConfig 0x80001800 false).bridge.latch := by
  intro p offset hleft config j val hj k hk
  have hlatch : (unscanned cardConfig 0x80001800 false).bridge.latch = some (⟨0,3,0⟩,0) := by decide
  obtain ⟨rfl,rfl⟩ := Prod.mk.inj (Option.some.inj (hlatch.symm.trans hleft))
  exact if_neg fun h => absurd h.2.2.1 (by unfold pciCommand; omega)

theorem pciInit_enumerates_card :
    (Enumerates keepCommand cardConfig (pciInit keepCommand (unscanned cardConfig 0x80001800 false)) ↔
      false = true ∨ Alike keepCommand cardConfig (unscanned cardConfig 0x80001800 false).bridge.shown) ∧
    ((unscanned cardConfig 0x80001800 false).bridge.selected = none →
      (Enumerates keepCommand cardConfig (pciInit keepCommand (unscanned cardConfig 0x80001800 false)) ↔
        false = true ∨ ∀ p ∈ allFunctions, ¬ Counts cardConfig p)) :=
  pciInit_enumerates_iff keepCommand_stable (unscanned cardConfig 0x80001800 false) settled_card

/-- From reset on, the scan finds nothing on a machine with the card. -/
theorem card_not_enumerated :
    ¬ Enumerates keepCommand cardConfig (pciInit keepCommand (unscanned cardConfig 0 false)) := by
  intro h
  have halike := (enumerates_iff_alike keepCommand_stable (unscanned cardConfig 0 false)
    (settled_none keepCommand)).mp h
  have hnone := (alike_reset_iff keepCommand (b := (unscanned cardConfig 0 false).bridge) rfl (by decide)).mp halike
  exact hnone ⟨0,3,0⟩ (mem_allFunctions.mpr (by constructor <;> decide)) (by decide)

end Pci
end ValiantCore
