import ValiantCore.Bytes
import ValiantCore.Slots

/-! The descriptor tables of `arch/x86/gdt.c` and `arch/x86/interrupts.c`: how the C code
takes a base and a limit apart, and what the processor puts together again. -/
namespace ValiantCore
namespace Descriptors

open Bytes

structure IdtEntry where
  baseLo : ℕ
  sel : ℕ
  ist : ℕ
  flags : ℕ
  baseMid : ℕ
  baseHi : ℕ
  always0 : ℕ

def IdtEntry.bytes (e : IdtEntry) : List UInt8 :=
  leBytes 2 e.baseLo++leBytes 2 e.sel++leBytes 1 e.ist++leBytes 1 e.flags++leBytes 2 e.baseMid++
    leBytes 4 e.baseHi++leBytes 4 e.always0

/-- The packed `struct idt_entry` of i386. -/
structure IdtEntry32 where
  baseLo : ℕ
  sel : ℕ
  always0 : ℕ
  flags : ℕ
  baseHi : ℕ

def IdtEntry32.bytes (e : IdtEntry32) : List UInt8 :=
  leBytes 2 e.baseLo++leBytes 2 e.sel++leBytes 1 e.always0++leBytes 1 e.flags++leBytes 2 e.baseHi

def gate (base sel flags : ℕ) : IdtEntry where
  baseLo := base &&& 0xFFFF
  baseMid := (base >>> 16) &&& 0xFFFF
  baseHi := (base >>> 32) &&& 0xFFFFFFFF
  sel := sel
  ist := 0
  flags := flags
  always0 := 0

def gate32 (base sel flags : ℕ) : IdtEntry32 where
  baseLo := base &&& 0xFFFF
  baseHi := (base >>> 16) &&& 0xFFFF
  sel := sel
  always0 := 0
  flags := flags

def idtSetGate (idt : ℕ → IdtEntry) (num base sel flags : ℕ) : ℕ → IdtEntry :=
  Function.update idt num (gate base sel flags)

def idtSetGate32 (idt : ℕ → IdtEntry32) (num base sel flags : ℕ) : ℕ → IdtEntry32 :=
  Function.update idt num (gate32 base sel flags)

/-- What the processor takes from a gate. -/
structure Gate where
  offset : ℕ
  selector : ℕ
  flags : ℕ
  deriving DecidableEq

/-- The processor at the 16 bytes of a 64-bit gate, and at the 8 of a 32-bit one. -/
def readGate (byte : ℕ → UInt8) (a : ℕ) : Gate :=
  ⟨field byte a 2+2^16*field byte (a+6) 2+2^32*field byte (a+8) 4,field byte (a+2) 2,
    field byte (a+5) 1⟩

def readGate32 (byte : ℕ → UInt8) (a : ℕ) : Gate :=
  ⟨field byte a 2+2^16*field byte (a+6) 2,field byte (a+2) 2,field byte (a+5) 1⟩

def idtImage (idt : ℕ → IdtEntry) : ℕ → UInt8 := records 16 fun v => (idt v).bytes
def idtImage32 (idt : ℕ → IdtEntry32) : ℕ → UInt8 := records 8 fun v => (idt v).bytes

def gateOf (idt : ℕ → IdtEntry) (v : ℕ) : Gate := readGate (idtImage idt) (16*v)
def gateOf32 (idt : ℕ → IdtEntry32) (v : ℕ) : Gate := readGate32 (idtImage32 idt) (8*v)

section Fields
variable {byte : ℕ → UInt8} {a : ℕ}

theorem readGate_of_holds {e : IdtEntry} (h : Holds byte a e.bytes) : readGate byte a =
    ⟨e.baseLo%2^16+2^16*(e.baseMid%2^16)+2^32*(e.baseHi%2^32),e.sel%2^16,e.flags%2^8⟩ := by
  simp only [IdtEntry.bytes,holds_append,List.length_append,leBytes_length] at h
  obtain ⟨⟨⟨⟨⟨⟨hlo,hsel⟩,-⟩,hflags⟩,hmid⟩,hhi⟩,-⟩ := h
  rw [readGate,hlo.field,hsel.field,hflags.field,hmid.field,hhi.field]
  norm_num

theorem readGate32_of_holds {e : IdtEntry32} (h : Holds byte a e.bytes) : readGate32 byte a =
    ⟨e.baseLo%2^16+2^16*(e.baseHi%2^16),e.sel%2^16,e.flags%2^8⟩ := by
  simp only [IdtEntry32.bytes,holds_append,List.length_append,leBytes_length] at h
  obtain ⟨⟨⟨⟨hlo,hsel⟩,-⟩,hflags⟩,hhi⟩ := h
  rw [readGate32,hlo.field,hsel.field,hflags.field,hhi.field]
  norm_num

end Fields

theorem gateOf_eq (idt : ℕ → IdtEntry) (v : ℕ) : gateOf idt v =
    ⟨(idt v).baseLo%2^16+2^16*((idt v).baseMid%2^16)+2^32*((idt v).baseHi%2^32),(idt v).sel%2^16,
      (idt v).flags%2^8⟩ :=
  readGate_of_holds (holds_records (by simp [IdtEntry.bytes]))

theorem gateOf32_eq (idt : ℕ → IdtEntry32) (v : ℕ) : gateOf32 idt v =
    ⟨(idt v).baseLo%2^16+2^16*((idt v).baseHi%2^16),(idt v).sel%2^16,(idt v).flags%2^8⟩ :=
  readGate32_of_holds (holds_records (by simp [IdtEntry32.bytes]))

section Split
variable {base sel flags : ℕ}

theorem shift_low (n s k : ℕ) : (n >>> s) &&& (2^k-1) = n/2^s%2^k := by
  rw [Nat.and_two_pow_sub_one_eq_mod,Nat.shiftRight_eq_div_pow]

theorem gate_base (hbase : base < 2^64) : (gate base sel flags).baseLo%2^16+
    2^16*((gate base sel flags).baseMid%2^16)+2^32*((gate base sel flags).baseHi%2^32) = base := by
  have hlo : (gate base sel flags).baseLo = base%2^16 :=
    Nat.and_two_pow_sub_one_eq_mod base 16
  have hmid : (gate base sel flags).baseMid = base/2^16%2^16 := shift_low base 16 16
  have hhi : (gate base sel flags).baseHi = base/2^32%2^32 := shift_low base 32 32
  rw [hlo,hmid,hhi]
  omega

theorem gate32_base (hbase : base < 2^32) :
    (gate32 base sel flags).baseLo%2^16+2^16*((gate32 base sel flags).baseHi%2^16) = base := by
  have hlo : (gate32 base sel flags).baseLo = base%2^16 :=
    Nat.and_two_pow_sub_one_eq_mod base 16
  have hhi : (gate32 base sel flags).baseHi = base/2^16%2^16 := shift_low base 16 16
  rw [hlo,hhi]
  omega

theorem gateOf_gate {idt : ℕ → IdtEntry} {v : ℕ} (hv : idt v = gate base sel flags)
    (hbase : base < 2^64) (hsel : sel < 2^16) (hflags : flags < 2^8) :
    gateOf idt v = ⟨base,sel,flags⟩ := by
  rw [gateOf_eq,hv,gate_base hbase]
  congr 1
  · exact Nat.mod_eq_of_lt hsel
  · exact Nat.mod_eq_of_lt hflags

theorem gateOf32_gate {idt : ℕ → IdtEntry32} {v : ℕ} (hv : idt v = gate32 base sel flags)
    (hbase : base < 2^32) (hsel : sel < 2^16) (hflags : flags < 2^8) :
    gateOf32 idt v = ⟨base,sel,flags⟩ := by
  rw [gateOf32_eq,hv,gate32_base hbase]
  congr 1
  · exact Nat.mod_eq_of_lt hsel
  · exact Nat.mod_eq_of_lt hflags

end Split

section Calls

/-- A call of `idt_set_gate`, within the types of its parameters: `limit` is `2^64` or `2^32`. -/
structure Call (limit : ℕ) where
  num : ℕ
  base : ℕ
  sel : ℕ
  flags : ℕ
  base_lt : base < limit
  sel_lt : sel < 2^16
  flags_lt : flags < 2^8

def Call.gate {limit : ℕ} (c : Call limit) : Gate := ⟨c.base,c.sel,c.flags⟩

def setGates (idt : ℕ → IdtEntry) (calls : List (Call (2^64))) : ℕ → IdtEntry :=
  calls.foldl (fun t c => idtSetGate t c.num c.base c.sel c.flags) idt

def setGates32 (idt : ℕ → IdtEntry32) (calls : List (Call (2^32))) : ℕ → IdtEntry32 :=
  calls.foldl (fun t c => idtSetGate32 t c.num c.base c.sel c.flags) idt

theorem gateOf_calls (idt : ℕ → IdtEntry) (calls : List (Call (2^64))) (v : ℕ) :
    gateOf (setGates idt calls) v =
      ((Slots.lastWrite Call.num calls v).map Call.gate).getD (gateOf idt v) := by
  have htable := Slots.foldl_update Call.num (fun c => gate c.base c.sel c.flags) idt calls v
  cases hlast : Slots.lastWrite Call.num calls v with
  | none =>
    rw [hlast] at htable
    rw [gateOf_eq,gateOf_eq,setGates]
    simp only [idtSetGate]
    rw [htable]
    rfl
  | some c =>
    rw [hlast] at htable
    exact gateOf_gate htable c.base_lt c.sel_lt c.flags_lt

theorem gateOf32_calls (idt : ℕ → IdtEntry32) (calls : List (Call (2^32))) (v : ℕ) :
    gateOf32 (setGates32 idt calls) v =
      ((Slots.lastWrite Call.num calls v).map Call.gate).getD (gateOf32 idt v) := by
  have htable := Slots.foldl_update Call.num (fun c => gate32 c.base c.sel c.flags) idt calls v
  cases hlast : Slots.lastWrite Call.num calls v with
  | none =>
    rw [hlast] at htable
    rw [gateOf32_eq,gateOf32_eq,setGates32]
    simp only [idtSetGate32]
    rw [htable]
    rfl
  | some c =>
    rw [hlast] at htable
    exact gateOf32_gate htable c.base_lt c.sel_lt c.flags_lt

/-- After any calls the processor finds at each vector what the last call for it asked for,
and what was there before if there was none: with the entries of the 64-bit build, and with
those of the 32-bit one. -/
theorem gateOf_setGates :
    (∀ (idt : ℕ → IdtEntry) (calls : List (Call (2^64))) (v : ℕ), gateOf (setGates idt calls) v =
      ((Slots.lastWrite Call.num calls v).map Call.gate).getD (gateOf idt v)) ∧
    ∀ (idt : ℕ → IdtEntry32) (calls : List (Call (2^32))) (v : ℕ), gateOf32 (setGates32 idt calls) v =
      ((Slots.lastWrite Call.num calls v).map Call.gate).getD (gateOf32 idt v) :=
  ⟨gateOf_calls,gateOf32_calls⟩

end Calls

section InitIdt

/-- The entries of `interrupts.asm`. -/
inductive Stub
  | isr (n : ℕ)
  | irq (n : ℕ)
  deriving DecidableEq

/-- The calls of `init_idt` after its loop, in its order. -/
def installed : List (ℕ × Stub) :=
  [(0,.isr 0),(13,.isr 13),(14,.isr 14),(32,.irq 0),(33,.irq 1),(1,.isr 1),(3,.isr 3),(4,.isr 4),
    (5,.isr 5),(6,.isr 6),(7,.isr 7),(8,.isr 8),(9,.isr 9),(10,.isr 10),(11,.isr 11),(12,.isr 12)]

def cleared (idt : ℕ → IdtEntry) : ℕ → IdtEntry :=
  (List.range 256).foldl (fun t i => idtSetGate t i 0 0 0) idt

/-- The table that `init_idt` fills before it calls `idt_flush`; `address` is where the linker puts
the stubs. -/
def initIdt (address : Stub → Fin (2^64)) (idt : ℕ → IdtEntry) : ℕ → IdtEntry :=
  installed.foldl (fun t p => idtSetGate t p.1 (address p.2) 0x08 0x8E) (cleared idt)

/-- The stub of each vector: an exception has its own, but for 2, and two interrupts have one. -/
def stubOf (v : ℕ) : Option Stub :=
  if v ≤ 14 ∧ v ≠ 2 then some (.isr v)
  else if v = 32 ∨ v = 33 then some (.irq (v-32))
  else none

set_option maxRecDepth 2000 in
theorem lastWrite_installed :
    ∀ v < 256, (Slots.lastWrite Prod.fst installed v).map Prod.snd = stubOf v := by
  decide +kernel

theorem lastWrite_range {n v : ℕ} (hv : v < n) : Slots.lastWrite id (List.range n) v = some v := by
  induction n with
  | zero => exact absurd hv (Nat.not_lt_zero v)
  | succ n ih =>
    rw [List.range_succ,Slots.lastWrite_concat]
    by_cases heq : n = v
    · rw [id,if_pos heq,heq]
    · rw [id,if_neg heq,ih (by omega)]

theorem cleared_eq (idt : ℕ → IdtEntry) {v : ℕ} (hv : v < 256) : cleared idt v = gate 0 0 0 := by
  have htable := Slots.foldl_update id (fun _ => gate 0 0 0) idt (List.range 256) v
  rw [lastWrite_range hv] at htable
  exact htable

/-- After `init_idt` the vectors with a stub have an interrupt gate to it, the others none. -/
theorem gateOf_initIdt (address : Stub → Fin (2^64)) (idt : ℕ → IdtEntry) {v : ℕ} (hv : v < 256) :
    gateOf (initIdt address idt) v =
      ((stubOf v).map fun s => ⟨address s,0x08,0x8E⟩).getD ⟨0,0,0⟩ := by
  have htable : initIdt address idt v =
      ((Slots.lastWrite Prod.fst installed v).map fun p => gate (address p.2) 0x08 0x8E).getD
        (cleared idt v) :=
    Slots.foldl_update Prod.fst _ (cleared idt) installed v
  rw [cleared_eq idt hv] at htable
  rw [← lastWrite_installed v hv]
  cases hlast : Slots.lastWrite Prod.fst installed v with
  | none =>
    rw [hlast] at htable
    exact gateOf_gate htable (by decide) (by decide) (by decide)
  | some p =>
    rw [hlast] at htable
    exact gateOf_gate htable (address p.2).isLt (by decide) (by decide)

end InitIdt

section Gdt

/-- The packed `struct gdt_entry`, the same in both builds. -/
structure GdtEntry where
  limitLow : ℕ
  baseLow : ℕ
  baseMiddle : ℕ
  access : ℕ
  granularity : ℕ
  baseHigh : ℕ

def GdtEntry.bytes (e : GdtEntry) : List UInt8 :=
  leBytes 2 e.limitLow++leBytes 2 e.baseLow++leBytes 1 e.baseMiddle++leBytes 1 e.access++
    leBytes 1 e.granularity++leBytes 1 e.baseHigh

def descriptor (base limit access gran : ℕ) : GdtEntry where
  baseLow := base &&& 0xFFFF
  baseMiddle := (base >>> 16) &&& 0xFF
  baseHigh := (base >>> 24) &&& 0xFF
  limitLow := limit &&& 0xFFFF
  granularity := (limit >>> 16) &&& 0x0F ||| gran &&& 0xF0
  access := access

def gdtSetGate (gdt : ℕ → GdtEntry) (num base limit access gran : ℕ) : ℕ → GdtEntry :=
  Function.update gdt num (descriptor base limit access gran)

/-- What the processor takes from a descriptor: the limit has 20 bits, the flags four. -/
structure Segment where
  base : ℕ
  rawLimit : ℕ
  access : ℕ
  flags : ℕ
  deriving DecidableEq

def readSegment (byte : ℕ → UInt8) (a : ℕ) : Segment :=
  ⟨field byte (a+2) 2+2^16*field byte (a+4) 1+2^24*field byte (a+7) 1,
    field byte a 2+2^16*(field byte (a+6) 1%16),field byte (a+5) 1,field byte (a+6) 1/16⟩

def gdtImage (gdt : ℕ → GdtEntry) : ℕ → UInt8 := records 8 fun n => (gdt n).bytes

def segmentOf (gdt : ℕ → GdtEntry) (n : ℕ) : Segment := readSegment (gdtImage gdt) (8*n)

theorem segmentOf_eq (gdt : ℕ → GdtEntry) (n : ℕ) : segmentOf gdt n =
    ⟨(gdt n).baseLow%2^16+2^16*((gdt n).baseMiddle%2^8)+2^24*((gdt n).baseHigh%2^8),
      (gdt n).limitLow%2^16+2^16*((gdt n).granularity%2^8%16),(gdt n).access%2^8,
      (gdt n).granularity%2^8/16⟩ := by
  have h : Holds (gdtImage gdt) (8*n) (gdt n).bytes := holds_records (by simp [GdtEntry.bytes])
  simp only [GdtEntry.bytes,holds_append,List.length_append,leBytes_length] at h
  obtain ⟨⟨⟨⟨⟨hlimit,hlow⟩,hmid⟩,haccess⟩,hgran⟩,hhigh⟩ := h
  rw [segmentOf,readSegment,hlow.field,hmid.field,hhigh.field,hlimit.field,hgran.field,
    haccess.field]
  norm_num

section Split
variable {base limit access gran : ℕ}

theorem descriptor_base (hbase : base < 2^32) : (descriptor base limit access gran).baseLow%2^16+
    2^16*((descriptor base limit access gran).baseMiddle%2^8)+
    2^24*((descriptor base limit access gran).baseHigh%2^8) = base := by
  have hlow : (descriptor base limit access gran).baseLow = base%2^16 :=
    Nat.and_two_pow_sub_one_eq_mod base 16
  have hmid : (descriptor base limit access gran).baseMiddle = base/2^16%2^8 := shift_low base 16 8
  have hhigh : (descriptor base limit access gran).baseHigh = base/2^24%2^8 := shift_low base 24 8
  rw [hlow,hmid,hhigh]
  omega

set_option maxRecDepth 2000 in
theorem and_flags : ∀ g < 256, g &&& 0xF0 = 16*(g/16) := by decide
theorem or_flags : ∀ a < 16, ∀ b < 16, a ||| 16*b = a+16*b := by decide

theorem descriptor_granularity (hgran : gran < 2^8) :
    (descriptor base limit access gran).granularity = limit/2^16%16+16*(gran/16) := by
  have hlimit : (limit >>> 16) &&& 0x0F = limit/2^16%16 := shift_low limit 16 4
  rw [descriptor,hlimit,and_flags gran hgran,or_flags _ (by omega) _ (by omega)]

/-- The processor finds the base, the low 20 bits of the limit, the access byte and the high
half of the granularity byte that `gdt_set_gate` was called with. -/
theorem segmentOf_descriptor {gdt : ℕ → GdtEntry} {n : ℕ}
    (hn : gdt n = descriptor base limit access gran) (hbase : base < 2^32) (haccess : access < 2^8)
    (hgran : gran < 2^8) : segmentOf gdt n = ⟨base,limit%2^20,access,gran/16⟩ := by
  have hlow : (descriptor base limit access gran).limitLow = limit%2^16 :=
    Nat.and_two_pow_sub_one_eq_mod limit 16
  have haccess' : (descriptor base limit access gran).access%2^8 = access :=
    Nat.mod_eq_of_lt haccess
  rw [segmentOf_eq,hn,descriptor_base hbase,hlow,descriptor_granularity hgran,haccess']
  congr 1
  · omega
  · omega

end Split

/-- A call of `gdt_set_gate`, within the types of its parameters. -/
structure GdtCall where
  num : ℕ
  base : ℕ
  limit : ℕ
  access : ℕ
  gran : ℕ
  base_lt : base < 2^32
  access_lt : access < 2^8
  gran_lt : gran < 2^8

def GdtCall.segment (c : GdtCall) : Segment := ⟨c.base,c.limit%2^20,c.access,c.gran/16⟩

def setSegments (gdt : ℕ → GdtEntry) (calls : List GdtCall) : ℕ → GdtEntry :=
  calls.foldl (fun t c => gdtSetGate t c.num c.base c.limit c.access c.gran) gdt

theorem segmentOf_setSegments (gdt : ℕ → GdtEntry) (calls : List GdtCall) (n : ℕ) :
    segmentOf (setSegments gdt calls) n =
      ((Slots.lastWrite GdtCall.num calls n).map GdtCall.segment).getD (segmentOf gdt n) := by
  have htable := Slots.foldl_update GdtCall.num
    (fun c => descriptor c.base c.limit c.access c.gran) gdt calls n
  cases hlast : Slots.lastWrite GdtCall.num calls n with
  | none =>
    rw [hlast] at htable
    rw [segmentOf_eq,segmentOf_eq,setSegments]
    simp only [gdtSetGate]
    rw [htable]
    rfl
  | some c =>
    rw [hlast] at htable
    exact segmentOf_descriptor htable c.base_lt c.access_lt c.gran_lt

/-- The code segment has 64-bit code in the x86-64 build and 32-bit code in the other. -/
def codeGran (x86_64 : Bool) : ℕ := if x86_64 then 0xAF else 0xCF

def initGdt (x86_64 : Bool) (gdt : ℕ → GdtEntry) : ℕ → GdtEntry :=
  let gdt := gdtSetGate gdt 0 0 0 0x00 0x00
  let gdt := gdtSetGate gdt 1 0 0xFFFFFFFF 0x9A (codeGran x86_64)
  gdtSetGate gdt 2 0 0xFFFFFFFF 0x92 0xCF

theorem initGdt_code (x86_64 : Bool) (gdt : ℕ → GdtEntry) :
    segmentOf (initGdt x86_64 gdt) 1 = ⟨0,0xFFFFF,0x9A,codeGran x86_64/16⟩ := by
  have hcode : segmentOf (initGdt x86_64 gdt) 1 = ⟨0,0xFFFFFFFF%2^20,0x9A,codeGran x86_64/16⟩ :=
    segmentOf_descriptor rfl (by decide) (by decide) (by cases x86_64 <;> decide)
  have hlimit : 0xFFFFFFFF%2^20 = 0xFFFFF := by norm_num
  rw [hcode,hlimit]

end Gdt

end Descriptors
end ValiantCore
