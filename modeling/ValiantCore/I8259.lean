import ValiantCore.Descriptors
import ValiantCore.PriorityService
import Mathlib.Data.List.Find

/-! `arch/x86/i8259.c` and the pair of interrupt controllers it drives: the second is
cascaded to line 2 of the first. The controllers know the initialisation words and the
commands that the driver sends; requests are edges. -/
namespace ValiantCore
namespace I8259

/-- What a controller takes a write to its data port for. -/
inductive Stage
  | icw2
  | icw3
  | icw4
  | ready
  deriving DecidableEq

structure Chip where
  irr : BitVec 8
  isr : BitVec 8
  imr : BitVec 8
  stage : Stage
  single : Bool
  needsIcw4 : Bool
  offset : BitVec 8
  cascade : BitVec 8
  mode : BitVec 8
  readIsr : Bool

/-- Line 0 has the highest priority. -/
def firstIn (l : List (Fin 8)) (x : BitVec 8) : Option (Fin 8) := l.find? fun i => x.getLsbD i

def first (x : BitVec 8) : Option (Fin 8) := firstIn (List.finRange 8) x

def bit (k : ℕ) : BitVec 8 := (1 : BitVec 8) <<< k

namespace Chip

/-- The line that the controller asks the processor to serve: none while one of its priority
or higher is in service. -/
def request (c : Chip) (lines : BitVec 8) : Option (Fin 8) :=
  (first (lines &&& ~~~c.imr)).filter fun i => (List.finRange 8).all fun j => decide (i < j) || !c.isr.getLsbD j

/-- A write to the command port: ICW1, OCW3 or a non-specific end of interrupt. -/
def command (c : Chip) (v : BitVec 8) : Chip :=
  if v[4] then
    { c with
      irr := 0, isr := 0, imr := 0, stage := .icw2, single := v[1], needsIcw4 := v[0], mode := 0
      readIsr := false }
  else if v[3] then
    if v[1] then { c with readIsr := v[0] } else c
  else if v = 0x20 then
    { c with isr := c.isr &&& ~~~((first c.isr).map fun i => bit i).getD 0 }
  else c

def data (c : Chip) (v : BitVec 8) : Chip :=
  let last : Stage := if c.needsIcw4 then .icw4 else .ready
  match c.stage with
  | .icw2 => { c with offset := v &&& 0xF8, stage := if c.single then last else .icw3 }
  | .icw3 => { c with cascade := v, stage := last }
  | .icw4 => { c with mode := v, stage := .ready }
  | .ready => { c with imr := v }

def acknowledge (c : Chip) (i : Fin 8) : Chip :=
  { c with isr := c.isr ||| bit i, irr := c.irr &&& ~~~bit i }

def status (c : Chip) : BitVec 8 := if c.readIsr then c.isr else c.irr

end Chip

structure Pics where
  master : Chip
  slave : Chip

def pic1Cmd : ℕ := 0x20
def pic1Data : ℕ := 0x21
def pic2Cmd : ℕ := 0xA0
def pic2Data : ℕ := 0xA1
def picEoi : BitVec 8 := 0x20

namespace Pics

/-- Other ports, such as the 0x80 that the driver waits with, are not the controllers'. -/
def outb (s : Pics) (port : ℕ) (v : BitVec 8) : Pics :=
  if port = pic1Cmd then { s with master := s.master.command v }
  else if port = pic1Data then { s with master := s.master.data v }
  else if port = pic2Cmd then { s with slave := s.slave.command v }
  else if port = pic2Data then { s with slave := s.slave.data v }
  else s

def inb (s : Pics) (port : ℕ) : BitVec 8 :=
  if port = pic1Cmd then s.master.status
  else if port = pic1Data then s.master.imr
  else if port = pic2Cmd then s.slave.status
  else if port = pic2Data then s.slave.imr
  else 0xFF

end Pics

def icw1Init : BitVec 8 := 0x10
def icw1Icw4 : BitVec 8 := 0x01
def icw4_8086 : BitVec 8 := 0x01
def pic1Offset : BitVec 8 := 0x20
def pic2Offset : BitVec 8 := 0x28
def picReadIrr : BitVec 8 := 0x0A
def picReadIsr : BitVec 8 := 0x0B

def picInit (s : Pics) : Pics :=
  let mask1 := s.inb pic1Data
  let mask2 := s.inb pic2Data
  let s := s.outb pic1Cmd (icw1Init ||| icw1Icw4)
  let s := s.outb 0x80 0
  let s := s.outb pic2Cmd (icw1Init ||| icw1Icw4)
  let s := s.outb 0x80 0
  let s := s.outb pic1Data pic1Offset
  let s := s.outb 0x80 0
  let s := s.outb pic2Data pic2Offset
  let s := s.outb pic1Data 0x04
  let s := s.outb 0x80 0
  let s := s.outb pic2Data 0x02
  let s := s.outb 0x80 0
  let s := s.outb pic1Data icw4_8086
  let s := s.outb 0x80 0
  let s := s.outb pic2Data icw4_8086
  let s := s.outb 0x80 0
  let s := s.outb pic1Data mask1
  s.outb pic2Data mask2

def picSendEoi (irq : BitVec 8) (s : Pics) : Pics :=
  let s := if irq ≥ 8 then s.outb pic2Cmd picEoi else s
  s.outb pic1Cmd picEoi

/-- `1 << irq` is an `int`; what reaches the port are its low eight bits. The processor shifts
modulo 32. -/
def picSetMask (irq : BitVec 8) (s : Pics) : Pics :=
  let port := if irq < 8 then pic1Data else pic2Data
  let irq := if irq < 8 then irq else irq-8
  s.outb port (s.inb port ||| bit (irq.toNat%32))

def picClearMask (irq : BitVec 8) (s : Pics) : Pics :=
  let port := if irq < 8 then pic1Data else pic2Data
  let irq := if irq < 8 then irq else irq-8
  s.outb port (s.inb port &&& ~~~bit (irq.toNat%32))

/-- The new state, and what is returned. -/
def picGetReg (ocw3 : BitVec 8) (s : Pics) : Pics × BitVec 16 :=
  let s := s.outb pic1Cmd ocw3
  let s := s.outb pic2Cmd ocw3
  (s,(s.inb pic2Cmd).setWidth 16 <<< 8 ||| (s.inb pic1Cmd).setWidth 16)

def picGetIrr (s : Pics) : Pics × BitVec 16 := picGetReg picReadIrr s
def picGetIsr (s : Pics) : Pics × BitVec 16 := picGetReg picReadIsr s

def picDisable (s : Pics) : Pics := (s.outb pic2Data 0xFF).outb pic1Data 0xFF

namespace Pics

/-- The lines of the first controller: the second raises line 2 while it asks. -/
def lines (s : Pics) : BitVec 8 :=
  if (s.slave.request s.slave.irr).isSome then s.master.irr ||| bit 2 else s.master.irr &&& ~~~bit 2

/-- The processor takes a request: the controllers answer with its vector. -/
def accept (s : Pics) : Option (Pics × BitVec 8) :=
  (s.master.request s.lines).bind fun i =>
    if i = 2 then (s.slave.request s.slave.irr).map fun j =>
      (⟨s.master.acknowledge 2,s.slave.acknowledge j⟩,s.slave.offset+BitVec.ofNat 8 j)
    else some ({ s with master := s.master.acknowledge i },s.master.offset+BitVec.ofNat 8 i)

/-- A device raises interrupt `irq`; line 2 of the first controller has none. -/
def raise (s : Pics) (irq : BitVec 8) : Pics :=
  if irq = 2 then s
  else if irq < 8 then { s with master := { s.master with irr := s.master.irr ||| bit irq.toNat } }
  else { s with slave := { s.slave with irr := s.slave.irr ||| bit (irq.toNat-8) } }

end Pics

open PriorityService (Controller Op Service)

/-- `irq_handler` with an interrupt that the processor has taken: the handlers leave the
controllers alone, and the number of the interrupt is the argument of `pic_send_eoi`. -/
def irqHandler (r : Pics × BitVec 8) : Pics × BitVec 8 := (picSendEoi (r.2-32) r.1,r.2-32)

/-- `init_idt` has set a gate for the vector. -/
def gated (vector : BitVec 8) : Bool := (Descriptors.stubOf vector.toNat).isSome

/-- The processor takes an interrupt through its gate; at a vector without one it raises an
exception instead, and that is the end in `kernel_panic`. -/
def service (s : Pics) : Service Pics (BitVec 8) :=
  match s.accept with
  | none => .idle
  | some r => if gated r.2 then .served (irqHandler r).1 (irqHandler r).2 else .fatal (r.2-32)

/-- What else the driver does. -/
inductive Adjust
  | setMask (irq : BitVec 8)
  | clearMask (irq : BitVec 8)
  | getIrr
  | getIsr
  | disable

def adjust (s : Pics) : Adjust → Pics
  | .setMask irq => picSetMask irq s
  | .clearMask irq => picClearMask irq s
  | .getIrr => (picGetIrr s).1
  | .getIsr => (picGetIsr s).1
  | .disable => picDisable s

/-- The controllers between two interrupts: nothing is in service. -/
structure Idle (s : Pics) : Prop where
  masterStage : s.master.stage = .ready
  slaveStage : s.slave.stage = .ready
  masterOffset : s.master.offset = 0x20
  slaveOffset : s.slave.offset = 0x28
  masterIsr : s.master.isr = 0
  slaveIsr : s.slave.isr = 0

/-- The controllers after `pic_init`, whatever they were before: programmed, without requests,
and with the masks they had. -/
theorem picInit_eq (s : Pics) : picInit s =
    ⟨⟨0,0,s.master.imr,.ready,false,true,0x20,0x04,0x01,false⟩,
      ⟨0,0,s.slave.imr,.ready,false,true,0x28,0x02,0x01,false⟩⟩ := rfl

theorem picInit_idle (s : Pics) : Idle (picInit s) := by
  rw [picInit_eq]
  exact ⟨rfl,rfl,rfl,rfl,rfl,rfl⟩

def pending (s : Pics) (irq : BitVec 8) : Bool :=
  if irq < 8 then decide (irq ≠ 2) && s.master.irr.getLsbD irq.toNat
  else s.slave.irr.getLsbD (irq.toNat-8)

/-- An interrupt of the second controller has to pass line 2 of the first. -/
def enabled (s : Pics) (irq : BitVec 8) : Bool :=
  if irq < 8 then !s.master.imr.getLsbD irq.toNat
  else !s.slave.imr.getLsbD (irq.toNat-8) && !s.master.imr.getLsbD 2

/-- The interrupts in their order of priority. -/
def order : List (BitVec 8) := [0,1]++[8,9,10,11,12,13,14,15]++[3,4,5,6,7]

section Adjust
variable {s : Pics}

theorem data_ready {c : Chip} (h : c.stage = .ready) (v : BitVec 8) : c.data v = { c with imr := v } := by
  cases c
  cases h
  rfl

theorem outb_pic1Data (h : Idle s) (v : BitVec 8) :
    s.outb pic1Data v = { s with master := { s.master with imr := v } } := by
  show { s with master := s.master.data v } = _
  rw [data_ready h.masterStage]

theorem outb_pic2Data (h : Idle s) (v : BitVec 8) :
    s.outb pic2Data v = { s with slave := { s.slave with imr := v } } := by
  show { s with slave := s.slave.data v } = _
  rw [data_ready h.slaveStage]

theorem idle_masks (h : Idle s) (v w : BitVec 8) :
    Idle ⟨{ s.master with imr := v },{ s.slave with imr := w }⟩ :=
  ⟨h.masterStage,h.slaveStage,h.masterOffset,h.slaveOffset,h.masterIsr,h.slaveIsr⟩

theorem picSetMask_eq (h : Idle s) (irq : BitVec 8) : picSetMask irq s =
    if irq < 8 then { s with master := { s.master with imr := s.master.imr ||| bit (irq.toNat%32) } }
    else { s with slave := { s.slave with imr := s.slave.imr ||| bit ((irq-8).toNat%32) } } := by
  unfold picSetMask
  by_cases hlow : irq < 8
  · simp only [if_pos hlow]
    exact outb_pic1Data h _
  · simp only [if_neg hlow]
    exact outb_pic2Data h _

theorem picClearMask_eq (h : Idle s) (irq : BitVec 8) : picClearMask irq s =
    if irq < 8 then
      { s with master := { s.master with imr := s.master.imr &&& ~~~bit (irq.toNat%32) } }
    else
      { s with slave := { s.slave with imr := s.slave.imr &&& ~~~bit ((irq-8).toNat%32) } } := by
  unfold picClearMask
  by_cases hlow : irq < 8
  · simp only [if_pos hlow]
    exact outb_pic1Data h _
  · simp only [if_neg hlow]
    exact outb_pic2Data h _

theorem picDisable_eq (h : Idle s) : picDisable s =
    ⟨{ s.master with imr := 0xFF },{ s.slave with imr := 0xFF }⟩ := by
  have hslave : Idle { s with slave := { s.slave with imr := 0xFF } } := idle_masks h s.master.imr 0xFF
  rw [picDisable,outb_pic2Data h,outb_pic1Data hslave]

theorem picGetIrr_fst (s : Pics) : (picGetIrr s).1 =
    ⟨{ s.master with readIsr := false },{ s.slave with readIsr := false }⟩ := rfl

theorem picGetIsr_fst (s : Pics) : (picGetIsr s).1 =
    ⟨{ s.master with readIsr := true },{ s.slave with readIsr := true }⟩ := rfl

theorem adjust_spec (h : Idle s) (o : Adjust) : Idle (adjust s o) ∧
    (adjust s o).master.irr = s.master.irr ∧ (adjust s o).slave.irr = s.slave.irr := by
  have hread : ∀ b, Idle ⟨{ s.master with readIsr := b },{ s.slave with readIsr := b }⟩ := fun _ =>
    ⟨h.masterStage,h.slaveStage,h.masterOffset,h.slaveOffset,h.masterIsr,h.slaveIsr⟩
  cases o with
  | setMask irq =>
    rw [adjust,picSetMask_eq h]
    split
    · exact ⟨idle_masks h _ s.slave.imr,rfl,rfl⟩
    · exact ⟨idle_masks h s.master.imr _,rfl,rfl⟩
  | clearMask irq =>
    rw [adjust,picClearMask_eq h]
    split
    · exact ⟨idle_masks h _ s.slave.imr,rfl,rfl⟩
    · exact ⟨idle_masks h s.master.imr _,rfl,rfl⟩
  | getIrr =>
    rw [adjust,picGetIrr_fst]
    exact ⟨hread false,rfl,rfl⟩
  | getIsr =>
    rw [adjust,picGetIsr_fst]
    exact ⟨hread true,rfl,rfl⟩
  | disable =>
    rw [adjust,picDisable_eq h]
    exact ⟨idle_masks h _ _,rfl,rfl⟩

end Adjust

section Bits

theorem bit_getLsbD (k n : ℕ) : (bit k).getLsbD n = decide (n = k ∧ k < 8) := by
  simp only [bit,BitVec.getLsbD_shiftLeft,BitVec.ofNat_eq_ofNat,BitVec.getLsbD_one]
  grind

theorem clear_getLsbD (x : BitVec 8) (k n : ℕ) :
    (x &&& ~~~bit k).getLsbD n = (x.getLsbD n && decide (n ≠ k)) := by
  have hx : 8 ≤ n → x.getLsbD n = false := BitVec.getLsbD_of_ge x n
  rw [BitVec.getLsbD_and,BitVec.getLsbD_not,bit_getLsbD]
  grind

theorem set_getLsbD (x : BitVec 8) (k n : ℕ) :
    (x ||| bit k).getLsbD n = (x.getLsbD n || decide (n = k ∧ k < 8)) := by
  rw [BitVec.getLsbD_or,bit_getLsbD]

theorem command_eoi (c : Chip) (i : Fin 8) (h : c.isr = bit i) :
    c.command picEoi = { c with isr := 0 } := by
  have hclear : ∀ i : Fin 8, bit i &&& ~~~((first (bit i)).map fun j => bit j).getD 0 = 0 := by decide
  show { c with isr := c.isr &&& ~~~((first c.isr).map fun i => bit i).getD 0 } = _
  rw [h,hclear]

end Bits

section Service
variable {s : Pics}

/-- The line of an interrupt number, on the first controller and on the second. -/
def masterIrq (i : Fin 8) : BitVec 8 := BitVec.ofNat 8 i
def slaveIrq (i : Fin 8) : BitVec 8 := BitVec.ofNat 8 (8+i)

theorem order_eq : order = ([0,1] : List (Fin 8)).map masterIrq++
    ((List.finRange 8).map slaveIrq++([3,4,5,6,7] : List (Fin 8)).map masterIrq) := by decide

theorem request_idle {c : Chip} (h : c.isr = 0) (lines : BitVec 8) :
    c.request lines = first (lines &&& ~~~c.imr) := by
  rw [Chip.request,h]
  cases first (lines &&& ~~~c.imr) with
  | none => rfl
  | some i => simp

theorem acknowledge_eoi {c : Chip} (h : c.isr = 0) (i : Fin 8) :
    (c.acknowledge i).command picEoi = { c with irr := c.irr &&& ~~~bit i } := by
  have hisr : (c.acknowledge i).isr = bit i := by
    rw [Chip.acknowledge,h]
    exact BitVec.zero_or
  rw [command_eoi _ i hisr]
  cases c
  cases h
  rfl

theorem masterIrq_vector : ∀ i : Fin 8, 0x20+BitVec.ofNat 8 i-32 = masterIrq i := by decide
theorem slaveIrq_vector : ∀ i : Fin 8, 0x28+BitVec.ofNat 8 i-32 = slaveIrq i := by decide
theorem masterIrq_lt : ∀ i : Fin 8, masterIrq i < 8 := by decide
theorem slaveIrq_ge : ∀ i : Fin 8, slaveIrq i ≥ 8 := by decide
theorem masterIrq_toNat : ∀ i : Fin 8, (masterIrq i).toNat = i := by decide
theorem slaveIrq_toNat : ∀ i : Fin 8, (slaveIrq i).toNat-8 = i := by decide

theorem handled_master (h : Idle s) {i : Fin 8} (hi : i ≠ 2)
    (hreq : s.master.request s.lines = some i) : s.accept.map irqHandler =
      some ({ s with master := { s.master with irr := s.master.irr &&& ~~~bit i } },masterIrq i) := by
  have hlow : ¬ masterIrq i ≥ 8 := BitVec.not_le.mpr (masterIrq_lt i)
  rw [Pics.accept,hreq,Option.bind_some,if_neg hi,Option.map_some,irqHandler,h.masterOffset,
    masterIrq_vector,picSendEoi,if_neg hlow]
  show some (({ s with master := (s.master.acknowledge i).command picEoi } : Pics),_) = _
  rw [acknowledge_eoi h.masterIsr]

theorem handled_slave (h : Idle s) {j : Fin 8} (hreq : s.master.request s.lines = some 2)
    (hslave : s.slave.request s.slave.irr = some j) : s.accept.map irqHandler =
      some (⟨{ s.master with irr := s.master.irr &&& ~~~bit 2 },
        { s.slave with irr := s.slave.irr &&& ~~~bit j }⟩,slaveIrq j) := by
  rw [Pics.accept,hreq,Option.bind_some,if_pos rfl,hslave,Option.map_some,Option.map_some,irqHandler,
    h.slaveOffset,slaveIrq_vector,picSendEoi,if_pos (slaveIrq_ge j)]
  show some ((⟨(s.master.acknowledge 2).command picEoi,(s.slave.acknowledge j).command picEoi⟩ : Pics),_) = _
  rw [acknowledge_eoi h.masterIsr,acknowledge_eoi h.slaveIsr]
  rfl

def requested (s : Pics) (irq : BitVec 8) : Bool := pending s irq && enabled s irq

theorem requested_master {i : Fin 8} (hi : i ≠ 2) :
    requested s (masterIrq i) = (s.lines &&& ~~~s.master.imr).getLsbD i := by
  have hne : masterIrq i ≠ 2 := by
    revert hi
    revert i
    decide
  have hne' : i.val ≠ 2 := fun h => hi (Fin.ext h)
  have hlt := i.isLt
  have hlines : s.lines.getLsbD i = s.master.irr.getLsbD i := by
    rw [Pics.lines]
    split
    · rw [set_getLsbD]
      simp [hne']
    · rw [clear_getLsbD]
      simp [hne']
  rw [requested,pending,enabled,if_pos (masterIrq_lt i),if_pos (masterIrq_lt i),masterIrq_toNat,
    BitVec.getLsbD_and,BitVec.getLsbD_not,hlines,decide_eq_true hne]
  simp [hlt]

theorem requested_slave (j : Fin 8) : requested s (slaveIrq j) =
    ((s.slave.irr &&& ~~~s.slave.imr).getLsbD j && !s.master.imr.getLsbD 2) := by
  have hlow : ¬ slaveIrq j < 8 := BitVec.not_lt.mpr (slaveIrq_ge j)
  have hlt := j.isLt
  rw [requested,pending,enabled,if_neg hlow,if_neg hlow,slaveIrq_toNat,BitVec.getLsbD_and,
    BitVec.getLsbD_not]
  simp [hlt,Bool.and_assoc]

theorem line_two : (s.lines &&& ~~~s.master.imr).getLsbD 2 =
    ((s.slave.request s.slave.irr).isSome && !s.master.imr.getLsbD 2) := by
  have hlines : s.lines.getLsbD 2 = (s.slave.request s.slave.irr).isSome := by
    rw [Pics.lines]
    split
    · rw [set_getLsbD]
      simp [*]
    · rw [clear_getLsbD]
      simp [*]
  rw [BitVec.getLsbD_and,BitVec.getLsbD_not,hlines]
  simp

theorem first_eq (x : BitVec 8) :
    first x = (firstIn [0,1] x).or ((firstIn [2] x).or (firstIn [3,4,5,6,7] x)) := by
  rw [firstIn,firstIn,firstIn,← List.find?_append,← List.find?_append]
  rfl

theorem firstIn_two (x : BitVec 8) : firstIn [2] x = if x.getLsbD 2 then some 2 else none := by
  rw [firstIn,List.find?_singleton]
  rfl

theorem find_master {l : List (Fin 8)} (hl : (2 : Fin 8) ∉ l) : (l.map masterIrq).find? (requested s) =
    (firstIn l (s.lines &&& ~~~s.master.imr)).map masterIrq := by
  rw [List.find?_map]
  congr 1
  apply List.find?_congr
  intro i hi
  exact requested_master fun h => hl (h ▸ hi)

theorem find_slave (h : Idle s) : ((List.finRange 8).map slaveIrq).find? (requested s) =
    if s.master.imr.getLsbD 2 then none else (s.slave.request s.slave.irr).map slaveIrq := by
  rw [List.find?_map,request_idle h.slaveIsr,first,firstIn]
  cases himr : s.master.imr.getLsbD 2 with
  | true =>
    rw [if_pos rfl,Option.map_eq_none_iff,List.find?_eq_none]
    intro j _
    rw [Function.comp_apply,requested_slave,himr,Bool.not_true,Bool.and_false]
    exact Bool.false_ne_true
  | false =>
    congr 1
    apply List.find?_congr
    intro j _
    rw [Function.comp_apply,requested_slave,himr,Bool.not_false,Bool.and_true]

theorem pending_master (i : Fin 8) (n : BitVec 8) :
    pending { s with master := { s.master with irr := s.master.irr &&& ~~~bit i } } n =
      (pending s n && decide (n ≠ masterIrq i)) := by
  by_cases hn : n < 8
  · have hiff : n.toNat = i ↔ n = masterIrq i := by
      rw [← masterIrq_toNat,BitVec.toNat_inj]
    simp only [pending,if_pos hn,clear_getLsbD,Bool.and_assoc,ne_eq,hiff]
  · have hne : n ≠ masterIrq i := fun h => hn (h ▸ masterIrq_lt i)
    simp only [pending,if_neg hn,decide_eq_true hne,Bool.and_true]

theorem pending_slave (j : Fin 8) (n : BitVec 8) :
    pending ⟨{ s.master with irr := s.master.irr &&& ~~~bit 2 },
      { s.slave with irr := s.slave.irr &&& ~~~bit j }⟩ n =
      (pending s n && decide (n ≠ slaveIrq j)) := by
  by_cases hn : n < 8
  · have hne : n ≠ slaveIrq j := fun h => BitVec.not_lt.mpr (slaveIrq_ge j) (h ▸ hn)
    have hiff : n.toNat = 2 ↔ n = 2 := by
      rw [← BitVec.toNat_inj]
      rfl
    simp only [pending,if_pos hn,clear_getLsbD,ne_eq,hiff,hne,not_false_eq_true,decide_true,
      Bool.and_true]
    cases decide (¬ n = 2) <;> simp
  · have hge : 8 ≤ n.toNat := BitVec.le_def.mp (BitVec.not_lt.mp hn)
    have hiff : n.toNat-8 = j ↔ n = slaveIrq j := by
      have hj := slaveIrq_toNat j
      have hj' : 8 ≤ (slaveIrq j).toNat := BitVec.le_def.mp (slaveIrq_ge j)
      rw [← BitVec.toNat_inj]
      omega
    simp only [pending,if_neg hn,clear_getLsbD,ne_eq,hiff]

theorem served_master (h : Idle s) {i : Fin 8} (hi : i ≠ 2)
    (hreq : s.master.request s.lines = some i) : ∃ s', s.accept.map irqHandler = some (s',masterIrq i) ∧ Idle s' ∧
      (∀ n, pending s' n = (pending s n && decide (n ≠ masterIrq i))) ∧ enabled s' = enabled s :=
  ⟨_,handled_master h hi hreq,
    ⟨h.masterStage,h.slaveStage,h.masterOffset,h.slaveOffset,h.masterIsr,h.slaveIsr⟩,
    pending_master i,rfl⟩

theorem served_slave (h : Idle s) {j : Fin 8} (hreq : s.master.request s.lines = some 2)
    (hslave : s.slave.request s.slave.irr = some j) : ∃ s', s.accept.map irqHandler = some (s',slaveIrq j) ∧ Idle s' ∧
      (∀ n, pending s' n = (pending s n && decide (n ≠ slaveIrq j))) ∧ enabled s' = enabled s :=
  ⟨_,handled_slave h hreq hslave,
    ⟨h.masterStage,h.slaveStage,h.masterOffset,h.slaveOffset,h.masterIsr,h.slaveIsr⟩,
    pending_slave j,rfl⟩

theorem firstIn_ne_two {is : List (Fin 8)} {bits : BitVec 8} {i : Fin 8} (hi : firstIn is bits = some i)
    (his : 2 ∉ is) : i ≠ 2 :=
  fun heq => his (heq ▸ List.mem_of_find?_eq_some hi)

/-- What the processor takes is the first request in the order of priority, and `irq_handler`
leaves it out of the request registers. -/
theorem handled_spec (h : Idle s) :
    (s.accept = none ∧ order.find? (requested s) = none) ∨
    ∃ s' irq, s.accept.map irqHandler = some (s',irq) ∧ order.find? (requested s) = some irq ∧ Idle s' ∧
      (∀ n, pending s' n = (pending s n && decide (n ≠ irq))) ∧ enabled s' = enabled s := by
  have hfind : order.find? (requested s) =
      ((firstIn [0,1] (s.lines &&& ~~~s.master.imr)).map masterIrq).or
        ((if s.master.imr.getLsbD 2 then none else (s.slave.request s.slave.irr).map slaveIrq).or
          ((firstIn [3,4,5,6,7] (s.lines &&& ~~~s.master.imr)).map masterIrq)) := by
    rw [order_eq,List.find?_append,List.find?_append,find_master (by decide),find_slave h,
      find_master (by decide)]
  have hreq := (request_idle h.masterIsr s.lines).trans (first_eq _)
  cases hlow : firstIn [0,1] (s.lines &&& ~~~s.master.imr) with
  | some i =>
    rw [hlow] at hfind hreq
    obtain ⟨s',hserve,hrest⟩ := served_master h (firstIn_ne_two hlow (by decide)) hreq
    exact .inr ⟨s',_,hserve,hfind,hrest⟩
  | none =>
    rw [hlow] at hfind hreq
    have htwo := @line_two s
    cases hbit : (s.lines &&& ~~~s.master.imr).getLsbD 2 with
    | true =>
      have hfirst : firstIn [2] (s.lines &&& ~~~s.master.imr) = some 2 := by
        rw [firstIn_two,hbit,if_pos rfl]
      rw [hbit] at htwo
      obtain ⟨hsome,himr⟩ := Bool.and_eq_true_iff.mp htwo.symm
      obtain ⟨j,hj⟩ := Option.isSome_iff_exists.mp hsome
      rw [hfirst] at hreq
      rw [hj,if_neg (by simpa using himr)] at hfind
      obtain ⟨s',hserve,hrest⟩ := served_slave h hreq hj
      exact .inr ⟨s',_,hserve,hfind,hrest⟩
    | false =>
      have hfirst : firstIn [2] (s.lines &&& ~~~s.master.imr) = none := by
        rw [firstIn_two,hbit,if_neg Bool.false_ne_true]
      rw [hfirst] at hreq
      rw [hbit] at htwo
      have hnone : (if s.master.imr.getLsbD 2 then none
          else (s.slave.request s.slave.irr).map slaveIrq) = none := by
        cases himr : s.master.imr.getLsbD 2 with
        | true => rfl
        | false =>
          rw [himr,Bool.not_false,Bool.and_true,eq_comm] at htwo
          rw [Option.isSome_eq_false_iff,Option.isNone_iff_eq_none] at htwo
          rw [htwo]
          rfl
      rw [hnone] at hfind
      cases hhigh : firstIn [3,4,5,6,7] (s.lines &&& ~~~s.master.imr) with
      | some i =>
        rw [hhigh] at hfind hreq
        obtain ⟨s',hserve,hrest⟩ := served_master h (firstIn_ne_two hhigh (by decide)) hreq
        exact .inr ⟨s',_,hserve,hfind,hrest⟩
      | none =>
        rw [hhigh] at hfind hreq
        have hnothing : s.accept = none := by
          rw [Pics.accept,hreq]
          rfl
        exact .inl ⟨hnothing,hfind⟩

/-- The first request in the order of priority is served, unless its vector has no gate. -/
theorem service_spec (h : Idle s) :
    (service s = .idle ∧ order.find? (requested s) = none) ∨
    (∃ s' irq, service s = .served s' irq ∧ gated (irq+32) = true ∧ order.find? (requested s) = some irq ∧
      Idle s' ∧ (∀ n, pending s' n = (pending s n && decide (n ≠ irq))) ∧ enabled s' = enabled s) ∨
    ∃ irq, service s = .fatal irq ∧ gated (irq+32) = false ∧ order.find? (requested s) = some irq := by
  rcases handled_spec h with ⟨hnone,hfind⟩ | ⟨s',irq,hhandled,hfind,hrest⟩
  · exact .inl ⟨by rw [service,hnone],hfind⟩
  obtain ⟨r,haccept,hr⟩ := Option.map_eq_some_iff.mp hhandled
  obtain ⟨rfl,rfl⟩ := Prod.mk.inj hr
  have hvector : r.2-32+32 = r.2 := BitVec.sub_add_cancel r.2 32
  right
  cases hgate : gated r.2 with
  | true =>
    refine .inl ⟨_,_,?_,by rw [hvector]; exact hgate,hfind,hrest⟩
    rw [service,haccept]
    exact if_pos hgate
  | false =>
    refine .inr ⟨_,?_,by rw [hvector]; exact hgate,hfind⟩
    rw [service,haccept]
    exact if_neg (Bool.eq_false_iff.mp hgate)

end Service

section Raise
variable {s : Pics}

set_option maxRecDepth 2000 in
theorem mem_order : ∀ irq : BitVec 8, irq ∈ order ↔ irq ≠ 2 ∧ irq < 16 := by decide +kernel

theorem raise_idle (h : Idle s) (irq : BitVec 8) : Idle (s.raise irq) := by
  unfold Pics.raise
  split_ifs
  · exact h
  · exact ⟨h.masterStage,h.slaveStage,h.masterOffset,h.slaveOffset,h.masterIsr,h.slaveIsr⟩
  · exact ⟨h.masterStage,h.slaveStage,h.masterOffset,h.slaveOffset,h.masterIsr,h.slaveIsr⟩

theorem raise_pending (irq n : BitVec 8) :
    pending (s.raise irq) n = (pending s n || decide (n = irq ∧ irq ∈ order)) := by
  simp only [mem_order]
  unfold Pics.raise
  by_cases htwo : irq = 2
  · simp [htwo]
  · rw [if_neg htwo]
    by_cases hirq : irq < 8
    · rw [if_pos hirq]
      have hlt : irq.toNat < 8 := BitVec.lt_def.mp hirq
      have hiff : n.toNat = irq.toNat ↔ n = irq := BitVec.toNat_inj
      have h16 : irq < 16 := BitVec.lt_trans hirq (by decide)
      by_cases hn : n < 8
      · simp only [pending,if_pos hn,set_getLsbD,hiff,hlt,htwo,h16,ne_eq,not_false_eq_true,and_true]
        by_cases heq : n = irq
        · rw [heq,decide_eq_true htwo]
          simp
        · simp [heq]
      · have hne : n ≠ irq := fun h => hn (h ▸ hirq)
        simp only [pending,if_neg hn,hne,false_and,decide_false,Bool.or_false]
    · rw [if_neg hirq]
      have hge : 8 ≤ irq.toNat := BitVec.le_def.mp (BitVec.not_lt.mp hirq)
      by_cases hn : n < 8
      · have hne : n ≠ irq := fun h => hirq (h ▸ hn)
        simp only [pending,if_pos hn,hne,false_and,decide_false,Bool.or_false]
      · have hge' : 8 ≤ n.toNat := BitVec.le_def.mp (BitVec.not_lt.mp hn)
        have hiff : (n.toNat-8 = irq.toNat-8 ∧ irq.toNat-8 < 8) ↔ (n = irq ∧ irq < 16) := by
          rw [← BitVec.toNat_inj,BitVec.lt_def]
          show _ ↔ _ ∧ irq.toNat < 16
          omega
        simp only [pending,if_neg hn,set_getLsbD,hiff,htwo,ne_eq,not_false_eq_true,true_and]

end Raise

/-- The driver and its controllers serve requests by priority. -/
def controller : Controller Pics (BitVec 8) Adjust where
  order _ := order
  handled irq := gated (irq+32)
  Inv := Idle
  pending := pending
  enabled := enabled
  raise := Pics.raise
  adjust := adjust
  serve := service
  nodup _ := by decide
  raise_inv _ irq h := raise_idle h irq
  raise_pending _ irq n _ := raise_pending irq n
  adjust_inv _ o h := (adjust_spec h o).1
  adjust_pending s o h := by
    obtain ⟨-,hmaster,hslave⟩ := adjust_spec h o
    funext n
    rw [pending,pending,hmaster,hslave]
  serve_idle s h hserve := by
    rcases service_spec h with ⟨-,hfind⟩ | ⟨s',irq,hsome,-⟩ | ⟨irq,hfatal,-⟩
    · exact hfind
    · exact nomatch hserve.symm.trans hsome
    · exact nomatch hserve.symm.trans hfatal
  serve_served s s' irq h hserve := by
    rcases service_spec h with ⟨hnone,-⟩ | ⟨s'',irq',hsome,hgate,hfind,hidle,hrest⟩ | ⟨irq',hfatal,-⟩
    · exact nomatch hserve.symm.trans hnone
    · obtain ⟨rfl,rfl⟩ := Service.served.inj (hserve.symm.trans hsome)
      exact ⟨hidle,hgate,rfl,hfind,hrest⟩
    · exact nomatch hserve.symm.trans hfatal
  serve_fatal s irq h hserve := by
    rcases service_spec h with ⟨hnone,-⟩ | ⟨s',irq',hsome,-⟩ | ⟨irq',hfatal,hgate,hfind⟩
    · exact nomatch hserve.symm.trans hnone
    · exact nomatch hserve.symm.trans hsome
    · obtain rfl := Service.fatal.inj (hserve.symm.trans hfatal)
      exact ⟨hgate,hfind⟩

def fromInit (s : Pics) (ops : List (Op (BitVec 8) Adjust)) : PriorityService.Outcome Pics (BitVec 8) :=
  controller.run (picInit s) ops

theorem fromInit_idle (s : Pics) (ops : List (Op (BitVec 8) Adjust)) : Idle (fromInit s ops).state :=
  @Controller.run_inv _ _ _ _ controller _ (picInit_idle s) ops

/-- Whatever the controllers were before `pic_init`, and whatever comes after it: between two
interrupts nothing is left in service, and no interrupt is served more often than it was
raised. -/
theorem interrupts_accounted (s : Pics) (ops : List (Op (BitVec 8) Adjust)) (irq : BitVec 8) :
    (fromInit s ops).state.master.isr = 0 ∧ (fromInit s ops).state.slave.isr = 0 ∧
    (fromInit s ops).served.count irq+(pending (fromInit s ops).state irq).toNat ≤
      Controller.raised irq ops := by
  have hinv : Idle (fromInit s ops).state := @Controller.run_inv _ _ _ _ controller _ (picInit_idle s) ops
  have hbalance := (@Controller.run_balance _ _ _ _ controller _ (picInit_idle s) ops irq).1
  have hnone : pending (picInit s) irq = false := by
    rw [picInit_eq,pending]
    split <;> simp
  refine ⟨hinv.masterIsr,hinv.slaveIsr,?_⟩
  have hle : (fromInit s ops).served.count irq+(pending (fromInit s ops).state irq).toNat ≤
      (pending (picInit s) irq).toNat+Controller.raised irq ops := hbalance
  rw [hnone] at hle
  simpa using hle

theorem gated_order : ∀ irq ∈ order, gated (irq+32) = true ↔ irq ∈ [0,1] := by decide

/-- An interrupt that a device raises is served later on, or it still waits, or the machine
comes to its end: by an interrupt whose mask is open and whose vector has no gate. -/
theorem raised_kept (s : Pics) (before after : List (Op (BitVec 8) Adjust)) (irq : BitVec 8)
    (h : irq ∈ order) :
    let r := controller.run ((fromInit s before).state.raise irq) after
    irq ∈ r.served ∨ (r.fatal = none ∧ pending r.state irq = true) ∨
      ∃ k, r.fatal = some k ∧ k ∉ [0,1] ∧ requested r.state k = true := by
  intro r
  have hidle : Idle ((fromInit s before).state.raise irq) := raise_idle (fromInit_idle s before) irq
  have hpending : pending ((fromInit s before).state.raise irq) irq = true := by
    rw [raise_pending]
    simp [h]
  by_cases hserved : irq ∈ r.served
  · exact .inl hserved
  right
  cases hfatal : r.fatal with
  | none => exact .inl ⟨rfl,(@Controller.run_balance _ _ _ _ controller _ hidle after irq).2 hpending hserved⟩
  | some k =>
    obtain ⟨hhandled,hfind⟩ := @Controller.run_fatal _ _ _ _ controller _ hidle after k hfatal
    have hgate := gated_order k (List.mem_of_find?_eq_some hfind)
    exact .inr ⟨k,rfl,fun hk => Bool.false_ne_true (hhandled.symm.trans (hgate.mpr hk)),List.find?_some hfind⟩

def unmasked : Pics :=
  ⟨⟨0,0,0,.ready,false,false,0,0,0,false⟩,⟨0,0,0,.ready,false,false,0,0,0,false⟩⟩

theorem raised_kept_keyboard :
    1 ∈ (controller.run ((fromInit unmasked [.raise 0]).state.raise 1) [.serve,.serve]).served ∨
    ((controller.run ((fromInit unmasked [.raise 0]).state.raise 1) [.serve,.serve]).fatal = none ∧
      pending (controller.run ((fromInit unmasked [.raise 0]).state.raise 1) [.serve,.serve]).state 1 = true) ∨
    ∃ k, (controller.run ((fromInit unmasked [.raise 0]).state.raise 1) [.serve,.serve]).fatal = some k ∧
      k ∉ [0,1] ∧
      requested (controller.run ((fromInit unmasked [.raise 0]).state.raise 1) [.serve,.serve]).state k = true :=
  raised_kept unmasked [.raise 0] [.serve,.serve] 1 (by decide)

/-- A request of another line that is not masked is the end. -/
example : (fromInit unmasked [.raise 0,.raise 4,.serve,.serve,.raise 1,.serve]).fatal = some 4 := by decide

theorem pending_order {s : Pics} {irq : BitVec 8} (h : pending s irq = true) : irq ∈ order := by
  rw [mem_order]
  unfold pending at h
  by_cases hlow : irq < 8
  · rw [if_pos hlow,Bool.and_eq_true,decide_eq_true_iff] at h
    exact ⟨h.1,BitVec.lt_trans hlow (by decide)⟩
  · rw [if_neg hlow] at h
    have hlt : irq.toNat-8 < 8 := BitVec.lt_of_getLsbD h
    constructor
    · rintro rfl
      exact hlow (by decide)
    · rw [BitVec.lt_def]
      show irq.toNat < 16
      omega

/-- The lines without a gate, in their order of priority. -/
def gateless : List (BitVec 8) := [8,9,10,11,12,13,14,15]++[3,4,5,6,7]

theorem waiting_split (s : Pics) : (controller.waiting s).takeWhile controller.handled = [0,1].filter (requested s) ∧
    (controller.waiting s).find? (fun irq => !controller.handled irq) = gateless.find? (requested s) := by
  have hsplit : controller.waiting s = [0,1].filter (requested s)++gateless.filter (requested s) :=
    List.filter_append [0,1] gateless
  have hgates : ∀ irq ∈ [0,1].filter (requested s), controller.handled irq = true := by
    intro irq hirq
    have hmem : irq ∈ [0,1] := List.mem_of_mem_filter hirq
    exact (gated_order irq (List.mem_append_left gateless hmem)).mpr hmem
  have hnone : ∀ irq ∈ gateless, controller.handled irq = false := by decide
  rw [hsplit]
  constructor
  · have hrest : (gateless.filter (requested s)).takeWhile controller.handled = [] := by
      cases hlist : gateless.filter (requested s) with
      | nil => rfl
      | cons irq rest =>
        have hmem : irq ∈ gateless := List.mem_of_mem_filter (hlist ▸ List.mem_cons_self)
        exact List.takeWhile_cons_of_neg (Bool.eq_false_iff.mp (hnone irq hmem))
    rw [List.takeWhile_append_of_pos hgates,hrest,List.append_nil]
  · have hfirst : ([0,1].filter (requested s)).find? (fun irq => !controller.handled irq) = none := by
      rw [List.find?_eq_none]
      intro irq hirq
      rw [hgates irq hirq]
      exact Bool.false_ne_true
    rw [List.find?_append,hfirst,Option.none_or,List.find?_filter]
    apply List.find?_congr
    intro irq hirq
    rw [hnone irq hirq]
    simp

/-- When no device raises another interrupt, the timer's and the keyboard's are served once each
in this order if they wait unmasked, and the masked ones go on waiting. Any other one that
waits unmasked is then the end of the machine. -/
theorem waiting_served (s : Pics) (ops : List (Op (BitVec 8) Adjust)) :
    let s' := (fromInit s ops).state
    let r := controller.drain 15 s'
    r.served = [0,1].filter (requested s') ∧ r.fatal = gateless.find? (requested s') ∧
    ∀ irq, pending r.state irq = (pending s' irq && decide (irq ∉ r.served)) ∧
      (r.fatal = none → pending r.state irq = (pending s' irq && !enabled s' irq)) := by
  intro s' r
  have hlength : (controller.waiting s').length ≤ 15 := List.length_filter_le _ order
  obtain ⟨hserved,hfatal,hend⟩ := controller.drain_eq (fromInit_idle s ops) hlength
  obtain ⟨hgates,hgateless⟩ := waiting_split s'
  rw [hgates] at hserved
  rw [hgateless] at hfatal
  refine ⟨hserved,hfatal,fun irq => ⟨hend irq,fun hnone => (hend irq).trans ?_⟩⟩
  change (pending s' irq && decide (irq ∉ (controller.drain 15 s').served)) = _
  rw [hserved]
  cases hp : pending s' irq with
  | false => rfl
  | true =>
    have hmem : irq ∈ [0,1] ∨ irq ∈ gateless := List.mem_append.mp (pending_order hp)
    have hrest := List.find?_eq_none.mp (hfatal.symm.trans hnone) irq
    rw [requested,hp,Bool.true_and] at hrest
    cases he : enabled s' irq with
    | false => simp [List.mem_filter,requested,he]
    | true =>
      have hfirst : irq ∈ [0,1].filter (requested s') := by
        rw [List.mem_filter,requested,hp,he]
        exact ⟨hmem.resolve_right fun hg => hrest hg he,rfl⟩
      rw [decide_eq_false (not_not.mpr hfirst)]
      rfl

section Masks

def masked (s : Pics) (irq : BitVec 8) : Bool :=
  if irq < 8 then s.master.imr.getLsbD irq.toNat else s.slave.imr.getLsbD (irq.toNat-8)

/-- The line whose mask a call for `irq` is about; one from 40 on comes round to another line. -/
def line (irq : BitVec 8) : BitVec 8 := if irq < 8 then irq else 8+(irq-8)%32

/-- What the driver last asked of the mask of `irq`, from what it was at first. -/
def lastMask (irq : BitVec 8) (b : Bool) (ops : List (Op (BitVec 8) Adjust)) : Bool :=
  ops.foldl (fun b op => match op with
    | .adjust (.setMask k) => b || decide (irq = line k)
    | .adjust (.clearMask k) => b && decide (irq ≠ line k)
    | .adjust .disable => true
    | _ => b) b

variable {s : Pics}

theorem line_low {k : BitVec 8} (hk : k < 8) : line k = k ∧ k.toNat%32 = k.toNat := by
  have hlt : k.toNat < 8 := BitVec.lt_def.mp hk
  exact ⟨if_pos hk,Nat.mod_eq_of_lt (by omega)⟩

theorem line_high {k : BitVec 8} (hk : ¬ k < 8) : 8 ≤ (line k).toNat ∧ (line k).toNat-8 = (k-8).toNat%32 := by
  have hmod : ((k-8)%32).toNat = (k-8).toNat%32 := BitVec.toNat_umod
  have hlt : (k-8).toNat%32 < 32 := Nat.mod_lt _ (by decide)
  have hadd : (line k).toNat = 8+(k-8).toNat%32 := by
    rw [line,if_neg hk,BitVec.toNat_add,hmod]
    exact Nat.mod_eq_of_lt (show 8+(k-8).toNat%32 < 256 by omega)
  omega

theorem line_bit {k irq : BitVec 8} (hside : irq < 8 ↔ k < 8) :
    (if irq < 8 then irq.toNat else irq.toNat-8) = (if k < 8 then k else k-8).toNat%32 ↔ irq = line k := by
  rw [← BitVec.toNat_inj]
  by_cases hk : k < 8
  · obtain ⟨hline,hmod⟩ := line_low hk
    rw [if_pos (hside.mpr hk),if_pos hk,hline,hmod]
  · obtain ⟨hge,hsub⟩ := line_high hk
    have hirq : 8 ≤ irq.toNat := BitVec.le_def.mp (BitVec.not_lt.mp fun h => hk (hside.mp h))
    rw [if_neg fun h => hk (hside.mp h),if_neg hk]
    omega

theorem line_side {k irq : BitVec 8} (hside : ¬ (irq < 8 ↔ k < 8)) : irq ≠ line k := by
  rintro rfl
  by_cases hk : k < 8
  · exact hside (by rw [(line_low hk).1])
  · have hge : ¬ line k < 8 := BitVec.not_lt.mpr (BitVec.le_def.mpr (line_high hk).1)
    exact hside ⟨fun h => absurd h hge,fun h => absurd h hk⟩

theorem masked_setMask (h : Idle s) (k : BitVec 8) {irq : BitVec 8} (h16 : irq < 16) :
    masked (picSetMask k s) irq = (masked s irq || decide (irq = line k)) := by
  have hlt : irq.toNat < 16 := BitVec.lt_def.mp h16
  rw [picSetMask_eq h]
  by_cases hside : irq < 8 ↔ k < 8
  · have hbit := line_bit hside
    by_cases hk : k < 8
    · have hirq := hside.mpr hk
      have hlow : irq.toNat < 8 := BitVec.lt_def.mp hirq
      rw [if_pos hirq,if_pos hk] at hbit
      have hin : (irq.toNat = k.toNat%32 ∧ k.toNat%32 < 8) ↔ irq = line k :=
        ⟨fun h => hbit.mp h.1,fun h => ⟨hbit.mpr h,hbit.mpr h ▸ hlow⟩⟩
      simp only [masked,if_pos hirq,if_pos hk,set_getLsbD,hin]
    · have hirq : ¬ irq < 8 := fun h => hk (hside.mp h)
      rw [if_neg hirq,if_neg hk] at hbit
      have hhigh : irq.toNat-8 < 8 := by omega
      have hin : (irq.toNat-8 = (k-8).toNat%32 ∧ (k-8).toNat%32 < 8) ↔ irq = line k :=
        ⟨fun h => hbit.mp h.1,fun h => ⟨hbit.mpr h,hbit.mpr h ▸ hhigh⟩⟩
      simp only [masked,if_neg hirq,if_neg hk,set_getLsbD,hin]
  · rw [decide_eq_false (line_side hside),Bool.or_false]
    by_cases hk : k < 8
    · have hirq : ¬ irq < 8 := fun h => hside (iff_of_true h hk)
      simp only [masked,if_neg hirq,if_pos hk]
    · have hirq : irq < 8 := not_not.mp fun h => hside (iff_of_false h hk)
      simp only [masked,if_pos hirq,if_neg hk]

theorem masked_clearMask (h : Idle s) (k irq : BitVec 8) :
    masked (picClearMask k s) irq = (masked s irq && decide (irq ≠ line k)) := by
  rw [picClearMask_eq h]
  by_cases hside : irq < 8 ↔ k < 8
  · have hbit := line_bit hside
    by_cases hk : k < 8
    · have hirq := hside.mpr hk
      rw [if_pos hirq,if_pos hk] at hbit
      simp only [masked,if_pos hirq,if_pos hk,clear_getLsbD,ne_eq,hbit]
    · have hirq : ¬ irq < 8 := fun h => hk (hside.mp h)
      rw [if_neg hirq,if_neg hk] at hbit
      simp only [masked,if_neg hirq,if_neg hk,clear_getLsbD,ne_eq,hbit]
  · rw [decide_eq_true (line_side hside),Bool.and_true]
    by_cases hk : k < 8
    · have hirq : ¬ irq < 8 := fun h => hside (iff_of_true h hk)
      simp only [masked,if_neg hirq,if_pos hk]
    · have hirq : irq < 8 := not_not.mp fun h => hside (iff_of_false h hk)
      simp only [masked,if_pos hirq,if_neg hk]

theorem masked_disable (h : Idle s) {irq : BitVec 8} (h16 : irq < 16) :
    masked (picDisable s) irq = true := by
  have hones : ∀ k : Fin 8, (0xFF : BitVec 8).getLsbD k = true := by decide
  have hlt : irq.toNat < 16 := BitVec.lt_def.mp h16
  rw [picDisable_eq h,masked]
  split
  case isTrue hirq => exact hones ⟨irq.toNat,BitVec.lt_def.mp hirq⟩
  case isFalse hirq => exact hones ⟨irq.toNat-8,by omega⟩

theorem picSendEoi_masks (irq : BitVec 8) (s : Pics) :
    (picSendEoi irq s).master.imr = s.master.imr ∧ (picSendEoi irq s).slave.imr = s.slave.imr := by
  rw [picSendEoi]
  split <;> exact ⟨rfl,rfl⟩

theorem accept_masks {s' : Pics} {v : BitVec 8} (h : s.accept = some (s',v)) :
    s'.master.imr = s.master.imr ∧ s'.slave.imr = s.slave.imr := by
  obtain ⟨i,-,h⟩ := Option.bind_eq_some_iff.mp h
  by_cases hi : i = 2
  · rw [if_pos hi] at h
    obtain ⟨j,-,h⟩ := Option.map_eq_some_iff.mp h
    cases h
    exact ⟨rfl,rfl⟩
  · rw [if_neg hi] at h
    cases h
    exact ⟨rfl,rfl⟩

theorem masked_service {s' : Pics} {k : BitVec 8} (h : service s = .served s' k) (irq : BitVec 8) :
    masked s' irq = masked s irq := by
  rw [service] at h
  cases haccept : s.accept with
  | none =>
    rw [haccept] at h
    exact nomatch h
  | some r =>
    rw [haccept] at h
    by_cases hgate : gated r.2
    · obtain ⟨rfl,-⟩ := Service.served.inj ((if_pos hgate).symm.trans h)
      obtain ⟨hmaster,hslave⟩ := picSendEoi_masks (r.2-32) r.1
      obtain ⟨hmaster',hslave'⟩ := accept_masks haccept
      rw [masked,masked,irqHandler,hmaster,hslave,hmaster',hslave']
    · exact nomatch (if_neg hgate).symm.trans h

theorem masked_step (h : Idle s) (op : Op (BitVec 8) Adjust) {irq : BitVec 8} (h16 : irq < 16) :
    masked (controller.step s op).state irq = lastMask irq (masked s irq) [op] := by
  cases op with
  | raise k =>
    show masked (s.raise k) irq = masked s irq
    unfold Pics.raise masked
    split_ifs <;> rfl
  | adjust o =>
    cases o with
    | setMask k => exact masked_setMask h k h16
    | clearMask k => exact masked_clearMask h k irq
    | getIrr => rfl
    | getIsr => rfl
    | disable => exact masked_disable h h16
  | serve =>
    show masked (controller.step s .serve).state irq = masked s irq
    rw [Controller.step]
    cases hserve : controller.serve s with
    | idle => rfl
    | served s' k => exact masked_service hserve irq
    | fatal k => rfl

theorem masked_run (h : Idle s) {ops : List (Op (BitVec 8) Adjust)} (hgoes : (controller.run s ops).fatal = none)
    {irq : BitVec 8} (h16 : irq < 16) :
    masked (controller.run s ops).state irq = lastMask irq (masked s irq) ops := by
  induction ops generalizing s with
  | nil => rfl
  | cons op ops ih =>
    have hidle : Idle (controller.step s op).state := @Controller.step_inv _ _ _ _ controller _ h op
    by_cases hfatal : (controller.step s op).fatal.isSome
    · rw [Controller.run_cons_fatal hfatal] at hgoes
      rw [hgoes] at hfatal
      exact nomatch hfatal
    · rw [Controller.run_cons hfatal] at hgoes ⊢
      rw [ih hidle hgoes,masked_step h op h16]
      rfl

theorem enabled_masked (s : Pics) (irq : BitVec 8) :
    enabled s irq = (!masked s irq && (decide (irq < 8) || !masked s 2)) := by
  have htwo : masked s 2 = s.master.imr.getLsbD 2 := rfl
  rw [htwo,enabled,masked]
  by_cases hirq : irq < 8
  · rw [if_pos hirq,if_pos hirq,decide_eq_true hirq,Bool.true_or,Bool.and_true]
  · rw [if_neg hirq,if_neg hirq,decide_eq_false hirq,Bool.false_or]

/-- The processor takes an interrupt only when the last that the driver asked of its mask, since
`pic_init` left the masks as they were, was to clear it; and an interrupt of the second
controller only when so was it of line 2. -/
theorem taken_unmasked (s : Pics) (ops : List (Op (BitVec 8) Adjust)) (hgoes : (fromInit s ops).fatal = none)
    (irq : BitVec 8) (h : service (fromInit s ops).state = .fatal irq ∨
      ∃ s', service (fromInit s ops).state = .served s' irq) :
    lastMask irq (masked s irq) ops = false ∧
    (irq ≥ 8 → lastMask 2 (masked s 2) ops = false) := by
  have hfind : order.find? (requested (fromInit s ops).state) = some irq := by
    rcases h with hfatal | ⟨s',hserved⟩
    · exact (controller.serve_fatal _ irq (fromInit_idle s ops) hfatal).2
    · exact (controller.serve_served _ s' irq (fromInit_idle s ops) hserved).2.2.2.1
  have hreq := List.find?_some hfind
  have h16 : irq < 16 := ((mem_order irq).mp (List.mem_of_find?_eq_some hfind)).2
  have henabled : enabled (fromInit s ops).state irq = true := (Bool.and_eq_true_iff.mp hreq).2
  have hmasked : ∀ {n : BitVec 8}, n < 16 →
      masked (fromInit s ops).state n = lastMask n (masked s n) ops := fun hn =>
    masked_run (picInit_idle s) hgoes hn
  rw [enabled_masked,hmasked h16,hmasked (by decide),Bool.and_eq_true,Bool.or_eq_true] at henabled
  obtain ⟨hown,hcascade⟩ := henabled
  constructor
  · simpa using hown
  · intro hge
    rcases hcascade with hlow | htwo
    · exact absurd (of_decide_eq_true hlow) (BitVec.not_lt.mpr hge)
    · simpa using htwo

theorem taken_unmasked_timer :
    lastMask 0 (masked unmasked 0) [.adjust .disable,.adjust (.clearMask 0),.raise 0] = false ∧
    ((0 : BitVec 8) ≥ 8 → lastMask 2 (masked unmasked 2) [.adjust .disable,.adjust (.clearMask 0),.raise 0] = false) :=
  taken_unmasked unmasked [.adjust .disable,.adjust (.clearMask 0),.raise 0] rfl 0 (.inr ⟨_,rfl⟩)

end Masks

end I8259
end ValiantCore
