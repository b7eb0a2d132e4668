import ValiantCore.Ata
import Mathlib.Tactic.Tauto

/-! `drivers/ata.c` against a status register that reads as it likes: on a bus with a log, each
reading of a port has a value of its own. -/
namespace ValiantCore
namespace AtaStatus

open Ata

def statusDf : UInt8 := 0x20
def statusErr : UInt8 := 0x01

inductive Access
  | inb (port : ℕ) (value : UInt8)
  | outb (port : ℕ) (value : UInt8)
  | inw (port : ℕ) (value : UInt16)
  | outw (port : ℕ) (value : UInt16)
  deriving DecidableEq, Repr

/-- `bytes port k` and `words port k` are what the reading number `k` of a port returns. -/
structure Bus where
  bytes : ℕ → ℕ → UInt8
  words : ℕ → ℕ → UInt16
  reads : ℕ → ℕ
  log : List Access

namespace Bus

def start (bytes : ℕ → ℕ → UInt8) (words : ℕ → ℕ → UInt16) : Bus := ⟨bytes,words,fun _ => 0,[]⟩

def record (b : Bus) (a : Access) : Bus := { b with log := b.log++[a] }

def count (b : Bus) (port : ℕ) : Bus :=
  { b with reads := Function.update b.reads port (b.reads port+1) }

def ports : Ports Bus where
  inb port b :=
    (b.bytes port (b.reads port),(b.count port).record (.inb port (b.bytes port (b.reads port))))
  outb port v b := b.record (.outb port v)
  inw port b :=
    (b.words port (b.reads port),(b.count port).record (.inw port (b.words port (b.reads port))))
  outw port v b := b.record (.outw port v)

end Bus

def statuses (log : List Access) : List UInt8 :=
  log.filterMap fun a => match a with
    | .inb port v => if port = ataCommand then some v else none
    | _ => none

def flush : Access := .outb ataCommand cmdCacheFlush

def sinceFlush (log : List Access) : List Access := log.dropWhile (· ≠ flush)

def Clean (status : UInt8) : Prop := status &&& statusErr = 0 ∧ status &&& statusDf = 0

instance (status : UInt8) : Decidable (Clean status) := inferInstanceAs (Decidable (_ ∧ _))

def BsyClear (status : UInt8) : Prop := status &&& statusBsy = 0

instance (status : UInt8) : Decidable (BsyClear status) := inferInstanceAs (Decidable (_ = _))

/-- The write returns 0 only if no status had ERR or DF and BSY was seen clear after the flush. -/
def WriteHonest (lba count : ℕ) (buffer : ℕ → UInt16) (b : Bus) : Prop :=
  (Bus.ports.ataWrite250gb lba count buffer b).1 = 0 →
    (∀ v ∈ statuses (Bus.ports.ataWrite250gb lba count buffer b).2.log, Clean v) ∧
      ∃ v ∈ statuses (sinceFlush (Bus.ports.ataWrite250gb lba count buffer b).2.log), BsyClear v

/-- The read returns 0 only if no status had ERR or DF. -/
def ReadHonest (lba count : ℕ) (buffer : ℕ → UInt16) (b : Bus) : Prop :=
  (Bus.ports.ataRead250gb lba count buffer b).1 = 0 →
    ∀ v ∈ statuses (Bus.ports.ataRead250gb lba count buffer b).2.2.log, Clean v

instance (lba count : ℕ) (buffer : ℕ → UInt16) (b : Bus) : Decidable (WriteHonest lba count buffer b) :=
  inferInstanceAs (Decidable (_ → _))

instance (lba count : ℕ) (buffer : ℕ → UInt16) (b : Bus) : Decidable (ReadHonest lba count buffer b) :=
  inferInstanceAs (Decidable (_ → _))

section Trace
variable (status : ℕ → UInt8)

/-- The first of the `timeout` readings from number `n` on that has the property. -/
def firstReading (P : UInt8 → Prop) [DecidablePred P] (n timeout : ℕ) : Option ℕ :=
  (List.range' n timeout).find? fun k => P (status k)

def Drq (status : UInt8) : Prop := status &&& statusDrq ≠ 0

instance (status : UInt8) : Decidable (Drq status) := inferInstanceAs (Decidable (_ ≠ _))

/-- The readings it takes until DRQ was there for `left` sectors, from reading `n` on, if every
DRQ comes in time. -/
def served : ℕ → ℕ → Option ℕ
  | 0, n => some n
  | left+1, n => (firstReading status Drq n 10000).bind fun k => served left (k+1)

/-- If DRQ comes in time for every sector, BSY clears in time after the flush, and no reading
up to that one has ERR or DF. -/
def CleanWrite (count : ℕ) : Prop :=
  ∀ m, served status count 0 = some m →
    ∃ f, firstReading status BsyClear m 100000 = some f ∧ ∀ k ≤ f, Clean (status k)

/-- If DRQ comes in time for every sector, no reading up to the last one has ERR or DF. -/
def CleanRead (count : ℕ) : Prop :=
  ∀ m, served status count 0 = some m → ∀ k < m, Clean (status k)

end Trace

/-- From `b` to `b'` the driver made `k` readings of the status and did not flush. -/
structure Reaches (b b' : Bus) (k : ℕ) : Prop where
  bytes_eq : b'.bytes = b.bytes
  reads_eq : b'.reads ataCommand = b.reads ataCommand+k
  log_eq : ∃ accesses, b'.log = b.log++accesses ∧ flush ∉ accesses ∧
    statuses accesses = (List.range' (b.reads ataCommand) k).map (b.bytes ataCommand)

theorem statuses_append (xs ys : List Access) : statuses (xs++ys) = statuses xs++statuses ys :=
  List.filterMap_append

theorem sinceFlush_append {xs ys : List Access} (h : flush ∉ xs) :
    sinceFlush (xs++flush::ys) = flush::ys := by
  unfold sinceFlush
  rw [List.dropWhile_append_of_pos]
  · simp
  · intro a ha
    simpa using ne_of_mem_of_not_mem ha h

namespace Reaches

variable {b b' b'' : Bus} {j k : ℕ}

theorem refl (b : Bus) : Reaches b b 0 := ⟨rfl,rfl,[],by simp [statuses]⟩

theorem trans (h : Reaches b b' j) (h' : Reaches b' b'' k) : Reaches b b'' (j+k) := by
  obtain ⟨xs,hxs,hxflush,hxstatus⟩ := h.log_eq
  obtain ⟨ys,hys,hyflush,hystatus⟩ := h'.log_eq
  refine ⟨h'.bytes_eq.trans h.bytes_eq,?_,xs++ys,?_,?_,?_⟩
  · rw [h'.reads_eq,h.reads_eq,Nat.add_assoc]
  · rw [hys,hxs,List.append_assoc]
  · simp [hxflush,hyflush]
  · rw [statuses_append,hxstatus,hystatus,h.reads_eq,h.bytes_eq,← List.map_append,
      List.range'_append_1]

theorem inb_status (b : Bus) : Reaches b (Bus.ports.inb ataCommand b).2 1 :=
  ⟨rfl,by simp [Bus.ports,Bus.count,Bus.record],[_],rfl,by simp [flush],by simp [statuses]⟩

theorem inb_other (b : Bus) {port : ℕ} (hport : port ≠ ataCommand) :
    Reaches b (Bus.ports.inb port b).2 0 :=
  ⟨rfl,by simp [Bus.ports,Bus.count,Bus.record,hport.symm],[_],rfl,by simp [flush],
    by simp [statuses,hport]⟩

theorem outb (b : Bus) {port : ℕ} {v : UInt8} (h : port ≠ ataCommand ∨ v ≠ cmdCacheFlush) :
    Reaches b (Bus.ports.outb port v b) 0 :=
  ⟨rfl,rfl,[_],rfl,by simp [flush]; tauto,by simp [statuses]⟩

theorem inw (b : Bus) {port : ℕ} (hport : port ≠ ataCommand) :
    Reaches b (Bus.ports.inw port b).2 0 :=
  ⟨rfl,by simp [Bus.ports,Bus.count,Bus.record,hport.symm],[_],rfl,by simp [flush],
    by simp [statuses]⟩

theorem outw (b : Bus) (port : ℕ) (v : UInt16) : Reaches b (Bus.ports.outw port v b) 0 :=
  ⟨rfl,rfl,[_],rfl,by simp [flush],by simp [statuses]⟩

end Reaches

theorem ataIoWait_reaches (b : Bus) : Reaches b (Bus.ports.ataIoWait b) 0 := by
  have hport : ataControl ≠ ataCommand := by decide
  exact (((Reaches.inb_other b hport).trans (Reaches.inb_other _ hport)).trans
    (Reaches.inb_other _ hport)).trans (Reaches.inb_other _ hport)

theorem sendCommand_reaches (cmd : UInt8) (hcmd : cmd ≠ cmdCacheFlush) (lba count : ℕ) (b : Bus) :
    Reaches b (Bus.ports.sendCommand cmd lba count b) 0 := by
  have hother : ∀ (b : Bus) {port : ℕ} (v : UInt8), port ≠ ataCommand →
      Reaches b (Bus.ports.outb port v b) 0 := fun b _ _ h => Reaches.outb b (Or.inl h)
  exact (hother b _ (by decide)).trans (ataIoWait_reaches _) |>.trans (hother _ _ (by decide))
    |>.trans (hother _ _ (by decide)) |>.trans (hother _ _ (by decide))
    |>.trans (hother _ _ (by decide)) |>.trans (hother _ _ (by decide))
    |>.trans (hother _ _ (by decide)) |>.trans (hother _ _ (by decide))
    |>.trans (hother _ _ (by decide)) |>.trans (Reaches.outb _ (Or.inr hcmd))

theorem firstReading_succ (status : ℕ → UInt8) (P : UInt8 → Prop) [DecidablePred P] (n timeout : ℕ) :
    firstReading status P n (timeout+1) =
      if P (status n) then some n else firstReading status P (n+1) timeout := by
  unfold firstReading
  rw [List.range'_succ,List.find?_cons]
  by_cases h : P (status n) <;> simp [h]

theorem ataStatusWait_succ {bit : UInt8} {P : UInt8 → Prop} [DecidablePred P]
    (hP : ∀ v, P v ↔ (bit ≠ 0 ∧ v &&& bit ≠ 0) ∨ (bit = 0 ∧ v &&& statusBsy = 0)) (timeout : ℕ)
    (b : Bus) :
    Bus.ports.ataStatusWait bit (timeout+1) b =
      if P (b.bytes ataCommand (b.reads ataCommand)) then (true,(Bus.ports.inb ataCommand b).2)
      else Bus.ports.ataStatusWait bit timeout (Bus.ports.ataIoWait (Bus.ports.inb ataCommand b).2) := by
  simp only [hP,ite_or]
  rfl

theorem ataStatusWait_spec (bit : UInt8) (P : UInt8 → Prop) [DecidablePred P]
    (hP : ∀ v, P v ↔ (bit ≠ 0 ∧ v &&& bit ≠ 0) ∨ (bit = 0 ∧ v &&& statusBsy = 0)) (timeout : ℕ)
    (b : Bus) :
    match firstReading (b.bytes ataCommand) P (b.reads ataCommand) timeout with
    | some f => b.reads ataCommand ≤ f ∧ (Bus.ports.ataStatusWait bit timeout b).1 = true ∧
      Reaches b (Bus.ports.ataStatusWait bit timeout b).2 (f+1-b.reads ataCommand)
    | none => (Bus.ports.ataStatusWait bit timeout b).1 = false ∧
      Reaches b (Bus.ports.ataStatusWait bit timeout b).2 timeout := by
  induction timeout generalizing b with
  | zero => exact ⟨rfl,Reaches.refl b⟩
  | succ timeout ih =>
    rw [firstReading_succ,ataStatusWait_succ hP]
    by_cases hstop : P (b.bytes ataCommand (b.reads ataCommand))
    · rw [if_pos hstop,if_pos hstop]
      refine ⟨le_rfl,rfl,?_⟩
      rw [Nat.add_sub_cancel_left]
      exact Reaches.inb_status b
    · rw [if_neg hstop,if_neg hstop]
      have hturn := (Reaches.inb_status b).trans (ataIoWait_reaches _)
      have hrest := ih (Bus.ports.ataIoWait (Bus.ports.inb ataCommand b).2)
      rw [hturn.bytes_eq,hturn.reads_eq] at hrest
      cases hfirst : firstReading (b.bytes ataCommand) P (b.reads ataCommand+1) timeout with
      | none =>
        rw [hfirst] at hrest
        refine ⟨hrest.1,?_⟩
        have := hturn.trans hrest.2
        rwa [Nat.add_comm] at this
      | some f =>
        rw [hfirst] at hrest
        obtain ⟨hle,hret,hreach⟩ := hrest
        refine ⟨by omega,hret,?_⟩
        have hreadings : 1+0+(f+1-(b.reads ataCommand+(1+0))) = f+1-b.reads ataCommand := by omega
        exact hreadings ▸ hturn.trans hreach

theorem sectors_spec {X : Type} (move : ℕ → X × Bus → X × Bus)
    (hmove : ∀ s r, Reaches r.2 (move s r).2 0) (left s : ℕ) (x : X) (b : Bus) :
    match served (b.bytes ataCommand) left (b.reads ataCommand) with
    | some m => b.reads ataCommand ≤ m ∧ (Bus.ports.sectors move left s (x,b)).1 = true ∧
      Reaches b (Bus.ports.sectors move left s (x,b)).2.2 (m-b.reads ataCommand)
    | none => (Bus.ports.sectors move left s (x,b)).1 = false := by
  induction left generalizing s x b with
  | zero =>
    refine ⟨le_rfl,rfl,?_⟩
    rw [Nat.sub_self]
    exact Reaches.refl b
  | succ left ih =>
    have hwait := ataStatusWait_spec statusDrq Drq (by simp [Drq,statusDrq]) 10000 b
    rw [served,Ports.sectors]
    cases hfirst : firstReading (b.bytes ataCommand) Drq (b.reads ataCommand) 10000 with
    | none =>
      rw [hfirst] at hwait
      simp [hwait.1]
    | some f =>
      rw [hfirst] at hwait
      obtain ⟨hle,hret,hreach⟩ := hwait
      have hmoved := hreach.trans (hmove s (x,_))
      have hrest := ih (s+1) (move s (x,(Bus.ports.ataStatusWait statusDrq 10000 b).2)).1
        (move s (x,(Bus.ports.ataStatusWait statusDrq 10000 b).2)).2
      have hnext : b.reads ataCommand+(f+1-b.reads ataCommand+0) = f+1 := by omega
      rw [hmoved.bytes_eq,hmoved.reads_eq,hnext] at hrest
      simp only [hret,if_true,Option.bind_some]
      cases hserved : served (b.bytes ataCommand) left (f+1) with
      | none =>
        rw [hserved] at hrest
        exact hrest
      | some m =>
        rw [hserved] at hrest
        obtain ⟨hle',hret',hreach'⟩ := hrest
        refine ⟨by omega,hret',?_⟩
        have hreadings : f+1-b.reads ataCommand+0+(m-(f+1)) = m-b.reads ataCommand := by omega
        exact hreadings ▸ hmoved.trans hreach'

theorem outWords_reaches (buffer : ℕ → UInt16) (base n : ℕ) (b : Bus) :
    Reaches b (Bus.ports.outWords buffer base n b) 0 := by
  induction n with
  | zero => exact Reaches.refl b
  | succ n ih => exact ih.trans (Reaches.outw _ _ _)

theorem inWords_reaches (base n : ℕ) (r : (ℕ → UInt16) × Bus) :
    Reaches r.2 (Bus.ports.inWords base n r).2 0 := by
  induction n with
  | zero => exact Reaches.refl r.2
  | succ n ih => exact ih.trans (Reaches.inw _ (by decide))

section Calls
variable (bytes : ℕ → ℕ → UInt8) (words : ℕ → ℕ → UInt16) (lba count : ℕ) (buffer : ℕ → UInt16)

theorem Reaches.statuses_start {bytes : ℕ → ℕ → UInt8} {words : ℕ → ℕ → UInt16} {b : Bus} {m : ℕ}
    (h : Reaches (Bus.start bytes words) b m) :
    flush ∉ b.log ∧ statuses b.log = (List.range m).map (bytes ataCommand) := by
  obtain ⟨accesses,hlog,hflush,hstatus⟩ := h.log_eq
  rw [hlog]
  exact ⟨hflush,hstatus.trans (by rw [List.range_eq_range']; rfl)⟩

theorem command_spec {X : Type} {cmd : UInt8} (hcmd : cmd ≠ cmdCacheFlush) (move : ℕ → X × Bus → X × Bus)
    (hmove : ∀ s r, Reaches r.2 (move s r).2 0) (x : X) :
    match served (bytes ataCommand) count 0 with
    | some m =>
      (Bus.ports.sectors move count 0 (x,Bus.ports.sendCommand cmd lba count (Bus.start bytes words))).1 = true ∧
        Reaches (Bus.start bytes words)
          (Bus.ports.sectors move count 0 (x,Bus.ports.sendCommand cmd lba count (Bus.start bytes words))).2.2 m
    | none =>
      (Bus.ports.sectors move count 0 (x,Bus.ports.sendCommand cmd lba count (Bus.start bytes words))).1 = false := by
  have hsent := sendCommand_reaches cmd hcmd lba count (Bus.start bytes words)
  have hloop := sectors_spec move hmove count 0 x (Bus.ports.sendCommand cmd lba count (Bus.start bytes words))
  rw [hsent.bytes_eq,hsent.reads_eq] at hloop
  change match served (bytes ataCommand) count 0 with | some _ => _ | none => _ at hloop
  cases hserved : served (bytes ataCommand) count 0 with
  | none =>
    rw [hserved] at hloop
    exact hloop
  | some m =>
    rw [hserved] at hloop
    obtain ⟨-,hret,hreach⟩ := hloop
    have hall := hsent.trans hreach
    rw [Nat.zero_add] at hall
    exact ⟨hret,hall⟩

/-- The read fails when a DRQ does not come in time, and makes the readings up to the last DRQ
when all of them come. -/
theorem ataRead250gb_statuses :
    match served (bytes ataCommand) count 0 with
    | some m => (Bus.ports.ataRead250gb lba count buffer (Bus.start bytes words)).1 = 0 ∧
      statuses (Bus.ports.ataRead250gb lba count buffer (Bus.start bytes words)).2.2.log =
        (List.range m).map (bytes ataCommand)
    | none => (Bus.ports.ataRead250gb lba count buffer (Bus.start bytes words)).1 = -1 := by
  have hloop := command_spec bytes words lba count (by decide : cmdReadPioExt ≠ cmdCacheFlush)
    (fun s r => Bus.ports.inWords (s*256) 256 r) (fun s r => inWords_reaches (s*256) 256 r) buffer
  unfold Ports.ataRead250gb Ports.readSectors
  cases hserved : served (bytes ataCommand) count 0 with
  | none =>
    rw [hserved] at hloop
    simp [hloop]
  | some m =>
    rw [hserved] at hloop
    obtain ⟨hret,hall⟩ := hloop
    simp only [hret,if_true,true_and]
    exact hall.statuses_start.2

def flushReadings (status : ℕ → UInt8) (m timeout : ℕ) : ℕ :=
  match firstReading status BsyClear m timeout with
  | some f => f+1-m
  | none => timeout

theorem flush_reaches {b : Bus} {m : ℕ} (h : Reaches (Bus.start bytes words) b m) (timeout : ℕ) :
    statuses (Bus.ports.ataStatusWait 0 timeout (Bus.ports.outb ataCommand cmdCacheFlush b)).2.log =
        (List.range (m+flushReadings (bytes ataCommand) m timeout)).map (bytes ataCommand) ∧
      statuses (sinceFlush
          (Bus.ports.ataStatusWait 0 timeout (Bus.ports.outb ataCommand cmdCacheFlush b)).2.log) =
        (List.range' m (flushReadings (bytes ataCommand) m timeout)).map (bytes ataCommand) := by
  have hbytes : b.bytes = bytes := h.bytes_eq
  have hreads : b.reads ataCommand = m := h.reads_eq.trans (Nat.zero_add m)
  obtain ⟨hquiet,hstatus⟩ := h.statuses_start
  have hreach : Reaches (Bus.ports.outb ataCommand cmdCacheFlush b)
      (Bus.ports.ataStatusWait 0 timeout (Bus.ports.outb ataCommand cmdCacheFlush b)).2
      (flushReadings (bytes ataCommand) m timeout) := by
    have hwait := ataStatusWait_spec 0 BsyClear (by simp [BsyClear]) timeout
      (Bus.ports.outb ataCommand cmdCacheFlush b)
    change match firstReading (b.bytes ataCommand) BsyClear (b.reads ataCommand) timeout with
      | some _ => _
      | none => _ at hwait
    unfold flushReadings
    rw [hbytes,hreads] at hwait
    cases hfirst : firstReading (bytes ataCommand) BsyClear m timeout with
    | none =>
      rw [hfirst] at hwait
      exact hwait.2
    | some f =>
      rw [hfirst] at hwait
      exact hreads ▸ hwait.2.2
  obtain ⟨accesses,hlog,-,hwaited⟩ := hreach.log_eq
  have hlog' : (Bus.ports.ataStatusWait 0 timeout (Bus.ports.outb ataCommand cmdCacheFlush b)).2.log =
      b.log++flush::accesses := hlog.trans (List.append_assoc _ _ _)
  have hsince : statuses (flush::accesses) =
      (List.range' m (flushReadings (bytes ataCommand) m timeout)).map (bytes ataCommand) := by
    change statuses accesses = _
    rw [hwaited]
    change List.map (b.bytes ataCommand) (List.range' (b.reads ataCommand) _) = _
    rw [hbytes,hreads]
  rw [hlog',sinceFlush_append hquiet,statuses_append,hstatus,hsince,← List.map_append,
    List.range_eq_range',List.range_eq_range']
  refine ⟨?_,rfl⟩
  rw [← List.range'_append_1,Nat.zero_add]

/-- The write fails when a DRQ does not come in time; when all of them come, it makes the
readings up to the last one and those of the wait after the flush. -/
theorem ataWrite250gb_statuses :
    match served (bytes ataCommand) count 0 with
    | some m => (Bus.ports.ataWrite250gb lba count buffer (Bus.start bytes words)).1 = 0 ∧
      statuses (Bus.ports.ataWrite250gb lba count buffer (Bus.start bytes words)).2.log =
          (List.range (m+flushReadings (bytes ataCommand) m 100000)).map (bytes ataCommand) ∧
        statuses (sinceFlush (Bus.ports.ataWrite250gb lba count buffer (Bus.start bytes words)).2.log) =
          (List.range' m (flushReadings (bytes ataCommand) m 100000)).map (bytes ataCommand)
    | none => (Bus.ports.ataWrite250gb lba count buffer (Bus.start bytes words)).1 = -1 := by
  have hloop := command_spec bytes words lba count (by decide : cmdWritePioExt ≠ cmdCacheFlush)
    (fun s r => ((),Bus.ports.outWords buffer (s*256) 256 r.2)) (fun s r => outWords_reaches buffer (s*256) 256 r.2) ()
  unfold Ports.ataWrite250gb Ports.writeSectors
  cases hserved : served (bytes ataCommand) count 0 with
  | none =>
    rw [hserved] at hloop
    simp only [hloop,Bool.false_eq_true,if_false]
  | some m =>
    rw [hserved] at hloop
    obtain ⟨hret,hall⟩ := hloop
    simp only [hret,if_true,true_and]
    exact flush_reaches bytes words hall 100000

/-- Success of a write is honest when the whole trace it reads is clean and the flush ends. -/
theorem writeHonest_iff :
    WriteHonest lba count buffer (Bus.start bytes words) ↔ CleanWrite (bytes ataCommand) count := by
  have hcall := ataWrite250gb_statuses bytes words lba count buffer
  unfold WriteHonest CleanWrite
  cases hserved : served (bytes ataCommand) count 0 with
  | none =>
    rw [hserved] at hcall
    simp [hcall]
  | some m =>
    rw [hserved] at hcall
    obtain ⟨hret,hstatus,hsince⟩ := hcall
    simp only [hret,hstatus,hsince,forall_const,Option.some.injEq,forall_eq',List.mem_map,
      List.mem_range,List.mem_range'_1,exists_exists_and_eq_and,forall_exists_index,and_imp,
      forall_apply_eq_imp_iff₂]
    cases hfirst : firstReading (bytes ataCommand) BsyClear m 100000 with
    | none =>
      have hbusy := List.find?_eq_none.mp hfirst
      simp only [decide_eq_true_eq,List.mem_range'_1,and_imp] at hbusy
      simp only [flushReadings,hfirst,reduceCtorEq,false_and,exists_false,iff_false]
      rintro ⟨-,k,⟨hk,hlt⟩,hclear⟩
      exact hbusy k hk hlt hclear
    | some f =>
      have hclear := List.find?_some hfirst
      have hmem := List.mem_range'_1.mp (List.mem_of_find?_eq_some hfirst)
      have hend : m+(f+1-m) = f+1 := by omega
      simp only [flushReadings,hfirst,hend,Option.some.injEq,exists_eq_left',Nat.lt_succ_iff]
      exact and_iff_left ⟨f,⟨hmem.1,le_rfl⟩,of_decide_eq_true hclear⟩

theorem readHonest_iff :
    ReadHonest lba count buffer (Bus.start bytes words) ↔ CleanRead (bytes ataCommand) count := by
  have hcall := ataRead250gb_statuses bytes words lba count buffer
  unfold ReadHonest CleanRead
  cases hserved : served (bytes ataCommand) count 0 with
  | none =>
    rw [hserved] at hcall
    simp [hcall]
  | some m =>
    rw [hserved] at hcall
    simp [hcall.1,hcall.2]

/-- Both functions report a success that the device reported, for the traces without an error
on them and with an end to the flush, and for no others. -/
theorem success_honest_iff :
    (WriteHonest lba count buffer (Bus.start bytes words) ↔ CleanWrite (bytes ataCommand) count) ∧
      (ReadHonest lba count buffer (Bus.start bytes words) ↔ CleanRead (bytes ataCommand) count) :=
  ⟨writeHonest_iff bytes words lba count buffer,readHonest_iff bytes words lba count buffer⟩

end Calls

/-- A disk that answers DRQ and ERR to every reading: the sector is written and read, and both
functions return 0. -/
theorem error_is_success :
    ¬ WriteHonest 0 1 (fun _ => 0) (Bus.start (fun _ _ => statusDrq ||| statusErr) fun _ _ => 0) ∧
      ¬ ReadHonest 0 1 (fun _ => 0) (Bus.start (fun _ _ => statusDrq ||| statusErr) fun _ _ => 0) := by
  decide +kernel

end AtaStatus
end ValiantCore
