import ValiantCore.Ata
import ValiantCore.Bytes

/-! The driver `drivers/ata.c` against a device with LBA48 addressing. The device keeps the
current and the previous content of each of its count and address registers, raises DRQ
for every sector after a delay of its own, and moves the words of a sector in order. -/
namespace ValiantCore
namespace AtaPio

open Ata

/-- A register that remembers what it held before. -/
structure Latch where
  cur : UInt8
  prev : UInt8

def Latch.push (l : Latch) (v : UInt8) : Latch := ⟨v,l.cur⟩

inductive Direction
  | write | read
  deriving DecidableEq, Repr

/-- A transfer at word `word` of sector `lba`, with `left` sectors to go. -/
structure Transfer where
  dir : Direction
  lba : ℕ
  left : ℕ
  word : ℕ
  deriving DecidableEq, Repr

/-- The device. It stays busy for `busy` readings of the status; `delays` are the times it
takes for its sectors, all shorter than the driver waits, and `served` counts them.
`stored` lists the sectors it has written, in order. -/
structure Device where
  driveSel : UInt8
  secCount : Latch
  lbaLow : Latch
  lbaMid : Latch
  lbaHigh : Latch
  sectors : ℕ → ℕ → UInt16
  stored : List ℕ
  transfer : Option Transfer
  busy : ℕ
  served : ℕ
  delays : ℕ → Fin 10000
  flushTime : ℕ

namespace Device

/-- The address in the LBA registers: the previous contents are its upper half. -/
def lba48 (d : Device) : ℕ :=
  d.lbaLow.cur.toNat+d.lbaMid.cur.toNat*2^8+d.lbaHigh.cur.toNat*2^16+
    d.lbaLow.prev.toNat*2^24+d.lbaMid.prev.toNat*2^32+d.lbaHigh.prev.toNat*2^40

/-- The number of sectors, where 0 stands for 65536. -/
def sectorCount (d : Device) : ℕ :=
  if d.secCount.prev.toNat*256+d.secCount.cur.toNat = 0 then 65536
  else d.secCount.prev.toNat*256+d.secCount.cur.toNat

def begin (d : Device) (t : Transfer) : Device :=
  { d with transfer := some t, busy := d.delays d.served, served := d.served+1 }

def command (d : Device) (cmd : UInt8) : Device :=
  if cmd = cmdWritePioExt ∧ d.driveSel &&& 0x40 ≠ 0 then d.begin ⟨.write,d.lba48,d.sectorCount,0⟩
  else if cmd = cmdReadPioExt ∧ d.driveSel &&& 0x40 ≠ 0 then d.begin ⟨.read,d.lba48,d.sectorCount,0⟩
  else if cmd = cmdCacheFlush then { d with transfer := none, busy := d.flushTime }
  else d

def outb (d : Device) (port : ℕ) (v : UInt8) : Device :=
  if port = ataSecCount then { d with secCount := d.secCount.push v }
  else if port = ataLbaLow then { d with lbaLow := d.lbaLow.push v }
  else if port = ataLbaMid then { d with lbaMid := d.lbaMid.push v }
  else if port = ataLbaHigh then { d with lbaHigh := d.lbaHigh.push v }
  else if port = ataDriveSel then { d with driveSel := v }
  else if port = ataCommand then d.command v
  else d

def status (d : Device) : UInt8 :=
  if d.busy ≠ 0 then statusBsy
  else if d.transfer.isSome then 0x50 ||| statusDrq
  else 0x50

/-- Reading the status takes time; the alternate status is read without effect. -/
def inb (d : Device) (port : ℕ) : UInt8 × Device :=
  if port = ataCommand then (d.status,{ d with busy := d.busy-1 })
  else if port = ataControl then (d.status,d)
  else (0,d)

/-- The word is moved; after the last one of a sector the next sector is taken up. -/
def advance (d : Device) (t : Transfer) : Device :=
  if t.word+1 < 256 then { d with transfer := some { t with word := t.word+1 } }
  else if t.left ≤ 1 then { d with transfer := none }
  else d.begin ⟨t.dir,t.lba+1,t.left-1,0⟩

def store (d : Device) (t : Transfer) (v : UInt16) : Device :=
  { d with
    sectors := Function.update d.sectors t.lba (Function.update (d.sectors t.lba) t.word v)
    stored := if t.word+1 < 256 then d.stored else d.stored++[t.lba] }

/-- A word that is not asked for is lost. -/
def outw (d : Device) (port : ℕ) (v : UInt16) : Device :=
  match d.transfer with
  | some t => if port = ataData ∧ d.busy = 0 ∧ t.dir = .write then (d.store t v).advance t else d
  | none => d

def inw (d : Device) (port : ℕ) : UInt16 × Device :=
  match d.transfer with
  | some t =>
    if port = ataData ∧ d.busy = 0 ∧ t.dir = .read then (d.sectors t.lba t.word,d.advance t)
    else (0,d)
  | none => (0,d)

end Device

def pio : Ports Device where
  inb port d := d.inb port
  outb port v d := d.outb port v
  inw port d := d.inw port
  outw port v d := d.outw port v

@[simp] theorem pio_inb (port : ℕ) (d : Device) : pio.inb port d = d.inb port := rfl
@[simp] theorem pio_outb (port : ℕ) (v : UInt8) (d : Device) : pio.outb port v d = d.outb port v := rfl
@[simp] theorem pio_inw (port : ℕ) (d : Device) : pio.inw port d = d.inw port := rfl
@[simp] theorem pio_outw (port : ℕ) (v : UInt16) (d : Device) : pio.outw port v d = d.outw port v := rfl

def ataWrite250gb (lba count : ℕ) (buffer : ℕ → UInt16) (d : Device) : ℤ × Device :=
  pio.ataWrite250gb lba count buffer d

def ataRead250gb (lba count : ℕ) (buffer : ℕ → UInt16) (d : Device) : ℤ × (ℕ → UInt16) × Device :=
  pio.ataRead250gb lba count buffer d

@[simp] theorem ataIoWait_eq (d : Device) : pio.ataIoWait d = d := rfl

theorem ataStatusWait_drq {t : Transfer} {timeout : ℕ} {d : Device} (ht : d.transfer = some t)
    (hbusy : d.busy < timeout) :
    pio.ataStatusWait statusDrq timeout d = (true,{ d with busy := 0 }) := by
  induction timeout generalizing d with
  | zero => omega
  | succ timeout ih =>
    rw [Ports.ataStatusWait]
    by_cases hready : d.busy = 0
    · have hstatus : d.status &&& statusDrq ≠ 0 := by
        simp only [Device.status,hready,ht,ne_eq,not_true_eq_false,if_false,Option.isSome_some,if_true]
        decide
      have hbit : statusDrq ≠ 0 := by decide
      simp only [pio_inb,Device.inb,if_true,hbit,hstatus,ne_eq,not_false_iff,and_self]
      rw [hready]
    · have hstatus : d.status &&& statusDrq = 0 := by
        simp only [Device.status,ne_eq,hready,not_false_iff,if_true]
        decide
      have hbit : statusDrq ≠ 0 := by decide
      simp only [pio_inb,Device.inb,if_true,hbit,hstatus,ne_eq,not_true_eq_false,and_false,false_and,if_false,
        ataIoWait_eq]
      rw [ih (d := { d with busy := d.busy-1 }) ht (by simp only; omega)]

section Sector
variable {d : Device} {buffer : ℕ → UInt16} {lba left base : ℕ}

def filled (old : ℕ → UInt16) (buffer : ℕ → UInt16) (base n : ℕ) : ℕ → UInt16 :=
  fun i => if i < n then buffer (base+i) else old i

theorem filled_succ (old buffer : ℕ → UInt16) (base n : ℕ) :
    Function.update (filled old buffer base n) n (buffer (base+n)) = filled old buffer base (n+1) := by
  funext i
  by_cases h : i = n
  · subst h
    simp [filled]
  · simp only [Function.update_of_ne h,filled]
    congr 1
    exact propext (by omega)

theorem filled_zero (old buffer : ℕ → UInt16) (base : ℕ) : filled old buffer base 0 = old := by
  funext i
  simp [filled]

theorem outWords_of_lt (hbusy : d.busy = 0) (ht : d.transfer = some ⟨.write,lba,left,0⟩) {n : ℕ}
    (hn : n < 256) :
    pio.outWords buffer base n d =
      { d with
        transfer := some ⟨.write,lba,left,n⟩
        sectors := Function.update d.sectors lba (filled (d.sectors lba) buffer base n) } := by
  induction n with
  | zero => simp [Ports.outWords,filled_zero,← ht]
  | succ n ih =>
    rw [Ports.outWords,ih (by omega)]
    simp only [pio_outw,Device.outw,hbusy,and_self,if_true,Device.store,Device.advance,hn,Function.update_self,
      Function.update_idem,filled_succ]

theorem begin_busy (d : Device) (t : Transfer) : (d.begin t).busy < 10000 := (d.delays d.served).isLt

theorem advance_last {dir : Direction} (hbusy : d.busy = 0) :
    (d.advance ⟨dir,lba,left+1,255⟩).busy < 10000 ∧
      (left ≠ 0 → (d.advance ⟨dir,lba,left+1,255⟩).transfer = some ⟨dir,lba+1,left,0⟩) ∧
      (d.advance ⟨dir,lba,left+1,255⟩).sectors = d.sectors ∧
      (d.advance ⟨dir,lba,left+1,255⟩).stored = d.stored := by
  unfold Device.advance
  rw [if_neg (by simp)]
  by_cases hleft : left = 0
  · subst hleft
    rw [if_pos le_rfl]
    exact ⟨by simp [hbusy],fun h => absurd rfl h,rfl,rfl⟩
  · rw [if_neg (by simp only; omega)]
    exact ⟨begin_busy _ _,fun _ => rfl,rfl,rfl⟩

theorem outWords_sector (buffer : ℕ → UInt16) (base : ℕ) (hbusy : d.busy = 0)
    (ht : d.transfer = some ⟨.write,lba,left+1,0⟩) :
    (pio.outWords buffer base 256 d).busy < 10000 ∧
      (left ≠ 0 → (pio.outWords buffer base 256 d).transfer = some ⟨.write,lba+1,left,0⟩) ∧
      (pio.outWords buffer base 256 d).sectors =
        Function.update d.sectors lba (filled (d.sectors lba) buffer base 256) ∧
      (pio.outWords buffer base 256 d).stored = d.stored++[lba] := by
  rw [Ports.outWords,outWords_of_lt hbusy ht (by decide)]
  simp only [pio_outw,Device.outw,hbusy,and_self,if_true,Device.store,Function.update_self,
    Function.update_idem,filled_succ]
  apply advance_last
  rfl

end Sector

def addressed (d : Device) (lba count : ℕ) : Device :=
  { d with
    driveSel := 0x40
    secCount := ⟨UInt8.ofNat count,UInt8.ofNat (count/2^8)⟩
    lbaLow := ⟨UInt8.ofNat lba,UInt8.ofNat (lba/2^24)⟩
    lbaMid := ⟨UInt8.ofNat (lba/2^8),UInt8.ofNat (lba/2^32)⟩
    lbaHigh := ⟨UInt8.ofNat (lba/2^16),UInt8.ofNat (lba/2^40)⟩ }

section Command
variable {d : Device} {lba count : ℕ}

theorem addressed_lba48 (hlba : lba < 2^48) : (addressed d lba count).lba48 = lba := by
  simp only [addressed,Device.lba48,UInt8.toNat_ofNat']
  omega

theorem addressed_sectorCount (h0 : 0 < count) (hcount : count < 2^16) :
    (addressed d lba count).sectorCount = count := by
  have hvalue : count/2^8%2^8*256+count%2^8 = count := by omega
  simp only [addressed,Device.sectorCount,UInt8.toNat_ofNat',hvalue,if_neg (Nat.ne_of_gt h0)]

theorem addressed_command {cmd : UInt8} {dir : Direction}
    (hcmd : (cmd = cmdWritePioExt ∧ dir = .write) ∨ (cmd = cmdReadPioExt ∧ dir = .read))
    (hlba : lba < 2^48) (h0 : 0 < count) (hcount : count < 2^16) :
    (addressed d lba count).outb ataCommand cmd =
      (addressed d lba count).begin ⟨dir,lba,count,0⟩ := by
  have hdrive : (addressed d lba count).driveSel &&& 0x40 ≠ 0 := by
    simp only [addressed]
    decide
  have hports : (addressed d lba count).outb ataCommand cmd = (addressed d lba count).command cmd := rfl
  rw [hports,Device.command,addressed_lba48 hlba,addressed_sectorCount h0 hcount]
  rcases hcmd with ⟨rfl,rfl⟩ | ⟨rfl,rfl⟩
  · exact if_pos ⟨rfl,hdrive⟩
  · rw [if_neg fun h => absurd h.1 (by decide)]
    exact if_pos ⟨rfl,hdrive⟩

end Command

/-- The sectors after `left` of them, from sector `s` of the buffer on, have been written. -/
def transferred (old : ℕ → ℕ → UInt16) (buffer : ℕ → UInt16) (lba s left : ℕ) : ℕ → ℕ → UInt16 :=
  fun a i =>
    if lba+s ≤ a ∧ a < lba+s+left ∧ i < 256 then buffer ((a-lba)*256+i) else old a i

theorem transferred_zero (old : ℕ → ℕ → UInt16) (buffer : ℕ → UInt16) (lba s : ℕ) :
    transferred old buffer lba s 0 = old := by
  funext a i
  exact if_neg (by omega)

theorem transferred_succ (old : ℕ → ℕ → UInt16) (buffer : ℕ → UInt16) (lba s left : ℕ) :
    transferred (Function.update old (lba+s) (filled (old (lba+s)) buffer (s*256) 256)) buffer lba (s+1) left =
      transferred old buffer lba s (left+1) := by
  funext a i
  unfold transferred
  by_cases ha : a = lba+s
  · subst ha
    rw [if_neg (by omega),Function.update_self,filled,Nat.add_sub_cancel_left]
    congr 1
    exact propext (by omega)
  · rw [Function.update_of_ne ha]
    congr 1
    exact propext (by omega)

theorem sectors_succ {X : Type} (move : ℕ → X × Device → X × Device) (left s : ℕ) (x : X) {d : Device}
    {t : Transfer} (ht : d.transfer = some t) (hbusy : d.busy < 10000) :
    pio.sectors move (left+1) s (x,d) = pio.sectors move left (s+1) (move s (x,{ d with busy := 0 })) := by
  rw [Ports.sectors,ataStatusWait_drq ht hbusy]
  rfl

theorem writeSectors_spec (buffer : ℕ → UInt16) {lba left s : ℕ} {d : Device} (hbusy : d.busy < 10000)
    (ht : left ≠ 0 → d.transfer = some ⟨.write,lba+s,left,0⟩) :
    ∃ d', pio.writeSectors buffer left s d = (true,(),d') ∧
      d'.sectors = transferred d.sectors buffer lba s left ∧
      d'.stored = d.stored++List.range' (lba+s) left := by
  induction left generalizing s d with
  | zero => exact ⟨d,rfl,(transferred_zero ..).symm,by simp⟩
  | succ left ih =>
    have ht' := ht left.succ_ne_zero
    rw [Ports.writeSectors,sectors_succ _ left s () ht' hbusy]
    obtain ⟨hbusy₁,ht₁,hsectors,hstored⟩ :=
      outWords_sector (d := { d with busy := 0 }) buffer (s*256) rfl ht'
    obtain ⟨d',hrun,hsectors',hstored'⟩ := ih (s := s+1) hbusy₁ ht₁
    refine ⟨d',hrun,?_,?_⟩
    · rw [hsectors',hsectors,transferred_succ]
    · rw [hstored',hstored,List.range'_succ,List.append_assoc]
      rfl

def received (buffer : ℕ → UInt16) (sector : ℕ → UInt16) (base n : ℕ) : ℕ → UInt16 :=
  fun k => if base ≤ k ∧ k < base+n then sector (k-base) else buffer k

theorem received_zero (buffer sector : ℕ → UInt16) (base : ℕ) : received buffer sector base 0 = buffer := by
  funext k
  exact if_neg (by omega)

theorem received_succ (buffer sector : ℕ → UInt16) (base n : ℕ) :
    Function.update (received buffer sector base n) (base+n) (sector n) =
      received buffer sector base (n+1) := by
  funext k
  unfold received
  by_cases hk : k = base+n
  · subst hk
    rw [Function.update_self,if_pos (by omega),Nat.add_sub_cancel_left]
  · rw [Function.update_of_ne hk]
    congr 1
    exact propext (by omega)

section Reading
variable {d : Device} {buffer : ℕ → UInt16} {lba left base : ℕ}

theorem inWords_of_lt (hbusy : d.busy = 0) (ht : d.transfer = some ⟨.read,lba,left,0⟩) {n : ℕ}
    (hn : n < 256) :
    pio.inWords base n (buffer,d) =
      (received buffer (d.sectors lba) base n,{ d with transfer := some ⟨.read,lba,left,n⟩ }) := by
  induction n with
  | zero => simp [Ports.inWords,received_zero,← ht]
  | succ n ih =>
    rw [Ports.inWords,ih (by omega)]
    simp only [pio_inw,Device.inw,hbusy,and_self,if_true,Device.advance,hn,received_succ]

theorem inWords_sector (buffer : ℕ → UInt16) (base : ℕ) (hbusy : d.busy = 0)
    (ht : d.transfer = some ⟨.read,lba,left+1,0⟩) :
    (pio.inWords base 256 (buffer,d)).1 = received buffer (d.sectors lba) base 256 ∧
      (pio.inWords base 256 (buffer,d)).2.busy < 10000 ∧
      (left ≠ 0 → (pio.inWords base 256 (buffer,d)).2.transfer = some ⟨.read,lba+1,left,0⟩) ∧
      (pio.inWords base 256 (buffer,d)).2.sectors = d.sectors ∧
      (pio.inWords base 256 (buffer,d)).2.stored = d.stored := by
  rw [Ports.inWords,inWords_of_lt hbusy ht (by decide)]
  simp only [pio_inw,Device.inw,hbusy,and_self,if_true,received_succ,true_and]
  apply advance_last
  rfl

end Reading

/-- The buffer after `left` sectors, from sector `s` of the transfer on, have been read. -/
def fetched (buffer : ℕ → UInt16) (sectors : ℕ → ℕ → UInt16) (lba s left : ℕ) : ℕ → UInt16 :=
  fun k => if s*256 ≤ k ∧ k < (s+left)*256 then sectors (lba+k/256) (k%256) else buffer k

theorem fetched_succ (buffer : ℕ → UInt16) (sectors : ℕ → ℕ → UInt16) (lba s left : ℕ) :
    fetched (received buffer (sectors (lba+s)) (s*256) 256) sectors lba (s+1) left =
      fetched buffer sectors lba s (left+1) := by
  funext k
  unfold fetched received
  by_cases hs : s*256 ≤ k ∧ k < s*256+256
  · have hdiv : k/256 = s := by omega
    have hmod : k%256 = k-s*256 := by omega
    rw [if_neg (by omega),if_pos hs,if_pos (by omega),hdiv,hmod]
  · rw [if_neg hs]
    exact if_congr (by omega) rfl rfl

theorem readSectors_spec (buffer : ℕ → UInt16) {lba left s : ℕ} {d : Device} (hbusy : d.busy < 10000)
    (ht : left ≠ 0 → d.transfer = some ⟨.read,lba+s,left,0⟩) :
    ∃ d', pio.readSectors left s (buffer,d) = (true,fetched buffer d.sectors lba s left,d') ∧
      d'.sectors = d.sectors ∧ d'.stored = d.stored := by
  induction left generalizing s buffer d with
  | zero =>
    refine ⟨d,?_,rfl,rfl⟩
    have hnone : fetched buffer d.sectors lba s 0 = buffer := by
      funext k
      exact if_neg (by omega)
    rw [hnone]
    rfl
  | succ left ih =>
    have ht' := ht left.succ_ne_zero
    have hsector := inWords_sector (d := { d with busy := 0 }) buffer (s*256) rfl ht'
    rw [Ports.readSectors,sectors_succ _ left s buffer ht' hbusy]
    generalize pio.inWords (s*256) 256 (buffer,{ d with busy := 0 }) = r at hsector ⊢
    obtain ⟨buffer₁,d₁⟩ := r
    obtain ⟨rfl,hbusy₁,ht₁,hsectors,hstored⟩ := hsector
    obtain ⟨d',hrun,hsectors',hstored'⟩ := ih (s := s+1) _ hbusy₁ ht₁
    simp only at hrun hsectors hsectors' hstored hstored'
    refine ⟨d',?_,hsectors'.trans hsectors,hstored'.trans hstored⟩
    refine hrun.trans ?_
    rw [hsectors,fetched_succ]

theorem ataStatusWait_frame (bit : UInt8) (timeout : ℕ) (d : Device) :
    (pio.ataStatusWait bit timeout d).2.sectors = d.sectors ∧
      (pio.ataStatusWait bit timeout d).2.stored = d.stored := by
  induction timeout generalizing d with
  | zero => exact ⟨rfl,rfl⟩
  | succ timeout ih =>
    simp only [Ports.ataStatusWait,ataIoWait_eq]
    split_ifs
    · exact ⟨rfl,rfl⟩
    · exact ⟨rfl,rfl⟩
    · exact ih _

theorem cacheFlush_frame (d : Device) :
    (d.outb ataCommand cmdCacheFlush).sectors = d.sectors ∧
      (d.outb ataCommand cmdCacheFlush).stored = d.stored := by
  have hports : d.outb ataCommand cmdCacheFlush = d.command cmdCacheFlush := rfl
  have hwrite : cmdCacheFlush ≠ cmdWritePioExt := by decide
  have hread : cmdCacheFlush ≠ cmdReadPioExt := by decide
  rw [hports,Device.command,if_neg fun h => hwrite h.1,if_neg fun h => hread h.1,if_pos rfl]
  exact ⟨rfl,rfl⟩

section Calls
variable {lba count : ℕ}

theorem ataWrite250gb_eq (lba count : ℕ) (buffer : ℕ → UInt16) (d : Device) :
    ataWrite250gb lba count buffer d =
      let r := pio.writeSectors buffer count 0 ((addressed d lba count).outb ataCommand cmdWritePioExt)
      if r.1 then (0,(pio.ataStatusWait 0 100000 (r.2.2.outb ataCommand cmdCacheFlush)).2)
      else (-1,r.2.2) := rfl

theorem ataRead250gb_eq (lba count : ℕ) (buffer : ℕ → UInt16) (d : Device) :
    ataRead250gb lba count buffer d =
      let r := pio.readSectors count 0 (buffer,(addressed d lba count).outb ataCommand cmdReadPioExt)
      if r.1 then (0,r.2) else (-1,r.2) := rfl

/-- `ata_write_250gb` stores the buffer in the sectors it is given, in order. -/
theorem ataWrite250gb_spec (buffer : ℕ → UInt16) (d : Device) (h0 : 0 < count) (hcount : count < 2^16)
    (hfit : lba+count ≤ 2^48) :
    (ataWrite250gb lba count buffer d).1 = 0 ∧
      (ataWrite250gb lba count buffer d).2.sectors = transferred d.sectors buffer lba 0 count ∧
      (ataWrite250gb lba count buffer d).2.stored = d.stored++List.range' lba count := by
  obtain ⟨d',hrun,hsectors,hstored⟩ := writeSectors_spec buffer (s := 0)
    (begin_busy (addressed d lba count) ⟨.write,lba,count,0⟩) fun _ => rfl
  rw [ataWrite250gb_eq,addressed_command (.inl ⟨rfl,rfl⟩) (by omega) h0 hcount,hrun]
  simp only [if_true]
  have hwait := ataStatusWait_frame 0 100000 (d'.outb ataCommand cmdCacheFlush)
  have hflush := cacheFlush_frame d'
  refine ⟨trivial,?_,?_⟩
  · rw [hwait.1,hflush.1,hsectors]
    rfl
  · rw [hwait.2,hflush.2,hstored]
    rfl

theorem ataRead250gb_spec (buffer : ℕ → UInt16) (d : Device) (h0 : 0 < count) (hcount : count < 2^16)
    (hfit : lba+count ≤ 2^48) :
    (ataRead250gb lba count buffer d).1 = 0 ∧
      (ataRead250gb lba count buffer d).2.1 = fetched buffer d.sectors lba 0 count ∧
      (ataRead250gb lba count buffer d).2.2.sectors = d.sectors ∧
      (ataRead250gb lba count buffer d).2.2.stored = d.stored := by
  obtain ⟨d',hrun,hsectors,hstored⟩ := readSectors_spec buffer (s := 0)
    (begin_busy (addressed d lba count) ⟨.read,lba,count,0⟩) fun _ => rfl
  rw [ataRead250gb_eq,addressed_command (.inr ⟨rfl,rfl⟩) (by omega) h0 hcount,hrun]
  exact ⟨rfl,rfl,hsectors,hstored⟩

theorem fetched_transferred (old : ℕ → ℕ → UInt16) (buffer into : ℕ → UInt16) (lba count : ℕ) {k : ℕ}
    (hk : k < count*256) :
    fetched into (transferred old buffer lba 0 count) lba 0 count k = buffer k := by
  have hdiv : k/256 < count := by omega
  have hword : (lba+k/256-lba)*256+k%256 = k := by omega
  rw [fetched,if_pos (by omega),transferred,if_pos (by omega),hword]

end Calls

/-- A write addresses exactly the sectors `lba` to `lba+count-1` and stores the buffer there
in order, a read that follows returns the same words, and no other sector changes. -/
theorem pio_round_trip (d : Device) (lba count : ℕ) (buffer into : ℕ → UInt16) (h0 : 1 ≤ count)
    (hcount : count ≤ 65535) (hfit : lba+count ≤ 2^48) :
    let written := ataWrite250gb lba count buffer d
    let reread := ataRead250gb lba count into written.2
    written.1 = 0 ∧ written.2.stored = d.stored++List.range' lba count ∧
      (∀ s < count, ∀ i < 256, written.2.sectors (lba+s) i = buffer (s*256+i)) ∧
      (∀ a, ¬ (lba ≤ a ∧ a < lba+count) → written.2.sectors a = d.sectors a) ∧
      reread.1 = 0 ∧ (∀ k < count*256, reread.2.1 k = buffer k) ∧
      reread.2.2.sectors = written.2.sectors := by
  intro written reread
  obtain ⟨hwrite,hsectors,hstored⟩ := ataWrite250gb_spec buffer d h0 (by omega) hfit
  obtain ⟨hread,hbuffer,hkept,-⟩ := ataRead250gb_spec into written.2 h0 (by omega) hfit
  refine ⟨hwrite,hstored,?_,?_,hread,?_,hkept⟩
  · intro s hs i hi
    rw [hsectors,transferred,if_pos (by omega),Nat.add_sub_cancel_left]
  · intro a ha
    funext i
    rw [hsectors]
    exact if_neg (by omega)
  · intro k hk
    rw [hbuffer,hsectors]
    exact fetched_transferred _ _ _ _ _ hk

def newDevice : Device :=
  ⟨0,⟨0,0⟩,⟨0,0⟩,⟨0,0⟩,⟨0,0⟩,fun _ _ => 0,[],none,0,0,fun _ => ⟨3,by decide⟩,7⟩

theorem pio_round_trip_two_sectors :
    let written := ataWrite250gb 5 2 UInt16.ofNat newDevice
    let reread := ataRead250gb 5 2 (fun _ => 0) written.2
    written.1 = 0 ∧ written.2.stored = newDevice.stored++List.range' 5 2 ∧
      (∀ s < 2, ∀ i < 256, written.2.sectors (5+s) i = UInt16.ofNat (s*256+i)) ∧
      (∀ a, ¬ (5 ≤ a ∧ a < 5+2) → written.2.sectors a = newDevice.sectors a) ∧
      reread.1 = 0 ∧ (∀ k < 2*256, reread.2.1 k = UInt16.ofNat k) ∧
      reread.2.2.sectors = written.2.sectors :=
  pio_round_trip newDevice 5 2 UInt16.ofNat (fun _ => 0) (by decide) (by decide) (by decide)

end AtaPio
end ValiantCore
