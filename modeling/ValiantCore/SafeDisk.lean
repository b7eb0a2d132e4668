import ValiantCore.AtaPio
import ValiantCore.Runs

/-! The checked disk access of `security/safe_disk.rs`, over any ATA driver. What reaches
the driver is kept in a list of calls. -/
namespace ValiantCore
namespace SafeDisk

open AtaPio (transferred fetched)

def diskLimitLba : ℕ := 488397168
def sectorSize : ℕ := 512
def maxWriteSectors : ℕ := 128
def magicCanary : ℕ := 0xDEADC0DE
def xorKey : ℕ := 0xA5

inductive DiskError
  | lbaOutOfBounds | emptyData | tooManySectors | hardwareError | bufferOverflow
  | integrityCheckFailed | nullPointer | unalignedAccess
  deriving DecidableEq, Repr

structure SafeDiskManager where
  sectorSize : ℕ
  diskLimitLba : ℕ
  canary : ℕ
  writeCount : ℕ
  errorCount : ℕ
  deriving DecidableEq, Repr

def SafeDiskManager.new : SafeDiskManager :=
  ⟨SafeDisk.sectorSize,SafeDisk.diskLimitLba,magicCanary,0,0⟩

/-- `ata_write_250gb` and `ata_read_250gb` on a disk `D`, with the words at the pointer
they are given. -/
structure Ata (D : Type) where
  write : ℕ → ℕ → (ℕ → UInt16) → D → ℤ × D
  read : ℕ → ℕ → (ℕ → UInt16) → D → ℤ × (ℕ → UInt16) × D

/-- A call that reaches the driver, and the length of the slice the pointer is of. -/
structure AtaCall where
  dir : AtaPio.Direction
  lba : ℕ
  count : ℕ
  len : ℕ
  deriving DecidableEq, Repr

structure State (D : Type) where
  manager : SafeDiskManager
  disk : D
  calls : List AtaCall

def SafeDiskManager.checkIntegrity (m : SafeDiskManager) : Bool := m.canary == magicCanary

def SafeDiskManager.validateLba (m : SafeDiskManager) (lba count : ℕ) : Except DiskError Unit :=
  if lba > m.diskLimitLba then .error .lbaOutOfBounds
  else if min (lba+count) (2^64-1) > m.diskLimitLba then .error .lbaOutOfBounds
  else .ok ()

def checksum (data : List UInt16) : ℕ :=
  data.foldl (fun sum word => (sum+word.toNat)%2^32 ^^^ xorKey) 0

/-- `(data.len() / 256) as u16` -/
def sectorCount (len : ℕ) : ℕ := len/256%2^16

/-- The words from the pointer of a slice on. -/
def pointer (data : List UInt16) : ℕ → UInt16 := fun i => data.getD i 0

section Calls
variable {D : Type} (ata : Ata D)

def secureWrite (lba : ℕ) (data : List UInt16) (s : State D) : Except DiskError ℕ × State D :=
  if !s.manager.checkIntegrity then (.error .integrityCheckFailed,s)
  else if data.isEmpty then (.error .emptyData,s)
  else if sectorCount data.length > maxWriteSectors then (.error .tooManySectors,s)
  else if sectorCount data.length = 0 then (.error .emptyData,s)
  else
    match s.manager.validateLba lba (sectorCount data.length) with
    | .error e => (.error e,s)
    | .ok () =>
      if data.length > maxWriteSectors*256 then (.error .bufferOverflow,s)
      else
        let (result,disk) := ata.write lba (sectorCount data.length) (pointer data) s.disk
        let calls := s.calls++[⟨.write,lba,sectorCount data.length,data.length⟩]
        if result = 0 then
          (.ok (checksum data),
            ⟨{ s.manager with writeCount := (s.manager.writeCount+1)%2^64 },disk,calls⟩)
        else
          (.error .hardwareError,
            ⟨{ s.manager with errorCount := (s.manager.errorCount+1)%2^32 },disk,calls⟩)

/-- `secure_read(&mut self, lba, buffer)`, with what it leaves in the buffer. -/
def secureRead (lba : ℕ) (buffer : List UInt16) (s : State D) :
    Except DiskError ℕ × List UInt16 × State D :=
  if !s.manager.checkIntegrity then (.error .integrityCheckFailed,buffer,s)
  else if buffer.isEmpty then (.error .emptyData,buffer,s)
  else if sectorCount buffer.length = 0 then (.error .emptyData,buffer,s)
  else
    match s.manager.validateLba lba (sectorCount buffer.length) with
    | .error e => (.error e,buffer,s)
    | .ok () =>
      let (result,words,disk) := ata.read lba (sectorCount buffer.length) (pointer buffer) s.disk
      let buffer' := (List.range buffer.length).map words
      let calls := s.calls++[⟨.read,lba,sectorCount buffer.length,buffer.length⟩]
      if result = 0 then (.ok (checksum buffer'),buffer',⟨s.manager,disk,calls⟩)
      else
        (.error .hardwareError,buffer',
          ⟨{ s.manager with errorCount := (s.manager.errorCount+1)%2^32 },disk,calls⟩)

/-- `safe_disk_write(lba, data, len)`; the slice is what a pointer that is not NULL gives. -/
def safeDiskWrite (lba : ℕ) (data : Option (List UInt16)) (s : State D) : ℤ × State D :=
  match data with
  | none => (-1,s)
  | some slice =>
    match secureWrite ata lba slice s with
    | (.ok _,s') => (0,s')
    | (.error _,s') => (-1,s')

def safeDiskRead (lba : ℕ) (buffer : Option (List UInt16)) (s : State D) : ℤ × State D :=
  match buffer with
  | none => (-1,s)
  | some slice =>
    match secureRead ata lba slice s with
    | (.ok _,_,s') => (0,s')
    | (.error _,_,s') => (-1,s')

inductive Op
  | secureWrite (lba : ℕ) (data : List UInt16)
  | secureRead (lba : ℕ) (buffer : List UInt16)
  | safeDiskWrite (lba : ℕ) (data : Option (List UInt16))
  | safeDiskRead (lba : ℕ) (buffer : Option (List UInt16))

def step (s : State D) : Op → State D × Unit
  | .secureWrite lba data => ((secureWrite ata lba data s).2,())
  | .secureRead lba buffer => ((secureRead ata lba buffer s).2.2,())
  | .safeDiskWrite lba data => ((safeDiskWrite ata lba data s).2,())
  | .safeDiskRead lba buffer => ((safeDiskRead ata lba buffer s).2,())

def after (disk : D) (ops : List Op) : State D :=
  Runs.exec (step ata) ⟨SafeDiskManager.new,disk,[]⟩ ops

end Calls

/-- The call stays on the disk and in the slice, and a write is as long as its data. -/
structure AtaCall.Bounded (c : AtaCall) : Prop where
  count_pos : 1 ≤ c.count
  on_disk : c.lba+c.count ≤ SafeDisk.diskLimitLba
  in_slice : c.count*256 ≤ c.len
  write_count : c.dir = .write → c.count ≤ maxWriteSectors ∧ c.count = c.len/256

/-- The data that `secure_write` hands to the driver, by its length. -/
def Writable (lba len : ℕ) : Prop :=
  0 < len/256 ∧ len ≤ maxWriteSectors*256 ∧ lba+len/256 ≤ diskLimitLba

theorem sectorCount_eq {len : ℕ} (h : len ≤ maxWriteSectors*256) : sectorCount len = len/256 := by
  unfold sectorCount
  unfold maxWriteSectors at h
  omega

theorem Writable.addressable {lba len : ℕ} (h : Writable lba len) :
    len/256 < 2^16 ∧ lba+len/256 ≤ 2^48 := by
  obtain ⟨-,hlen,hlba⟩ := h
  unfold maxWriteSectors at hlen
  unfold diskLimitLba at hlba
  omega

def Readable (lba len : ℕ) : Prop := 0 < sectorCount len ∧ lba+sectorCount len ≤ diskLimitLba

/-- The manager is as `new` made it, its counters apart. -/
structure Intact (m : SafeDiskManager) : Prop where
  limit : m.diskLimitLba = SafeDisk.diskLimitLba
  canary : m.canary = magicCanary

theorem Intact.checkIntegrity {m : SafeDiskManager} (h : Intact m) : m.checkIntegrity = true := by
  simp [SafeDiskManager.checkIntegrity,h.canary]

theorem Intact.validateLba {m : SafeDiskManager} (h : Intact m) (lba count : ℕ) :
    m.validateLba lba count =
      if lba+count ≤ diskLimitLba then .ok () else .error .lbaOutOfBounds := by
  unfold SafeDiskManager.validateLba
  rw [h.limit]
  unfold diskLimitLba
  split_ifs with h1 h2 h3 h4 <;> first | rfl | omega

section Guards
variable {D : Type} {ata : Ata D} {s : State D} {lba : ℕ}

theorem secureWrite_cases (hs : Intact s.manager) (data : List UInt16) :
    (¬ Writable lba data.length ∧ ∃ e, secureWrite ata lba data s = (.error e,s)) ∨
    (Writable lba data.length ∧ ∃ m, Intact m ∧
      secureWrite ata lba data s =
        (if (ata.write lba (data.length/256) (pointer data) s.disk).1 = 0 then .ok (checksum data)
          else .error .hardwareError,
          ⟨m,(ata.write lba (data.length/256) (pointer data) s.disk).2,
            s.calls++[⟨.write,lba,data.length/256,data.length⟩]⟩)) := by
  have hcanary : (!s.manager.checkIntegrity) = false := by simp [hs.checkIntegrity]
  rw [secureWrite,hcanary,hs.validateLba]
  simp only [Bool.false_eq_true,if_false]
  by_cases hw : Writable lba data.length
  · right
    refine ⟨hw,?_⟩
    obtain ⟨hpos,hlen,hlba⟩ := hw
    have hcount := sectorCount_eq hlen
    have hempty : ¬ data.isEmpty = true := by
      intro h
      rw [List.isEmpty_iff.mp h] at hpos
      simp at hpos
    have hshort : ¬ data.length/256 > maxWriteSectors := by omega
    rw [hcount,if_neg hempty,if_neg hshort,if_neg (Nat.ne_of_gt hpos),if_pos hlba]
    simp only [if_neg hlen.not_gt]
    split_ifs
    · refine ⟨_,?_,rfl⟩
      exact ⟨hs.limit,hs.canary⟩
    · refine ⟨_,?_,rfl⟩
      exact ⟨hs.limit,hs.canary⟩
  · left
    refine ⟨hw,?_⟩
    by_cases hempty : data.isEmpty = true
    · exact ⟨_,if_pos hempty⟩
    rw [if_neg hempty]
    by_cases hmany : sectorCount data.length > maxWriteSectors
    · exact ⟨_,if_pos hmany⟩
    rw [if_neg hmany]
    by_cases hzero : sectorCount data.length = 0
    · exact ⟨_,if_pos hzero⟩
    rw [if_neg hzero]
    by_cases hlba : lba+sectorCount data.length ≤ diskLimitLba
    swap
    · rw [if_neg hlba]
      exact ⟨_,rfl⟩
    rw [if_pos hlba]
    by_cases hlong : data.length > maxWriteSectors*256
    · exact ⟨_,if_pos hlong⟩
    -- every guard is passed
    rw [sectorCount_eq (not_lt.mp hlong)] at hzero hlba
    exact absurd ⟨Nat.pos_of_ne_zero hzero,not_lt.mp hlong,hlba⟩ hw

/-- What `secure_read` leaves in the buffer when it reaches the driver. -/
def readBuffer (ata : Ata D) (lba : ℕ) (buffer : List UInt16) (disk : D) : List UInt16 :=
  (List.range buffer.length).map
    (ata.read lba (sectorCount buffer.length) (pointer buffer) disk).2.1

theorem secureRead_cases (hs : Intact s.manager) (buffer : List UInt16) :
    (¬ Readable lba buffer.length ∧ ∃ e, secureRead ata lba buffer s = (.error e,buffer,s)) ∨
    (Readable lba buffer.length ∧ ∃ m, Intact m ∧
      secureRead ata lba buffer s =
        (if (ata.read lba (sectorCount buffer.length) (pointer buffer) s.disk).1 = 0 then
            .ok (checksum (readBuffer ata lba buffer s.disk))
          else .error .hardwareError,
          readBuffer ata lba buffer s.disk,
          ⟨m,(ata.read lba (sectorCount buffer.length) (pointer buffer) s.disk).2.2,
            s.calls++[⟨.read,lba,sectorCount buffer.length,buffer.length⟩]⟩)) := by
  have hcanary : (!s.manager.checkIntegrity) = false := by simp [hs.checkIntegrity]
  rw [secureRead,hcanary,hs.validateLba]
  simp only [Bool.false_eq_true,if_false]
  by_cases hr : Readable lba buffer.length
  · right
    refine ⟨hr,?_⟩
    obtain ⟨hpos,hlba⟩ := hr
    have hempty : ¬ buffer.isEmpty = true := by
      intro h
      rw [List.isEmpty_iff.mp h] at hpos
      simp [sectorCount] at hpos
    rw [if_neg hempty,if_neg (Nat.ne_of_gt hpos),if_pos hlba]
    dsimp only
    split_ifs
    · exact ⟨_,hs,rfl⟩
    · refine ⟨_,?_,rfl⟩
      exact ⟨hs.limit,hs.canary⟩
  · left
    refine ⟨hr,?_⟩
    by_cases hempty : buffer.isEmpty = true
    · exact ⟨_,if_pos hempty⟩
    rw [if_neg hempty]
    by_cases hzero : sectorCount buffer.length = 0
    · exact ⟨_,if_pos hzero⟩
    rw [if_neg hzero]
    by_cases hlba : lba+sectorCount buffer.length ≤ diskLimitLba
    · exact absurd ⟨Nat.pos_of_ne_zero hzero,hlba⟩ hr
    · rw [if_neg hlba]
      exact ⟨_,rfl⟩

/-- What holds of the state between calls. -/
structure Sane (s : State D) : Prop where
  intact : Intact s.manager
  bounded : ∀ c ∈ s.calls, c.Bounded

theorem Sane.call {m : SafeDiskManager} {disk : D} {c : AtaCall} (hs : Sane s) (hm : Intact m)
    (hc : c.Bounded) : Sane (⟨m,disk,s.calls++[c]⟩ : State D) := by
  refine ⟨hm,fun c' hc' => ?_⟩
  rcases List.mem_append.mp hc' with hold | hnew
  · exact hs.bounded c' hold
  · rw [List.mem_singleton.mp hnew]
    exact hc

theorem sane_secureWrite (hs : Sane s) (lba : ℕ) (data : List UInt16) :
    Sane (secureWrite ata lba data s).2 := by
  rcases secureWrite_cases hs.intact data with ⟨-,e,heq⟩ | ⟨⟨hpos,hlen,hlba⟩,m,hm,heq⟩
  · rw [heq]
    exact hs
  · rw [heq]
    apply hs.call hm
    have hcount : data.length/256 ≤ maxWriteSectors := by omega
    exact ⟨hpos,hlba,Nat.div_mul_le_self _ _,fun _ => ⟨hcount,rfl⟩⟩

theorem sane_secureRead (hs : Sane s) (lba : ℕ) (buffer : List UInt16) :
    Sane (secureRead ata lba buffer s).2.2 := by
  rcases secureRead_cases hs.intact buffer with ⟨-,e,heq⟩ | ⟨⟨hpos,hlba⟩,m,hm,heq⟩
  · rw [heq]
    exact hs
  · rw [heq]
    apply hs.call hm
    refine ⟨hpos,hlba,?_,fun h => by simp at h⟩
    simp only [sectorCount]
    omega

end Guards

section Runs
variable {D : Type} (ata : Ata D)

theorem safeDiskWrite_state (lba : ℕ) (slice : List UInt16) (s : State D) :
    (safeDiskWrite ata lba (some slice) s).2 = (secureWrite ata lba slice s).2 := by
  simp only [safeDiskWrite]
  split <;> simp [*]

theorem safeDiskRead_state (lba : ℕ) (slice : List UInt16) (s : State D) :
    (safeDiskRead ata lba (some slice) s).2 = (secureRead ata lba slice s).2.2 := by
  simp only [safeDiskRead]
  split <;> simp [*]

theorem sane_step (s : State D) (op : Op) (hs : Sane s) : Sane (step ata s op).1 := by
  cases op with
  | secureWrite lba data => exact sane_secureWrite hs lba data
  | secureRead lba buffer => exact sane_secureRead hs lba buffer
  | safeDiskWrite lba data =>
    cases data with
    | none => exact hs
    | some slice =>
      simp only [step,safeDiskWrite_state]
      exact sane_secureWrite hs lba slice
  | safeDiskRead lba buffer =>
    cases buffer with
    | none => exact hs
    | some slice =>
      simp only [step,safeDiskRead_state]
      exact sane_secureRead hs lba slice

theorem sane_after (disk : D) (ops : List Op) : Sane (after ata disk ops) := by
  apply Runs.exec_invariant (step ata) Sane (sane_step ata)
  exact ⟨⟨rfl,rfl⟩,fun c hc => by simp at hc⟩

/-- Whatever the driver answers, every call that reaches it stays on the disk and within
the slice of the caller, and every write is of all the whole sectors of its data. -/
theorem calls_bounded (disk : D) (ops : List Op) : ∀ c ∈ (after ata disk ops).calls, c.Bounded :=
  (sane_after ata disk ops).bounded

end Runs

def brokenAta : Ata Unit := ⟨fun _ _ _ _ => (-1,()),fun _ _ buffer _ => (-1,buffer,())⟩

theorem calls_bounded_one_read : (⟨.read,7,1,257⟩ : AtaCall).Bounded := by
  apply calls_bounded brokenAta () [.secureRead 7 (List.replicate 257 0)]
  decide +kernel

/-- A driver that never fails: a write stores the words, a read fetches them. -/
structure FaithfulDisk (D : Type) extends Ata D where
  sectors : D → ℕ → ℕ → UInt16
  write_spec : ∀ (lba count : ℕ) (buffer : ℕ → UInt16) (d : D), 0 < count → count < 2^16 →
    lba+count ≤ 2^48 →
    (write lba count buffer d).1 = 0 ∧
      sectors (write lba count buffer d).2 = transferred (sectors d) buffer lba 0 count
  read_spec : ∀ (lba count : ℕ) (buffer : ℕ → UInt16) (d : D), 0 < count → count < 2^16 →
    lba+count ≤ 2^48 →
    (read lba count buffer d).1 = 0 ∧
      (read lba count buffer d).2.1 = fetched buffer (sectors d) lba 0 count

/-- The PIO driver makes such a disk of its device. -/
def pioDisk : FaithfulDisk AtaPio.Device where
  write := AtaPio.ataWrite250gb
  read := AtaPio.ataRead250gb
  sectors := AtaPio.Device.sectors
  write_spec lba count buffer d h0 hcount hfit := by
    obtain ⟨hret,hsectors,-⟩ := AtaPio.ataWrite250gb_spec buffer d h0 hcount hfit
    exact ⟨hret,hsectors⟩
  read_spec lba count buffer d h0 hcount hfit := by
    obtain ⟨hret,hbuffer,-⟩ := AtaPio.ataRead250gb_spec buffer d h0 hcount hfit
    exact ⟨hret,hbuffer⟩

/-- A write that is accepted is read back at once: same answer, same words. -/
def RoundTrips {D : Type} (ata : Ata D) (s : State D) (lba : ℕ) (data buffer : List UInt16) : Prop :=
  ∀ (c : ℕ) (s' : State D), secureWrite ata lba data s = (.ok c,s') →
    (secureRead ata lba buffer s').1 = .ok c ∧ (secureRead ata lba buffer s').2.1 = data

section Faithful
variable {D : Type} (disk : FaithfulDisk D) {s : State D} {lba : ℕ} {data buffer : List UInt16}

theorem readBuffer_written (old : ℕ → ℕ → UInt16) {d : D} (hlen : buffer.length = data.length)
    (hw : Writable lba data.length)
    (hsectors : disk.sectors d = transferred old (pointer data) lba 0 (data.length/256)) :
    readBuffer disk.toAta lba buffer d =
      data.take (data.length/256*256)++buffer.drop (data.length/256*256) := by
  obtain ⟨hcount,hlimit⟩ := hw.addressable
  obtain ⟨hpos,hle,hlba⟩ := hw
  have hread := (disk.read_spec lba (data.length/256) (pointer buffer) d hpos hcount hlimit).2
  rw [readBuffer,hlen,sectorCount_eq hle,hread,hsectors]
  apply List.ext_getElem
  · simp only [List.length_map,List.length_range,List.length_append,List.length_take,List.length_drop]
    omega
  · intro i hi hi'
    simp only [List.length_map,List.length_range] at hi
    rw [List.getElem_map,List.getElem_range]
    by_cases hwhole : i < data.length/256*256
    · rw [AtaPio.fetched_transferred _ _ _ _ _ hwhole,List.getElem_append_left (by simp; omega)]
      simp [pointer,hi]
    · rw [fetched,if_neg (by omega),List.getElem_append_right (by simp; omega)]
      have hmin : min (data.length/256*256) data.length = data.length/256*256 := by omega
      simp [pointer,hmin,hlen,hi,Nat.add_sub_cancel' (not_lt.mp hwhole)]

theorem reread_written (hs : Intact s.manager) (hlen : buffer.length = data.length)
    (hw : Writable lba data.length) :
    ∃ s', secureWrite disk.toAta lba data s = (.ok (checksum data),s') ∧
      (secureRead disk.toAta lba buffer s').1 =
        .ok (checksum (data.take (data.length/256*256)++buffer.drop (data.length/256*256))) ∧
      (secureRead disk.toAta lba buffer s').2.1 =
        data.take (data.length/256*256)++buffer.drop (data.length/256*256) := by
  obtain ⟨hcount,hlimit⟩ := hw.addressable
  have hpos := hw.1
  have hle := hw.2.1
  obtain ⟨hzero,hsectors⟩ := disk.write_spec lba (data.length/256) (pointer data) s.disk hpos hcount hlimit
  rcases secureWrite_cases hs data with ⟨hno,-⟩ | ⟨-,m,hm,heq⟩
  · exact absurd hw hno
  rw [if_pos hzero] at heq
  refine ⟨_,heq,?_⟩
  have hreadable : Readable lba buffer.length := by
    rw [Readable,hlen,sectorCount_eq hle]
    exact ⟨hpos,hw.2.2⟩
  rcases secureRead_cases (s := ⟨m,_,_⟩) hm buffer with ⟨hno,-⟩ | ⟨-,m',-,heq'⟩
  · exact absurd hreadable hno
  rw [heq',readBuffer_written disk _ hlen hw hsectors,hlen,sectorCount_eq hle,
    if_pos (disk.read_spec lba _ _ _ hpos hcount hlimit).1]
  exact ⟨rfl,rfl⟩

theorem roundTrips_of_writable (hs : Intact s.manager) (hlen : buffer.length = data.length)
    (hw : Writable lba data.length) :
    RoundTrips disk.toAta s lba data buffer ↔
      buffer.drop (data.length/256*256) = data.drop (data.length/256*256) := by
  obtain ⟨s',hwrite,hanswer,hwords⟩ := reread_written disk hs hlen hw
  have htail : data.take (data.length/256*256)++buffer.drop (data.length/256*256) = data ↔
      buffer.drop (data.length/256*256) = data.drop (data.length/256*256) := by
    conv_lhs => rhs; rw [← List.take_append_drop (data.length/256*256) data]
    exact List.append_right_inj _
  rw [← htail]
  constructor
  · intro h
    rw [← hwords]
    exact (h _ s' hwrite).2
  · intro hall c s'' hwrite'
    rw [hwrite] at hwrite'
    obtain ⟨rfl,rfl⟩ : checksum data = c ∧ s' = s'' := by simpa using hwrite'
    rw [hanswer,hwords,hall]
    exact ⟨rfl,rfl⟩

end Faithful

/-- In every state the manager can be in, exactly this is read back: data that is refused,
and data whose words after the last whole sector are in the buffer already. -/
theorem round_trips_iff {D : Type} (disk : FaithfulDisk D) (d : D) (ops : List Op) (lba : ℕ)
    (data buffer : List UInt16) :
    (buffer.length = data.length → RoundTrips disk.toAta (after disk.toAta d ops) lba data buffer) ↔
      (buffer.length = data.length → Writable lba data.length →
        buffer.drop (data.length/256*256) = data.drop (data.length/256*256)) := by
  have hs := (sane_after disk.toAta d ops).intact
  constructor
  · intro h hlen hw
    exact (roundTrips_of_writable disk hs hlen hw).mp (h hlen)
  · intro h hlen
    by_cases hw : Writable lba data.length
    · exact (roundTrips_of_writable disk hs hlen hw).mpr (h hlen hw)
    · intro c s' hwrite
      rcases secureWrite_cases hs data with ⟨-,e,heq⟩ | ⟨hw',-⟩
      · rw [heq] at hwrite
        simp at hwrite
      · exact absurd hw' hw

/-- One word more than a sector. -/
def oddData : List UInt16 := List.replicate 256 0++[1]

theorem oddData_length : oddData.length = 257 := by
  rw [oddData,List.length_append,List.length_replicate,List.length_singleton]

/-- The last word is neither written nor read. -/
theorem odd_word_lost :
    ¬ RoundTrips pioDisk.toAta (after pioDisk.toAta AtaPio.newDevice []) 0 oddData
      (List.replicate 257 0) := by
  have hs := (sane_after pioDisk.toAta AtaPio.newDevice []).intact
  have hlen : (List.replicate 257 (0 : UInt16)).length = oddData.length := by
    rw [oddData_length,List.length_replicate]
  have hw : Writable 0 oddData.length := by
    rw [oddData_length]
    unfold Writable
    decide
  have hwhole : oddData.length/256*256 = (List.replicate 256 (0 : UInt16)).length := by
    rw [oddData_length,List.length_replicate]
  rw [roundTrips_of_writable pioDisk hs hlen hw,hwhole,oddData,List.drop_left,List.length_replicate,
    List.drop_replicate]
  decide

end SafeDisk
end ValiantCore
