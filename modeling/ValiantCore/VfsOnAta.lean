import ValiantCore.Vfs
import ValiantCore.AtaPio
import ValiantCore.Runs

/-! The calls of `fs/vfs.rs` over any driver of sectors, and over the one of `drivers/ata.c`
with its device: no run can tell the device from the disk of sectors that the other results
about these calls speak of. -/
namespace ValiantCore
namespace VfsOnAta

open Vfs
open Fat32 (Sector Disk)

/-- Transfers of one sector: the results, and what a read stores in the buffer. -/
structure Driver (D : Type) where
  write : D → ℕ → Sector → D × ℤ
  read : D → ℕ → D × ℤ × Option Sector

section Calls
variable {D : Type} (ata : Driver D)

def sysRead (s : State) (d : D) (fd : ℕ) : (State × D) × ℤ × Option Sector :=
  if badFd s fd then ((s,d),ebadf,none)
  else if (s.files fd).pos ≥ (s.inodes (s.files fd).inodeIdx).sizeBytes then ((s,d),0,none)
  else
    let r := ata.read d (blockLba s fd)
    if r.2.1 = 0 then ((advance s fd,r.1),512,r.2.2) else ((s,r.1),eio,r.2.2)

def sysWrite (s : State) (d : D) (fd : ℕ) (byte : ℕ → UInt8) (buf count : ℕ) :
    (State × D) × ℤ × List Transfer :=
  if badFd s fd then ((s,d),ebadf,[])
  else if readOnly s fd then ((s,d),eacces,[])
  else if Security.securityScanBuffer byte buf count ≠ 0 then ((s,d),eacces,[])
  else
    let lba := blockLba s fd
    let r := ata.write d lba (sectorAt byte buf)
    if r.2 = 0 then ((advance s fd,r.1),512,[⟨lba,sectorAt byte buf,r.2⟩])
    else ((s,r.1),eio,[⟨lba,sectorAt byte buf,r.2⟩])

/-- The loop of `sys_sync` over the first `n` inodes. -/
def syncInodes (s : State) (image : ℕ → Sector) (d : D) : ℕ → D × List Transfer
  | 0 => (d,[])
  | n+1 =>
    let r := syncInodes s image d n
    if (s.inodes n).isActive then
      let w := ata.write r.1 (20+n) (image n)
      (w.1,r.2++[⟨20+n,image n,w.2⟩])
    else r

/-- A call; the other calls ask for no sector. The disk in `State` is not used here. -/
def step (m : State × D) : Op → (State × D) × Out
  | .sysRead fd => let r := sysRead ata m.1 m.2 fd; (r.1,⟨r.2.1,r.2.2,[]⟩)
  | .sysWrite fd byte buf count =>
    let r := sysWrite ata m.1 m.2 fd byte buf count; (r.1,⟨r.2.1,none,r.2.2⟩)
  | .sysSync image =>
    let r := syncInodes ata m.1 image m.2 m.1.inodeCount; ((m.1,r.1),⟨0,none,r.2⟩)
  | op => let r := Vfs.step m.1 op; ((r.1,m.2),r.2)

end Calls

/-- From related disks both drivers give the same results, and related disks. -/
structure Alike {D E : Type} (ata : Driver D) (ata' : Driver E) (R : D → E → Prop) : Prop where
  write : ∀ d e lba data, R d e → (ata.write d lba data).2 = (ata'.write e lba data).2 ∧
    R (ata.write d lba data).1 (ata'.write e lba data).1
  read : ∀ d e lba, R d e → (ata.read d lba).2 = (ata'.read e lba).2 ∧
    R (ata.read d lba).1 (ata'.read e lba).1

section Simulation
variable {D E : Type} {ata : Driver D} {ata' : Driver E} {R : D → E → Prop} (h : Alike ata ata' R)
include h

theorem syncInodes_alike (s : State) (image : ℕ → Sector) {d : D} {e : E} (hde : R d e) (n : ℕ) :
    (syncInodes ata s image d n).2 = (syncInodes ata' s image e n).2 ∧
      R (syncInodes ata s image d n).1 (syncInodes ata' s image e n).1 := by
  induction n with
  | zero => exact ⟨rfl,hde⟩
  | succ n ih =>
    rw [syncInodes,syncInodes]
    split
    · obtain ⟨hret,hnext⟩ := h.write _ _ (20+n) (image n) ih.2
      dsimp only
      rw [ih.1,hret]
      exact ⟨rfl,hnext⟩
    · exact ih

/-- The same tables, and related disks. -/
def Tables (R : D → E → Prop) (m : State × D) (m' : State × E) : Prop := m.1 = m'.1 ∧ R m.2 m'.2

theorem step_alike (m : State × D) (m' : State × E) (op : Op) (hm : Tables R m m') :
    (step ata m op).2 = (step ata' m' op).2 ∧ Tables R (step ata m op).1 (step ata' m' op).1 := by
  obtain ⟨s,d⟩ := m
  obtain ⟨s',e⟩ := m'
  obtain ⟨rfl,hde⟩ := hm
  cases op with
  | sysRead fd =>
    obtain ⟨hret,hnext⟩ := h.read d e (blockLba s fd) hde
    simp only [step,sysRead]
    rw [hret]
    split_ifs
    · exact ⟨rfl,rfl,hde⟩
    · exact ⟨rfl,rfl,hde⟩
    · exact ⟨rfl,rfl,hnext⟩
    · exact ⟨rfl,rfl,hnext⟩
  | sysWrite fd byte buf count =>
    obtain ⟨hret,hnext⟩ := h.write d e (blockLba s fd) (sectorAt byte buf) hde
    simp only [step,sysWrite]
    rw [hret]
    split_ifs
    · exact ⟨rfl,rfl,hde⟩
    · exact ⟨rfl,rfl,hde⟩
    · exact ⟨rfl,rfl,hde⟩
    · exact ⟨rfl,rfl,hnext⟩
    · exact ⟨rfl,rfl,hnext⟩
  | sysSync image =>
    obtain ⟨hsent,hnext⟩ := syncInodes_alike h s image hde s.inodeCount
    simp only [step]
    rw [hsent]
    exact ⟨rfl,rfl,hnext⟩
  | sysOpen path flags => exact ⟨rfl,rfl,hde⟩
  | sysClose fd => exact ⟨rfl,rfl,hde⟩
  | sysLseek fd offset whence => exact ⟨rfl,rfl,hde⟩
  | sysMkdir path => exact ⟨rfl,rfl,hde⟩

end Simulation

def diskDriver : Driver Disk := ⟨Vfs.ataWrite250gb,Vfs.ataRead250gb⟩

/-- A state over a disk, with the disk beside it. -/
def Beside (s : State) (m : State × Disk) : Prop := s = { m.1 with disk := m.2 }

section Disk
variable (t : State) (x : Disk)

theorem createEntry_disk (path : List UInt8) (isDir : Bool) :
    createEntry { t with disk := x } path isDir =
      ({ (createEntry t path isDir).1 with disk := x },(createEntry t path isDir).2) := by
  unfold createEntry
  split_ifs
  · rfl
  · rfl

theorem openInode_disk (idx flags : ℕ) :
    openInode { t with disk := x } idx flags =
      ({ (openInode t idx flags).1 with disk := x },(openInode t idx flags).2) := by
  cases h : Slots.firstSlot maxOpenFiles (fun fd => 3 ≤ fd && !(t.files fd).active) with
  | none =>
    have hsame : openInode t idx flags = (t,emfile) := by unfold openInode; rw [h]
    have hdisk : openInode { t with disk := x } idx flags = ({ t with disk := x },emfile) := by
      unfold openInode
      dsimp only
      rw [h]
    rw [hsame,hdisk]
  | some fd =>
    have hopens : ∀ s : State, Slots.firstSlot maxOpenFiles (fun fd => 3 ≤ fd && !(s.files fd).active) = some fd →
        openInode s idx flags =
          ({ s.setFile fd
              { inodeIdx := idx, pos := if flags &&& oAppend ≠ 0 then (s.inodes idx).sizeBytes else 0,
                flags, count := 1, uid := 0, active := true } with
            totalOpens := u64 (s.totalOpens+1) },(fd : ℤ)) := fun s hs => by unfold openInode; rw [hs]
    rw [hopens t h,hopens { t with disk := x } h]
    rfl

theorem sysOpen_disk (path : List UInt8) (flags : ℕ) :
    sysOpen { t with disk := x } path flags =
      ({ (sysOpen t path flags).1 with disk := x },(sysOpen t path flags).2) := by
  have hfind : findFile { t with disk := x } path = findFile t path := rfl
  unfold sysOpen
  rw [hfind,createEntry_disk]
  cases findFile t path with
  | some idx =>
    dsimp only
    split_ifs
    · rfl
    · exact openInode_disk t x idx flags
  | none =>
    dsimp only
    split_ifs
    · rfl
    · exact openInode_disk _ x _ flags
    · rfl

theorem sysLseek_disk (fd : ℕ) (offset whence : ℤ) :
    sysLseek { t with disk := x } fd offset whence =
      ({ (sysLseek t fd offset whence).1 with disk := x },(sysLseek t fd offset whence).2) := by
  have hbad : badFd { t with disk := x } fd = badFd t fd := rfl
  simp only [sysLseek,hbad,State.setFile]
  split_ifs
  all_goals dsimp only

theorem advance_disk (fd : ℕ) : advance { t with disk := x } fd = { advance t fd with disk := x } := by
  simp only [advance,State.setFile]

theorem sysRead_disk (fd : ℕ) :
    Vfs.sysRead { t with disk := x } fd =
      ({ (sysRead diskDriver t x fd).1.1 with disk := (sysRead diskDriver t x fd).1.2 },
        (sysRead diskDriver t x fd).2) := by
  have hbad : badFd { t with disk := x } fd = badFd t fd := rfl
  have hlba : blockLba { t with disk := x } fd = blockLba t fd := rfl
  simp only [Vfs.sysRead,sysRead,diskDriver,hbad,hlba]
  by_cases hopen : badFd t fd = true
  · simp only [if_pos hopen]
  by_cases hend : (t.files fd).pos ≥ (t.inodes (t.files fd).inodeIdx).sizeBytes
  · simp only [if_neg hopen,if_pos hend]
  by_cases hret : (ataRead250gb x (blockLba t fd)).2.1 = 0
  · simp only [if_neg hopen,if_neg hend,hret,if_true,advance_disk]
  · simp only [if_neg hopen,if_neg hend,hret,if_false]

theorem sysWrite_disk (fd : ℕ) (byte : ℕ → UInt8) (buf count : ℕ) :
    Vfs.sysWrite { t with disk := x } fd byte buf count =
      ({ (sysWrite diskDriver t x fd byte buf count).1.1 with
          disk := (sysWrite diskDriver t x fd byte buf count).1.2 },
        (sysWrite diskDriver t x fd byte buf count).2) := by
  have hbad : badFd { t with disk := x } fd = badFd t fd := rfl
  have hreadOnly : readOnly { t with disk := x } fd = readOnly t fd := rfl
  have hlba : blockLba { t with disk := x } fd = blockLba t fd := rfl
  simp only [Vfs.sysWrite,sysWrite,diskDriver,hbad,hreadOnly,hlba]
  by_cases hopen : badFd t fd = true
  · simp only [if_pos hopen]
  by_cases hmode : readOnly t fd = true
  · simp only [if_neg hopen,if_pos hmode]
  by_cases hscan : Security.securityScanBuffer byte buf count ≠ 0
  · simp only [if_neg hopen,if_neg hmode,if_pos hscan]
  by_cases hret : (ataWrite250gb x (blockLba t fd) (sectorAt byte buf)).2 = 0
  · simp only [if_neg hopen,if_neg hmode,if_neg hscan,hret,if_true,advance_disk]
  · simp only [if_neg hopen,if_neg hmode,if_neg hscan,hret,if_false]

theorem syncInodes_disk (image : ℕ → Sector) (n : ℕ) :
    Vfs.syncInodes { t with disk := x } image n =
      ({ t with disk := (syncInodes diskDriver t image x n).1 },(syncInodes diskDriver t image x n).2) := by
  induction n with
  | zero => rfl
  | succ n ih =>
    rw [Vfs.syncInodes,syncInodes,ih]
    dsimp only
    split_ifs
    · rfl
    · rfl

theorem step_beside (s : State) (m : State × Disk) (op : Op) (h : Beside s m) :
    (Vfs.step s op).2 = (step diskDriver m op).2 ∧
      Beside (Vfs.step s op).1 (step diskDriver m op).1 := by
  obtain ⟨t,x⟩ := m
  obtain rfl : s = { t with disk := x } := h
  cases op with
  | sysOpen path flags =>
    simp only [Vfs.step,step,sysOpen_disk]
    exact ⟨trivial,rfl⟩
  | sysClose fd =>
    simp only [Vfs.step,step,sysClose,Beside]
    have hbad : badFd { t with disk := x } fd = badFd t fd := rfl
    rw [hbad]
    split_ifs
    · exact ⟨rfl,rfl⟩
    · exact ⟨rfl,rfl⟩
  | sysRead fd =>
    simp only [Vfs.step,step,sysRead_disk]
    exact ⟨trivial,rfl⟩
  | sysWrite fd byte buf count =>
    simp only [Vfs.step,step,sysWrite_disk]
    exact ⟨trivial,rfl⟩
  | sysLseek fd offset whence =>
    simp only [Vfs.step,step,sysLseek_disk]
    exact ⟨trivial,rfl⟩
  | sysMkdir path =>
    have hfind : findFile { t with disk := x } path = findFile t path := rfl
    simp only [Vfs.step,step,sysMkdir,hfind,createEntry_disk,Beside]
    split_ifs
    · exact ⟨rfl,rfl⟩
    · exact ⟨rfl,rfl⟩
  | sysSync image =>
    simp only [Vfs.step,step,Vfs.sysSync,syncInodes_disk]
    exact ⟨trivial,rfl⟩

end Disk

/-- The sector as the processor reads it from memory, two bytes at a time. -/
def wordsOf (data : Sector) (k : ℕ) : UInt16 :=
  UInt16.ofNat ((data.byte (2*k)).toNat+256*(data.byte (2*k+1)).toNat)

def bytesOf (words : ℕ → UInt16) : Sector := ⟨fun i => UInt8.ofNat ((words (i/2)).toNat/256^(i.val%2))⟩

theorem bytesOf_congr {words words' : ℕ → UInt16} (h : ∀ k < 256, words k = words' k) :
    bytesOf words = bytesOf words' := by
  have hget : ∀ i : Fin 512, (bytesOf words).get i = (bytesOf words').get i := by
    intro i
    simp only [bytesOf]
    rw [h (i/2) (by omega)]
  exact congrArg Sector.mk (funext hget)

theorem bytesOf_wordsOf (data : Sector) : bytesOf (wordsOf data) = data := by
  have hget : ∀ i : Fin 512, (bytesOf (wordsOf data)).get i = data.get i := by
    intro i
    have hlow := (data.byte (2*(i.val/2))).toNat_lt
    have hhigh := (data.byte (2*(i.val/2)+1)).toNat_lt
    have hself : data.byte i = data.get i := dif_pos i.isLt
    apply UInt8.toNat_inj.mp
    rw [← hself]
    simp only [bytesOf,wordsOf,UInt8.toNat_ofNat',UInt16.toNat_ofNat']
    rcases Nat.mod_two_eq_zero_or_one i.val with h | h
    · have hi : 2*(i.val/2) = i.val := by omega
      rw [hi] at hlow hhigh ⊢
      rw [h,Nat.pow_zero,Nat.div_one]
      omega
    · have hi : 2*(i.val/2)+1 = i.val := by omega
      rw [hi] at hhigh ⊢
      rw [h,Nat.pow_one]
      omega
  exact congrArg Sector.mk (funext hget)

/-- `drivers/ata.c` with a device, for calls of one sector; `buf` is what the buffer of a read
holds before. -/
def pioDriver (buf : ℕ → UInt16) : Driver AtaPio.Device where
  write d lba data := ((AtaPio.ataWrite250gb lba 1 (wordsOf data) d).2,(AtaPio.ataWrite250gb lba 1 (wordsOf data) d).1)
  read d lba :=
    let r := AtaPio.ataRead250gb lba 1 buf d
    (r.2.2,r.1,if r.1 = 0 then some (bytesOf r.2.1) else none)

theorem addressed_mod (d : AtaPio.Device) (lba count : ℕ) :
    AtaPio.addressed d lba count = AtaPio.addressed d (sectorNumber lba) count := by
  have hbyte : ∀ k, k+8 ≤ 48 → UInt8.ofNat (lba/2^k) = UInt8.ofNat (sectorNumber lba/2^k) := by
    intro k hk
    have hsplit : (2 : ℕ)^48 = 2^k*2^(48-k) := by rw [← Nat.pow_add,Nat.add_sub_of_le (by omega)]
    have height : (2 : ℕ)^8 ∣ 2^(48-k) := Nat.pow_dvd_pow 2 (by omega)
    apply UInt8.toNat_inj.mp
    rw [UInt8.toNat_ofNat',UInt8.toNat_ofNat',sectorNumber,hsplit,Nat.mod_mul_right_div_self,
      Nat.mod_mod_of_dvd _ height]
  have hzero := hbyte 0 (by decide)
  rw [Nat.pow_zero,Nat.div_one,Nat.div_one] at hzero
  simp only [AtaPio.addressed,hzero,hbyte 8 (by decide),hbyte 16 (by decide),hbyte 24 (by decide),
    hbyte 32 (by decide),hbyte 40 (by decide)]

/-- A disk that never fails, with the sectors of the device. -/
structure Shows (disk : Disk) (d : AtaPio.Device) : Prop where
  works : ∀ n, disk.fails n = false
  sector : ∀ lba, disk.sector lba = bytesOf (d.sectors lba)

theorem pio_alike (buf : ℕ → UInt16) : Alike diskDriver (pioDriver buf) Shows where
  write disk d lba data h := by
    have hlba : sectorNumber lba+1 ≤ 2^48 := Nat.mod_lt lba (by decide)
    have hmod : AtaPio.ataWrite250gb lba 1 (wordsOf data) d =
        AtaPio.ataWrite250gb (sectorNumber lba) 1 (wordsOf data) d := by
      rw [AtaPio.ataWrite250gb_eq,AtaPio.ataWrite250gb_eq,addressed_mod]
    obtain ⟨hret,hsectors,-⟩ := AtaPio.ataWrite250gb_spec (wordsOf data) d Nat.one_pos (by decide) hlba
    have hdisk : Vfs.ataWrite250gb disk lba data =
        ({ disk with sector := Function.update disk.sector (sectorNumber lba) data, clock := disk.clock+1 },0) :=
      if_neg (by rw [h.works]; exact Bool.false_ne_true)
    simp only [diskDriver,pioDriver,hdisk,hmod,hret]
    refine ⟨trivial,h.works,fun a => ?_⟩
    show Function.update disk.sector (sectorNumber lba) data a = _
    rw [Function.update_apply]
    by_cases ha : a = sectorNumber lba
    · rw [if_pos ha]
      refine (bytesOf_wordsOf data).symm.trans (bytesOf_congr fun k hk => ?_)
      have hword : (a-sectorNumber lba)*256+k = k := by rw [ha]; omega
      rw [hsectors,AtaPio.transferred,if_pos (by omega),hword]
    · rw [if_neg ha,h.sector a]
      apply bytesOf_congr
      intro k hk
      rw [hsectors,AtaPio.transferred,if_neg (by omega)]
  read disk d lba h := by
    have hlba : sectorNumber lba+1 ≤ 2^48 := Nat.mod_lt lba (by decide)
    have hmod : AtaPio.ataRead250gb lba 1 buf d = AtaPio.ataRead250gb (sectorNumber lba) 1 buf d := by
      rw [AtaPio.ataRead250gb_eq,AtaPio.ataRead250gb_eq,addressed_mod]
    obtain ⟨hret,hbuffer,hsectors,-⟩ := AtaPio.ataRead250gb_spec buf d Nat.one_pos (by decide) hlba
    have hdisk : Vfs.ataRead250gb disk lba =
        ({ disk with clock := disk.clock+1 },0,some (disk.sector (sectorNumber lba))) :=
      if_neg (by rw [h.works]; exact Bool.false_ne_true)
    simp only [diskDriver,pioDriver,hdisk,hmod,hret,hbuffer,if_true]
    refine ⟨?_,h.works,fun a => ?_⟩
    · have hsector : disk.sector (sectorNumber lba) =
          bytesOf (AtaPio.fetched buf d.sectors (sectorNumber lba) 0 1) := by
        rw [h.sector]
        apply bytesOf_congr
        intro k hk
        have hdiv : k/256 = 0 := by omega
        rw [AtaPio.fetched,if_pos (by omega),hdiv,Nat.add_zero,Nat.mod_eq_of_lt hk]
      rw [hsector]
    · rw [hsectors]
      exact h.sector a

/-- However the calls of the VFS follow each other: over `drivers/ata.c` and its device they
return what they return over the disk of sectors and ask for the same transfers; the tables
are the same in the end, and so is every sector. -/
theorem run_on_ata (buf : ℕ → UInt16) (disk : Disk) (d : AtaPio.Device) (h : Shows disk d) (ops : List Op) :
    (Runs.trace (step (pioDriver buf)) (init (State.new disk),d) ops).map Runs.Event.out =
        (Runs.trace Vfs.step (init (State.new disk)) ops).map Runs.Event.out ∧
      after disk ops = { (Runs.exec (step (pioDriver buf)) (init (State.new disk),d) ops).1 with
        disk := (after disk ops).disk } ∧
      Shows (after disk ops).disk (Runs.exec (step (pioDriver buf)) (init (State.new disk),d) ops).2 := by
  have hstart : Beside (init (State.new disk)) (init (State.new disk),disk) := rfl
  have hvfs := Runs.trace_simulates Vfs.step (R := Beside) step_beside hstart ops
  have hata := Runs.trace_simulates (step diskDriver) (R := Tables Shows) (step_alike (pio_alike buf))
    (show Tables Shows (init (State.new disk),disk) (init (State.new disk),d) from ⟨rfl,h⟩) ops
  obtain ⟨houts,hbeside⟩ := hvfs
  obtain ⟨houts',htables,hshows⟩ := hata
  have hafter : after disk ops = _ := hbeside
  have hdisk : (after disk ops).disk =
      (Runs.exec (step diskDriver) (init (State.new disk),disk) ops).2 := congrArg State.disk hafter
  refine ⟨houts'.symm.trans houts.symm,?_,?_⟩
  · rw [hdisk,← htables]
    exact hafter
  · rw [hdisk]
    exact hshows

def newDisk : Disk := ⟨fun _ => bytesOf fun _ => 0,fun _ => false,0⟩

theorem run_on_ata_open :
    (Runs.trace (step (pioDriver fun _ => 0)) (init (State.new newDisk),AtaPio.newDevice)
        [.sysOpen [0x2F,0x61] oCreat,.sysSync fun _ => bytesOf fun _ => 7]).map Runs.Event.out =
      (Runs.trace Vfs.step (init (State.new newDisk))
        [.sysOpen [0x2F,0x61] oCreat,.sysSync fun _ => bytesOf fun _ => 7]).map Runs.Event.out :=
  (run_on_ata (fun _ => 0) newDisk AtaPio.newDevice ⟨fun _ => rfl,fun _ => rfl⟩
    [.sysOpen [0x2F,0x61] oCreat,.sysSync fun _ => bytesOf fun _ => 7]).1

end VfsOnAta
end ValiantCore
