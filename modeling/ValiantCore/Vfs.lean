import ValiantCore.Bytes
import ValiantCore.SecurityEngine
import ValiantCore.Fat32

/-! The virtual file system `fs/vfs.rs`: inodes, descriptors and the calls on them, over
the transfers of `drivers/ata.c`. The disk is the one the FAT32 driver mounts. A path is
the bytes of its string. -/
namespace ValiantCore
namespace Vfs

open Fat32 (Sector Disk)

def maxOpenFiles : ℕ := 512
def maxInodes : ℕ := 128
def maxFilename : ℕ := 64

def oWronly : ℕ := 0o001
def oRdwr : ℕ := 0o002
def oCreat : ℕ := 0o100
def oExcl : ℕ := 0o200
def oAppend : ℕ := 0o2000

def enoent : ℤ := -2
def eio : ℤ := -5
def ebadf : ℤ := -9
def eacces : ℤ := -13
def eexist : ℤ := -17
def einval : ℤ := -22
def emfile : ℤ := -24

structure Inode where
  id : ℕ
  isActive : Bool
  isDir : Bool
  sizeBytes : ℕ
  startBlock : ℕ
  permissions : ℕ
  uid : ℕ
  name : ℕ → UInt8

def Inode.new : Inode := ⟨0,false,false,0,0,0o644,0,fun _ => 0⟩

structure File where
  inodeIdx : ℕ
  pos : ℕ
  flags : ℕ
  count : ℤ
  uid : ℕ
  active : Bool

def File.new : File := ⟨0,0,0,0,0,false⟩

structure State where
  files : ℕ → File
  inodes : ℕ → Inode
  inodeCount : ℕ
  totalOpens : ℕ
  disk : Disk

def State.new (disk : Disk) : State := ⟨fun _ => File.new,fun _ => Inode.new,0,0,disk⟩

def State.setFile (s : State) (fd : ℕ) (f : File) : State :=
  { s with files := Function.update s.files fd f }

@[simp] theorem setFile_files (s : State) (fd : ℕ) (f : File) :
    (s.setFile fd f).files = Function.update s.files fd f := rfl
@[simp] theorem setFile_inodes (s : State) (fd : ℕ) (f : File) : (s.setFile fd f).inodes = s.inodes := rfl
@[simp] theorem setFile_inodeCount (s : State) (fd : ℕ) (f : File) :
    (s.setFile fd f).inodeCount = s.inodeCount := rfl
@[simp] theorem setFile_disk (s : State) (fd : ℕ) (f : File) : (s.setFile fd f).disk = s.disk := rfl

/-- The sector that an LBA selects: the registers of the drive take 48 bits of it. -/
def sectorNumber (lba : ℕ) : ℕ := lba%2^48

def ataWrite250gb (d : Disk) (lba : ℕ) (data : Sector) : Disk × ℤ :=
  if d.fails d.clock then ({ d with clock := d.clock+1 },-1)
  else
    ({ d with sector := Function.update d.sector (sectorNumber lba) data, clock := d.clock+1 },0)

/-- `ata_read_250gb(lba, 1, buf)`, with what it stores from `buf` on. -/
def ataRead250gb (d : Disk) (lba : ℕ) : Disk × ℤ × Option Sector :=
  if d.fails d.clock then ({ d with clock := d.clock+1 },-1,none)
  else ({ d with clock := d.clock+1 },0,some (d.sector (sectorNumber lba)))

/-- A call of `ata_write_250gb`: its arguments and its result. -/
structure Transfer where
  lba : ℕ
  data : Sector
  result : ℤ

/-- The comparison of `find_file`, over as many bytes as the path has, up to a full name. -/
def nameMatches (name : ℕ → UInt8) (path : List UInt8) : Bool :=
  (List.range (min path.length maxFilename)).all fun j => name j == path.getD j 0

def findFile (s : State) (path : List UInt8) : Option ℕ :=
  Slots.firstSlot s.inodeCount fun i => (s.inodes i).isActive && nameMatches (s.inodes i).name path

/-- The bytes of the path that fit, over what the name array holds. -/
def copyName (path : List UInt8) (name : ℕ → UInt8) : ℕ → UInt8 :=
  fun i => if i < min path.length maxFilename then path.getD i 0 else name i

def createEntry (s : State) (path : List UInt8) (isDir : Bool) : State × ℤ :=
  if s.inodeCount ≥ maxInodes then (s,-1)
  else
    let idx := s.inodeCount
    let inode := { s.inodes idx with
      id := idx, isActive := true, isDir, sizeBytes := 0, startBlock := 100+idx,
      permissions := 0o644, name := copyName path (s.inodes idx).name }
    ({ s with inodes := Function.update s.inodes idx inode, inodeCount := idx+1 },idx)

/-- `/`, `/boot`, `/drivers`, `/system`, `/security`, `/logs` and `/user`. -/
def initialEntries : List (List UInt8) :=
  [[0x2F],
    [0x2F,0x62,0x6F,0x6F,0x74],
    [0x2F,0x64,0x72,0x69,0x76,0x65,0x72,0x73],
    [0x2F,0x73,0x79,0x73,0x74,0x65,0x6D],
    [0x2F,0x73,0x65,0x63,0x75,0x72,0x69,0x74,0x79],
    [0x2F,0x6C,0x6F,0x67,0x73],
    [0x2F,0x75,0x73,0x65,0x72]]

def init (s : State) : State :=
  let s := { s with
    files := fun i => if i < maxOpenFiles then { s.files i with active := false } else s.files i }
  initialEntries.foldl (fun s path => (createEntry s path true).1) s

/-- The second half of `sys_open`: a descriptor for the inode, or `EMFILE`. -/
def openInode (s : State) (idx flags : ℕ) : State × ℤ :=
  match Slots.firstSlot maxOpenFiles (fun fd => 3 ≤ fd && !(s.files fd).active) with
  | none => (s,emfile)
  | some fd =>
    ({ s.setFile fd
        { inodeIdx := idx, pos := if flags &&& oAppend ≠ 0 then (s.inodes idx).sizeBytes else 0,
          flags, count := 1, uid := 0, active := true } with
      totalOpens := u64 (s.totalOpens+1) },fd)

def sysOpen (s : State) (path : List UInt8) (flags : ℕ) : State × ℤ :=
  match findFile s path with
  | some idx => if flags &&& oExcl ≠ 0 then (s,eexist) else openInode s idx flags
  | none =>
    if flags &&& oCreat ≠ 0 then
      let r := createEntry s path false
      if r.2 < 0 then (r.1,eio) else openInode r.1 r.2.toNat flags
    else (s,enoent)

/-- A number that is no open descriptor, as every call on descriptors tests it. -/
def badFd (s : State) (fd : ℕ) : Bool := fd ≥ maxOpenFiles || !(s.files fd).active

def sysClose (s : State) (fd : ℕ) : State × ℤ :=
  if badFd s fd then (s,ebadf) else (s.setFile fd { s.files fd with active := false, count := 0 },0)

/-- The LBA of the block at the position of a descriptor. -/
def blockLba (s : State) (fd : ℕ) : ℕ :=
  (s.inodes (s.files fd).inodeIdx).startBlock+(s.files fd).pos/512

def advance (s : State) (fd : ℕ) : State :=
  s.setFile fd { s.files fd with pos := u64 ((s.files fd).pos+512) }

/-- `sys_read`, with what it stores in the caller's buffer. Its `count` is never used. -/
def sysRead (s : State) (fd : ℕ) : State × ℤ × Option Sector :=
  if badFd s fd then (s,ebadf,none)
  else if (s.files fd).pos ≥ (s.inodes (s.files fd).inodeIdx).sizeBytes then (s,0,none)
  else
    let r := ataRead250gb s.disk (blockLba s fd)
    let s := { s with disk := r.1 }
    if r.2.1 = 0 then (advance s fd,512,r.2.2) else (s,eio,r.2.2)

def sectorAt (byte : ℕ → UInt8) (buf : ℕ) : Sector := ⟨fun i => byte (buf+i)⟩

def readOnly (s : State) (fd : ℕ) : Bool :=
  (s.files fd).flags &&& oWronly = 0 && (s.files fd).flags &&& oRdwr = 0

/-- `sys_write`, with its call of `ata_write_250gb`. -/
def sysWrite (s : State) (fd : ℕ) (byte : ℕ → UInt8) (buf count : ℕ) : State × ℤ × List Transfer :=
  if badFd s fd then (s,ebadf,[])
  else if readOnly s fd then (s,eacces,[])
  else if Security.securityScanBuffer byte buf count ≠ 0 then (s,eacces,[])
  else
    let lba := blockLba s fd
    let r := ataWrite250gb s.disk lba (sectorAt byte buf)
    let s := { s with disk := r.1 }
    if r.2 = 0 then (advance s fd,512,[⟨lba,sectorAt byte buf,r.2⟩])
    else (s,eio,[⟨lba,sectorAt byte buf,r.2⟩])

def sysLseek (s : State) (fd : ℕ) (offset whence : ℤ) : State × ℤ :=
  let seek (pos : ℕ) : State × ℤ := (s.setFile fd { s.files fd with pos },i64 pos)
  if badFd s fd then (s,ebadf)
  else if whence = 0 then seek (u64 offset)
  else if whence = 1 then seek (u64 (i64 (s.files fd).pos+offset))
  else (s,einval)

def sysMkdir (s : State) (path : List UInt8) : State × ℤ :=
  if (findFile s path).isSome then (s,eexist) else createEntry s path true

/-- The loop of `sys_sync` over the first `n` inodes. What lies in memory from the `i`-th
inode on is `image i`: the record is shorter than a sector, and padded. -/
def syncInodes (s : State) (image : ℕ → Sector) : ℕ → State × List Transfer
  | 0 => (s,[])
  | n+1 =>
    let r := syncInodes s image n
    if (r.1.inodes n).isActive then
      let w := ataWrite250gb r.1.disk (20+n) (image n)
      ({ r.1 with disk := w.1 },r.2++[⟨20+n,image n,w.2⟩])
    else r

def sysSync (s : State) (image : ℕ → Sector) : State × List Transfer := syncInodes s image s.inodeCount

inductive Op
  | sysOpen (path : List UInt8) (flags : ℕ)
  | sysClose (fd : ℕ)
  | sysRead (fd : ℕ)
  | sysWrite (fd : ℕ) (byte : ℕ → UInt8) (buf count : ℕ)
  | sysLseek (fd : ℕ) (offset whence : ℤ)
  | sysMkdir (path : List UInt8)
  | sysSync (image : ℕ → Sector)

/-- What a call returns, what it stores in the caller's buffer, and the transfers to the
disk it asks for. -/
structure Out where
  ret : ℤ
  stored : Option Sector
  sent : List Transfer

def step (s : State) : Op → State × Out
  | .sysOpen path flags => let r := sysOpen s path flags; (r.1,⟨r.2,none,[]⟩)
  | .sysClose fd => let r := sysClose s fd; (r.1,⟨r.2,none,[]⟩)
  | .sysRead fd => let r := sysRead s fd; (r.1,⟨r.2.1,r.2.2,[]⟩)
  | .sysWrite fd byte buf count => let r := sysWrite s fd byte buf count; (r.1,⟨r.2.1,none,r.2.2⟩)
  | .sysLseek fd offset whence => let r := sysLseek s fd offset whence; (r.1,⟨r.2,none,[]⟩)
  | .sysMkdir path => let r := sysMkdir s path; (r.1,⟨r.2,none,[]⟩)
  | .sysSync image => let r := sysSync s image; (r.1,⟨0,none,r.2⟩)

def after (disk : Disk) (ops : List Op) : State := Runs.exec step (init (State.new disk)) ops

end Vfs
end ValiantCore
