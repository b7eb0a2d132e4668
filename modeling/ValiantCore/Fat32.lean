import ValiantCore.Bytes
import ValiantCore.Slots
import ValiantCore.Runs
import Mathlib.Tactic.SplitIfs

/-! The FAT32 driver `fs/fat32/fat32.c` over a disk of sectors. Every transfer goes
through one scratch sector, and any transfer may fail. -/
namespace ValiantCore
namespace Fat32

open Bytes

def eoc : ℕ := 0x0FFFFFFF
def bad : ℕ := 0x0FFFFFF7
def bootSig : ℕ := 0x29
def attrLfn : ℕ := 0x0F
def maxFiles : ℕ := 512
def sectorSz : ℕ := 512
def nameLen : ℕ := 64

structure Sector where
  get : Fin 512 → UInt8

def Sector.byte (sec : Sector) (i : ℕ) : UInt8 := if h : i < 512 then sec.get ⟨i,h⟩ else 0

/-- The sectors of the disk, and which of the transfers to come fail: the `n`-th one
times out when `fails n` holds. -/
structure Disk where
  sector : ℕ → Sector
  fails : ℕ → Bool
  clock : ℕ

/-- The fields of the boot sector that the driver uses. -/
structure Bpb where
  secPerClus : ℕ
  rsvdSecCnt : ℕ
  numFats : ℕ
  totSec32 : ℕ
  fatSz32 : ℕ
  rootClus : ℕ
  bootSig : ℕ

structure DirEntry where
  name : List UInt8
  ext : List UInt8
  attr : ℕ
  fstClusHi : ℕ
  fstClusLo : ℕ
  fileSize : ℕ

structure File where
  firstCluster : ℕ
  curCluster : ℕ
  fileSize : ℕ
  pos : ℕ
  isDir : Bool
  active : Bool

/-- The `fat32` variable, the scratch sector and the disk. -/
structure State where
  bpb : Bpb
  fatStart : ℕ
  dataStart : ℕ
  rootCluster : ℕ
  secPerClus : ℕ
  initialized : Bool
  files : ℕ → File
  sectorBuf : Sector
  disk : Disk

/-- How a call ends: it returns, divides by zero, or is still following clusters when
the fuel it was given is used up. -/
inductive Outcome
  | returned (r : ℤ)
  | divideError
  | running
  deriving DecidableEq, Repr

def State.setFile (s : State) (fd : ℕ) (f : File) : State :=
  { s with files := Function.update s.files fd f }

def clusterToLba (s : State) (cluster : ℕ) : ℕ :=
  if cluster < 2 then 0 else s.dataStart+(cluster-2)*s.secPerClus

/-- `fat32_read_sector` into `fat32_sector_buf`, over `ata_read_250gb`: a transfer that
times out leaves the buffer as it was. -/
def readSector (s : State) (lba : ℕ) : State × ℤ :=
  if s.disk.fails s.disk.clock then ({ s with disk.clock := s.disk.clock+1 },-1)
  else ({ s with sectorBuf := s.disk.sector lba, disk.clock := s.disk.clock+1 },0)

def readFatEntry (s : State) (cluster : ℕ) : State × ℕ :=
  let fatOffset := cluster*4
  let r := readSector s (s.fatStart+fatOffset/sectorSz)
  if r.2 ≠ 0 then (r.1,bad)
  else (r.1,field r.1.sectorBuf.byte (fatOffset%sectorSz) 4 &&& 0x0FFFFFFF)

def readBpb (sec : Sector) : Bpb where
  secPerClus := field sec.byte 13 1
  rsvdSecCnt := field sec.byte 14 2
  numFats := field sec.byte 16 1
  totSec32 := field sec.byte 32 4
  fatSz32 := field sec.byte 36 4
  rootClus := field sec.byte 44 4
  bootSig := field sec.byte 66 1

/-- `fat32_init`: its result and what it prints. -/
def init (s : State) : State × ℤ × String :=
  let r := readSector s 0
  if r.2 ≠ 0 then (r.1,-1,"[FAT32] Boot sector read failed\n")
  else
    let bpb := readBpb r.1.sectorBuf
    let s := { r.1 with bpb }
    if bpb.bootSig ≠ bootSig then (s,-1,"[FAT32] Invalid boot signature\n")
    else if bpb.fatSz32 = 0 then (s,-1,"[FAT32] Not a FAT32 filesystem\n")
    else
      ({ s with
        secPerClus := bpb.secPerClus
        fatStart := bpb.rsvdSecCnt
        rootCluster := bpb.rootClus
        dataStart := bpb.rsvdSecCnt+bpb.numFats*bpb.fatSz32
        files := fun i => if i < maxFiles then { s.files i with active := false } else s.files i
        initialized := true },0,"[FAT32] Initialized successfully\n")

/-- A mounted volume: its boot sector passed the checks, the layout is the one the boot
sector gives, and no descriptor is open. -/
structure Mounted (s : State) : Prop where
  initialized : s.initialized = true
  signature : s.bpb.bootSig = bootSig
  fatSz32_pos : 0 < s.bpb.fatSz32
  secPerClus : s.secPerClus = s.bpb.secPerClus
  fatStart : s.fatStart = s.bpb.rsvdSecCnt
  rootCluster : s.rootCluster = s.bpb.rootClus
  dataStart : s.dataStart = s.fatStart+s.bpb.numFats*s.bpb.fatSz32
  closed : ∀ i < maxFiles, (s.files i).active = false

theorem mounted_of_init {s : State} (h : (init s).2.1 = 0) : Mounted (init s).1 := by
  by_cases hread : (readSector s 0).2 = 0
  · by_cases hsig : (readBpb (readSector s 0).1.sectorBuf).bootSig = bootSig
    · by_cases hfat : (readBpb (readSector s 0).1.sectorBuf).fatSz32 = 0
      · simp [init,hread,hsig,hfat] at h
      · simp only [init,hread,hsig,hfat,ne_eq,not_true_eq_false,if_false]
        exact ⟨rfl,hsig,Nat.pos_of_ne_zero hfat,rfl,rfl,rfl,rfl,fun i hi => by simp [hi]⟩
    · simp [init,hread,hsig] at h
  · simp [init,hread] at h

def readDirEntry (sec : Sector) (i : ℕ) : DirEntry where
  name := bytesAt sec.byte (32*i) 8
  ext := bytesAt sec.byte (32*i+8) 3
  attr := field sec.byte (32*i+11) 1
  fstClusHi := field sec.byte (32*i+20) 2
  fstClusLo := field sec.byte (32*i+26) 2
  fileSize := field sec.byte (32*i+28) 4

/-- `fat32_8dot3_to_name`, up to the final NUL. The output has 64 places at every call,
so the bounds on it never cut a name short. -/
def name8dot3 (name83 ext : List UInt8) : List UInt8 :=
  let stem := (name83.take 8).takeWhile (· ≠ 0x20)
  if ext.head? ≠ some 0x20 then stem++0x2E::(ext.take 3).takeWhile (· ≠ 0x20) else stem

/-- `path[j] != name_buf[j]` compares a `char`, which is signed, with an unsigned byte. -/
def signedChar (c : UInt8) : ℤ := (c.toNat : ℤ).bmod 256

/-- The comparison of `fat32_open`, for the `n` places that are left; both strings end
with a NUL that the lists leave out. -/
def pathMatches : ℕ → List UInt8 → List UInt8 → Bool
  | 0, _, _ => true
  | _+1, [], name => name.headD 0 = 0
  | n+1, c::path, name =>
    signedChar c = (name.headD 0).toNat && (c = 0 || pathMatches n path name.tail)

/-- What a stretch of the directory says about a path. -/
inductive Scan
  | next
  | found (e : DirEntry)
  | notFound
  | failed
  | running

def scanEntries (path : List UInt8) : List DirEntry → Scan
  | [] => .next
  | e::es =>
    if e.name.headD 0 = 0x00 then .notFound
    else if e.name.headD 0 = 0xE5 then scanEntries path es
    else if e.attr = attrLfn then scanEntries path es
    else if pathMatches nameLen path (name8dot3 e.name e.ext) then .found e
    else scanEntries path es

def entries (sec : Sector) : List DirEntry := (List.range (sectorSz/32)).map (readDirEntry sec)

/-- The `n` sectors of a cluster that are left, from `lba` on. -/
def scanSectors (path : List UInt8) : ℕ → State → ℕ → State × Scan
  | 0, s, _ => (s,.next)
  | n+1, s, lba =>
    let r := readSector s lba
    if r.2 ≠ 0 then (r.1,.failed)
    else
      match scanEntries path (entries r.1.sectorBuf) with
      | .next => scanSectors path n r.1 (lba+1)
      | scan => (r.1,scan)

/-- `while (cluster < FAT32_EOC)`, for at most `fuel` clusters. -/
def scanChain (path : List UInt8) : ℕ → State → ℕ → State × Scan
  | 0, s, _ => (s,.running)
  | fuel+1, s, cluster =>
    if cluster < eoc then
      match scanSectors path s.secPerClus s (clusterToLba s cluster) with
      | (s,.next) =>
        let r := readFatEntry s cluster
        scanChain path fuel r.1 r.2
      | r => r
    else (s,.notFound)

def openedFile (e : DirEntry) : File where
  firstCluster := e.fstClusHi*2^16 ||| e.fstClusLo
  curCluster := e.fstClusHi*2^16 ||| e.fstClusLo
  fileSize := e.fileSize
  pos := 0
  isDir := e.attr &&& 0x10 ≠ 0
  active := true

/-- `fat32_open`: its result and what it prints. A null path is `none`. -/
def fat32Open (fuel : ℕ) (s : State) (path : Option (List UInt8)) : State × Outcome × String :=
  match path with
  | none => (s,.returned (-1),"")
  | some path =>
    if s.initialized = false then (s,.returned (-1),"")
    else
      match Slots.firstSlot maxFiles (fun i => !(s.files i).active) with
      | none => (s,.returned (-1),"[FAT32] No free file slots\n")
      | some fd =>
        match scanChain path fuel s s.rootCluster with
        | (s,.found e) => (s.setFile fd (openedFile e),.returned fd,"")
        | (s,.failed) => (s,.returned (-1),"")
        | (s,.running) => (s,.running,"")
        | (s,_) => (s,.returned (-1),"[FAT32] File not found\n")

/-- The end of a turn of the loop of `fat32_read`: at the end of a cluster the descriptor
goes on to the next one. The flag is the `break`. -/
def nextCluster (s : State) (fd : ℕ) : State × Bool :=
  let f := s.files fd
  if f.pos%(s.secPerClus*sectorSz) = 0 then
    let r := readFatEntry s f.curCluster
    (r.1.setFile fd { f with curCluster := r.2 },r.2 ≥ eoc)
  else (s,false)

/-- What a turn of the loop comes to; `out` is what has been copied to the caller. -/
inductive Turn
  | done (s : State) (outcome : Outcome) (out : List UInt8)
  | again (s : State) (out : List UInt8)

def returnRead (s : State) (out : List UInt8) : Turn := .done s (.returned ((out.length : ℤ).bmod (2^32))) out

def readTurn (fd len : ℕ) (s : State) (out : List UInt8) : Turn :=
  let f := s.files fd
  if out.length < len ∧ f.pos < f.fileSize then
    if s.secPerClus = 0 then .done s .divideError out
    else
      let clusOff := f.pos%(s.secPerClus*sectorSz)
      let secInClus := clusOff/sectorSz
      let byteOff := clusOff%sectorSz
      let r := readSector s (clusterToLba s f.curCluster+secInClus)
      if r.2 ≠ 0 then .done r.1 (.returned (-1)) out
      else
        let toCopy := min (min (sectorSz-byteOff) (len-out.length)) (f.fileSize-f.pos)
        let out := out++bytesAt r.1.sectorBuf.byte byteOff toCopy
        let r := nextCluster (r.1.setFile fd { f with pos := f.pos+toCopy }) fd
        if r.2 then returnRead r.1 out else .again r.1 out
  else returnRead s out

def readLoop (fd len : ℕ) : ℕ → State → List UInt8 → State × Outcome × List UInt8
  | 0, s, out => (s,.running,out)
  | fuel+1, s, out =>
    match readTurn fd len s out with
    | .done s outcome out => (s,outcome,out)
    | .again s out => readLoop fd len fuel s out

/-- `fat32_read`: its result and the bytes it has stored from `buf` on; `buf` says
whether the caller passed a buffer. Every turn of the loop copies a byte, so `len + 1`
turns are enough. -/
def fat32Read (s : State) (fd : ℤ) (buf : Bool) (len : ℕ) : State × Outcome × List UInt8 :=
  if fd < 0 ∨ fd ≥ maxFiles then (s,.returned (-1),[])
  else if (s.files fd.toNat).active = false then (s,.returned (-1),[])
  else if buf = false ∨ len = 0 then (s,.returned (-1),[])
  else readLoop fd.toNat len (len+1) s []

def fat32Close (s : State) (fd : ℤ) : State × ℤ :=
  if fd < 0 ∨ fd ≥ maxFiles then (s,-1)
  else if (s.files fd.toNat).active = false then (s,-1)
  else (s.setFile fd.toNat { s.files fd.toNat with active := false },0)

/-- The calls made once a volume is mounted. A call of `fat32_open` carries the number
of clusters it may look at. -/
inductive Op
  | fat32Open (fuel : ℕ) (path : Option (List UInt8))
  | fat32Read (fd : ℤ) (buf : Bool) (len : ℕ)
  | fat32Close (fd : ℤ)

/-- What a caller gets back: the outcome, and the bytes a read has stored. -/
structure Out where
  outcome : Outcome
  stored : List UInt8
  deriving DecidableEq, Repr

def step (s : State) : Op → State × Out
  | .fat32Open fuel path => let r := fat32Open fuel s path; (r.1,⟨r.2.1,[]⟩)
  | .fat32Read fd buf len => let r := fat32Read s fd buf len; (r.1,⟨r.2.1,r.2.2⟩)
  | .fat32Close fd => let r := fat32Close s fd; (r.1,⟨.returned r.2,[]⟩)

end Fat32
end ValiantCore
