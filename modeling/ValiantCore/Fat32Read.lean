import ValiantCore.Fat32
import ValiantCore.Bytes
import Mathlib.Algebra.Order.Group.Nat

/-! Reading a file piece by piece. A descriptor that has read `pos` bytes stands in the
cluster that holds byte `pos`; whatever other descriptors do, the calls on it return the
successive pieces of the file. -/
namespace ValiantCore
namespace Fat32

open Bytes Chunks

/-- What the files of a mounted volume are read from. -/
structure Volume where
  fatStart : ℕ
  dataStart : ℕ
  secPerClus : ℕ
  sector : ℕ → Sector

def State.volume (s : State) : Volume := ⟨s.fatStart,s.dataStart,s.secPerClus,s.disk.sector⟩

namespace Volume
variable (v : Volume)

def clusterSz : ℕ := v.secPerClus*sectorSz

def lba (cluster : ℕ) : ℕ := if cluster < 2 then 0 else v.dataStart+(cluster-2)*v.secPerClus

def link (cluster : ℕ) : ℕ :=
  field (v.sector (v.fatStart+cluster*4/sectorSz)).byte (cluster*4%sectorSz) 4 &&& 0x0FFFFFFF

def sectorData (lba : ℕ) : List UInt8 := bytesAt (v.sector lba).byte 0 sectorSz

def clusterData (cluster : ℕ) : List UInt8 :=
  (List.range v.secPerClus).flatMap fun i => v.sectorData (v.lba cluster+i)

/-- A file: the first `size` bytes of the clusters of its chain. -/
def content (chain : List ℕ) (size : ℕ) : List UInt8 := (chain.flatMap v.clusterData).take size

/-- Data clusters that are linked one to the next, from `first` on. -/
structure HasChain (first size : ℕ) (chain : List ℕ) : Prop where
  head : ∀ c ∈ chain.head?, c = first
  links : chain.IsChain fun c d => v.link c = d
  data : ∀ c ∈ chain, 2 ≤ c ∧ c < bad
  capacity : size ≤ chain.length*v.clusterSz

theorem sectorData_length (lba : ℕ) : (v.sectorData lba).length = sectorSz := bytesAt_length _ _ _

theorem clusterData_length (cluster : ℕ) : (v.clusterData cluster).length = v.clusterSz := by
  rw [clusterData,length_flatMap (fun _ => v.sectorData_length _),List.length_range,clusterSz]

variable {v} {first size : ℕ} {chain : List ℕ}

theorem HasChain.content_length (h : v.HasChain first size chain) :
    (v.content chain size).length = size := by
  rw [content,List.length_take,length_flatMap v.clusterData_length]
  exact Nat.min_eq_left h.capacity

theorem sector_in_cluster {pos n : ℕ} (hspc : 0 < v.secPerClus)
    (hsector : pos%v.clusterSz%sectorSz+n ≤ sectorSz) : pos%v.clusterSz+n ≤ v.clusterSz := by
  have hmod : pos%v.clusterSz < v.secPerClus*sectorSz := Nat.mod_lt _ (Nat.mul_pos hspc (by decide))
  have hidx : pos%v.clusterSz/sectorSz < v.secPerClus := Nat.div_lt_of_lt_mul (by rwa [Nat.mul_comm])
  have hnext : (pos%v.clusterSz/sectorSz+1)*sectorSz ≤ v.clusterSz := Nat.mul_le_mul_right _ hidx
  have hoff := Nat.div_add_mod' (pos%v.clusterSz) sectorSz
  rw [Nat.succ_mul] at hnext
  omega

theorem piece_of_sector {pos cluster n : ℕ} (hspc : 0 < v.secPerClus)
    (hcluster : chain[pos/v.clusterSz]? = some cluster)
    (hsector : pos%v.clusterSz%sectorSz+n ≤ sectorSz) (hsize : pos+n ≤ size) :
    ((v.content chain size).drop pos).take n =
      bytesAt (v.sector (v.lba cluster+pos%v.clusterSz/sectorSz)).byte (pos%v.clusterSz%sectorSz) n := by
  have hmod : pos%v.clusterSz < v.secPerClus*sectorSz := Nat.mod_lt _ (Nat.mul_pos hspc (by decide))
  have hidx : pos%v.clusterSz/sectorSz < v.secPerClus := Nat.div_lt_of_lt_mul (by rwa [Nat.mul_comm])
  calc
    _ = ((chain.flatMap v.clusterData).drop (pos/v.clusterSz*v.clusterSz+pos%v.clusterSz)).take n := by
      rw [content,List.drop_take,List.take_take,Nat.div_add_mod',Nat.min_eq_left (by omega)]
    _ = ((v.clusterData cluster).drop (pos%v.clusterSz)).take n :=
      take_drop_flatMap v.clusterData_length hcluster (sector_in_cluster hspc hsector)
    _ = ((v.clusterData cluster).drop
        (pos%v.clusterSz/sectorSz*sectorSz+pos%v.clusterSz%sectorSz)).take n := by rw [Nat.div_add_mod']
    _ = ((v.sectorData (v.lba cluster+pos%v.clusterSz/sectorSz)).drop (pos%v.clusterSz%sectorSz)).take n :=
      take_drop_flatMap (fun _ => v.sectorData_length _) (List.getElem?_range hidx) hsector
    _ = _ := by
      rw [sectorData,take_drop_bytesAt _ _ hsector,Nat.zero_add]

theorem same_cluster {pos n : ℕ} (hin : pos%v.clusterSz+n ≤ v.clusterSz)
    (hend : (pos+n)%v.clusterSz ≠ 0) : (pos+n)/v.clusterSz = pos/v.clusterSz := by
  have hsum := Nat.div_add_mod pos v.clusterSz
  have hlt : pos%v.clusterSz+n < v.clusterSz := by
    refine lt_of_le_of_ne hin fun heq => hend ?_
    have hnew : pos+n = v.clusterSz*(pos/v.clusterSz+1) := by rw [Nat.mul_succ]; omega
    rw [hnew,Nat.mul_mod_right]
  have hnew : pos+n = v.clusterSz*(pos/v.clusterSz)+(pos%v.clusterSz+n) := by omega
  rw [hnew,Nat.mul_add_div (by omega),Nat.div_eq_of_lt hlt,Nat.add_zero]

theorem HasChain.next {pos n cluster : ℕ} (h : v.HasChain first size chain) (hspc : 0 < v.secPerClus)
    (hcluster : chain[pos/v.clusterSz]? = some cluster) (hn : 0 < n)
    (hin : pos%v.clusterSz+n ≤ v.clusterSz) (hend : (pos+n)%v.clusterSz = 0) (hsize : pos+n < size) :
    chain[(pos+n)/v.clusterSz]? = some (v.link cluster) := by
  have hpos : 0 < v.clusterSz := Nat.mul_pos hspc (by decide)
  have hsum := Nat.div_add_mod pos v.clusterSz
  have hfull : pos%v.clusterSz+n = v.clusterSz := by
    by_contra hne
    rw [Nat.add_mod,Nat.mod_eq_of_lt (show n < v.clusterSz from by omega),
      Nat.mod_eq_of_lt (by omega)] at hend
    omega
  have hnew : pos+n = (pos/v.clusterSz+1)*v.clusterSz := by
    rw [Nat.succ_mul,Nat.mul_comm]
    omega
  have hcap : (pos/v.clusterSz+1)*v.clusterSz < chain.length*v.clusterSz :=
    hnew ▸ lt_of_lt_of_le hsize h.capacity
  have hlt : pos/v.clusterSz+1 < chain.length := Nat.lt_of_mul_lt_mul_right hcap
  obtain ⟨_,hget⟩ := List.getElem?_eq_some_iff.mp hcluster
  rw [hnew,Nat.mul_div_cancel _ hpos,List.getElem?_eq_getElem hlt,← hget,
    List.isChain_iff_getElem.mp h.links _ hlt]

end Volume

/-- `R` relates the states before and after a transfer, and before and after several. -/
structure Keeps (R : State → State → Prop) : Prop where
  refl (s : State) : R s s
  trans {s t u : State} : R s t → R t u → R s u
  read (s : State) (lba : ℕ) : R s (readSector s lba).1

def Turn.state : Turn → State
  | .done s _ _ => s
  | .again s _ => s

section Keeps
variable {R : State → State → Prop}

theorem readFatEntry_keeps (h : Keeps R) (s : State) (cluster : ℕ) : R s (readFatEntry s cluster).1 := by
  simp only [readFatEntry]
  split_ifs <;> exact h.read s _

theorem scanSectors_keeps (h : Keeps R) (path : List UInt8) (n : ℕ) (s : State) (lba : ℕ) :
    R s (scanSectors path n s lba).1 := by
  induction n generalizing s lba with
  | zero => exact h.refl s
  | succ n ih =>
    have hread := h.read s lba
    simp only [scanSectors]
    split_ifs
    · exact hread
    · cases scanEntries path (entries (readSector s lba).1.sectorBuf) with
      | next => exact h.trans hread (ih _ _)
      | _ => exact hread

theorem scanChain_keeps (h : Keeps R) (path : List UInt8) (fuel : ℕ) (s : State) (cluster : ℕ) :
    R s (scanChain path fuel s cluster).1 := by
  induction fuel generalizing s cluster with
  | zero => exact h.refl s
  | succ fuel ih =>
    have hscan := scanSectors_keeps h path s.secPerClus s (clusterToLba s cluster)
    simp only [scanChain]
    split_ifs
    · rcases hr : scanSectors path s.secPerClus s (clusterToLba s cluster) with ⟨t,scan⟩
      rw [hr] at hscan
      cases scan with
      | next => exact h.trans hscan (h.trans (readFatEntry_keeps h t cluster) (ih _ _))
      | _ => exact hscan
    · exact h.refl s

section Read
variable {fd : ℕ} (hset : ∀ s f, R s (s.setFile fd f))
include hset

theorem nextCluster_keeps (h : Keeps R) (s : State) : R s (nextCluster s fd).1 := by
  simp only [nextCluster]
  split_ifs
  · exact h.trans (readFatEntry_keeps h _ _) (hset _ _)
  · exact h.refl s

theorem readTurn_keeps (h : Keeps R) (len : ℕ) (s : State) (out : List UInt8) :
    R s (readTurn fd len s out).state := by
  have hread := h.read s
  simp only [readTurn]
  split_ifs
  · exact h.refl s
  · exact hread _
  · exact h.trans (hread _) (h.trans (hset _ _) (nextCluster_keeps hset h _))
  · exact h.trans (hread _) (h.trans (hset _ _) (nextCluster_keeps hset h _))
  · exact h.refl s

theorem readLoop_keeps (h : Keeps R) (len fuel : ℕ) (s : State) (out : List UInt8) :
    R s (readLoop fd len fuel s out).1 := by
  induction fuel generalizing s out with
  | zero => exact h.refl s
  | succ fuel ih =>
    have hturn := readTurn_keeps hset h len s out
    simp only [readLoop]
    cases hr : readTurn fd len s out with
    | done t outcome out' => rwa [hr] at hturn
    | again t out' =>
      rw [hr] at hturn
      exact h.trans hturn (ih t out')

end Read

theorem fat32Read_keeps (h : Keeps R) {i : ℤ} (hset : 0 ≤ i → ∀ s f, R s (s.setFile i.toNat f))
    (s : State) (buf : Bool) (len : ℕ) : R s (fat32Read s i buf len).1 := by
  simp only [fat32Read]
  split_ifs with hrange
  · exact h.refl s
  · exact h.refl s
  · exact h.refl s
  · exact readLoop_keeps (hset (by omega)) h len _ s _

theorem fat32Close_keeps (h : Keeps R) {i : ℤ} (hset : 0 ≤ i → ∀ s f, R s (s.setFile i.toNat f))
    (s : State) : R s (fat32Close s i).1 := by
  simp only [fat32Close]
  split_ifs with hrange
  · exact h.refl s
  · exact h.refl s
  · exact hset (by omega) s _

end Keeps

/-- Nothing that reads through descriptor `fd` depend on has changed. -/
structure Elsewhere (fd : ℕ) (s t : State) : Prop where
  volume : t.volume = s.volume
  fails : t.disk.fails = s.disk.fails
  file : t.files fd = s.files fd

section Frame
variable {fd : ℕ}

theorem Elsewhere.refl (s : State) : Elsewhere fd s s := ⟨rfl,rfl,rfl⟩

theorem Elsewhere.trans {s t u : State} (h : Elsewhere fd s t) (h' : Elsewhere fd t u) :
    Elsewhere fd s u :=
  ⟨h'.volume.trans h.volume,h'.fails.trans h.fails,h'.file.trans h.file⟩

theorem setFile_elsewhere {i : ℕ} (hi : i ≠ fd) (s : State) (f : File) :
    Elsewhere fd s (s.setFile i f) :=
  ⟨rfl,rfl,by simp [State.setFile,Ne.symm hi]⟩

theorem readSector_elsewhere (s : State) (lba : ℕ) : Elsewhere fd s (readSector s lba).1 := by
  unfold readSector
  split_ifs <;> exact ⟨rfl,rfl,rfl⟩

theorem elsewhere_keeps (fd : ℕ) : Keeps (Elsewhere fd) :=
  ⟨Elsewhere.refl,Elsewhere.trans,readSector_elsewhere⟩

theorem readFatEntry_elsewhere (s : State) (cluster : ℕ) :
    Elsewhere fd s (readFatEntry s cluster).1 :=
  readFatEntry_keeps (elsewhere_keeps fd) s cluster

theorem fat32Read_elsewhere (s : State) {i : ℤ} (hi : i ≠ fd) (buf : Bool) (len : ℕ) :
    Elsewhere fd s (fat32Read s i buf len).1 :=
  fat32Read_keeps (elsewhere_keeps fd) (fun _ => setFile_elsewhere (by omega)) s buf len

theorem fat32Close_elsewhere (s : State) {i : ℤ} (hi : i ≠ fd) : Elsewhere fd s (fat32Close s i).1 :=
  fat32Close_keeps (elsewhere_keeps fd) (fun _ => setFile_elsewhere (by omega)) s

end Frame

/-- An open either changes no descriptor and returns no number of one, or it fills a
free descriptor and returns its number. -/
theorem fat32Open_cases (fuel : ℕ) (s : State) (path : Option (List UInt8)) :
    ((∀ fd, Elsewhere fd s (fat32Open fuel s path).1) ∧
      ∀ i : ℕ, (fat32Open fuel s path).2.1 ≠ .returned i) ∨
    ∃ t i e, (∀ fd, Elsewhere fd s t) ∧ i < maxFiles ∧ (s.files i).active = false ∧
      (fat32Open fuel s path).1 = t.setFile i (openedFile e) ∧
      (fat32Open fuel s path).2.1 = .returned i := by
  have hneg : ∀ i : ℕ, Outcome.returned (-1) ≠ .returned i := by
    intro i h
    have := Outcome.returned.inj h
    omega
  cases path with
  | none => exact Or.inl ⟨fun _ => Elsewhere.refl s,hneg⟩
  | some path =>
    by_cases hinit : s.initialized = false
    · have heq : fat32Open fuel s (some path) = (s,.returned (-1),"") := by simp [fat32Open,hinit]
      rw [heq]
      exact Or.inl ⟨fun _ => Elsewhere.refl s,hneg⟩
    · cases hslot : Slots.firstSlot maxFiles (fun i => !(s.files i).active) with
      | none =>
        simp only [fat32Open,hinit,hslot]
        exact Or.inl ⟨fun _ => Elsewhere.refl s,hneg⟩
      | some i =>
        obtain ⟨hi,hfree,-⟩ := Slots.firstSlot_eq_some.mp hslot
        have hscan := fun fd => scanChain_keeps (elsewhere_keeps fd) path fuel s s.rootCluster
        simp only [fat32Open,hinit,hslot]
        rcases hr : scanChain path fuel s s.rootCluster with ⟨t,scan⟩
        rw [hr] at hscan
        cases scan with
        | found e => exact Or.inr ⟨t,i,e,hscan,hi,by simpa using hfree,rfl,rfl⟩
        | running => exact Or.inl ⟨hscan,fun _ => Outcome.noConfusion⟩
        | _ => exact Or.inl ⟨hscan,hneg⟩

theorem readSector_ok {s : State} (h : ∀ n, s.disk.fails n = false) (lba : ℕ) :
    (readSector s lba).2 = 0 ∧ (readSector s lba).1.sectorBuf = s.volume.sector lba ∧
      ∀ fd, (readSector s lba).1.files fd = s.files fd := by
  simp [readSector,h,State.volume]

theorem readFatEntry_ok {s : State} (h : ∀ n, s.disk.fails n = false) (cluster : ℕ) :
    (readFatEntry s cluster).2 = s.volume.link cluster := by
  obtain ⟨hret,hbuf,-⟩ := readSector_ok h (s.fatStart+cluster*4/sectorSz)
  simp only [readFatEntry,hret,hbuf,Volume.link]
  rfl

/-- Descriptor `fd` has read `pos` bytes of a file of `size` bytes: it stands in the
cluster of the chain that holds the next byte. -/
structure Tracks (v : Volume) (chain : List ℕ) (size fd : ℕ) (s : State) (pos : ℕ) : Prop where
  volume : s.volume = v
  fails : ∀ n, s.disk.fails n = false
  active : (s.files fd).active = true
  fileSize : (s.files fd).fileSize = size
  pos_eq : (s.files fd).pos = pos
  pos_le : pos ≤ size
  cluster : pos < size → chain[pos/v.clusterSz]? = some (s.files fd).curCluster

section Loop
variable {v : Volume} {chain : List ℕ} {first size fd pos : ℕ} {s t : State}

theorem Tracks.elsewhere (h : Tracks v chain size fd s pos) (hst : Elsewhere fd s t) :
    Tracks v chain size fd t pos where
  volume := hst.volume.trans h.volume
  fails := by rw [hst.fails]; exact h.fails
  active := by rw [hst.file]; exact h.active
  fileSize := by rw [hst.file]; exact h.fileSize
  pos_eq := by rw [hst.file]; exact h.pos_eq
  pos_le := h.pos_le
  cluster := by rw [hst.file]; exact h.cluster

/-- The descriptor has been moved past a piece of its cluster; if that was the last
piece the chain gives the next cluster, and only the end of the file ends the loop. -/
theorem nextCluster_tracks (hchain : v.HasChain first size chain) (hspc : 0 < v.secPerClus)
    (hvol : s.volume = v) (hfails : ∀ k, s.disk.fails k = false) {f : File} (hfile : s.files fd = f)
    (hactive : f.active = true) (hfsize : f.fileSize = size) {n : ℕ} (hfpos : f.pos = pos+n)
    (hcluster : chain[pos/v.clusterSz]? = some f.curCluster) (hn : 0 < n)
    (hin : pos%v.clusterSz+n ≤ v.clusterSz) (hle : pos+n ≤ size) :
    Tracks v chain size fd (nextCluster s fd).1 (pos+n) ∧
      ((nextCluster s fd).2 = true → pos+n = size) := by
  have hsz : s.secPerClus*sectorSz = v.clusterSz := by rw [← hvol]; rfl
  by_cases hend : (pos+n)%v.clusterSz = 0
  · -- the cluster is finished: its link is fetched
    have hlink := readFatEntry_ok hfails f.curCluster
    have hfat := @readFatEntry_elsewhere fd s f.curCluster
    rw [hvol] at hlink
    have hnc : nextCluster s fd =
        ((readFatEntry s f.curCluster).1.setFile fd { f with curCluster := v.link f.curCluster },
          decide (v.link f.curCluster ≥ eoc)) := by
      simp only [nextCluster,hfile,hfpos,hsz,hlink]
      exact if_pos hend
    have hnext := hchain.next hspc hcluster hn hin hend
    rw [hnc]
    constructor
    · exact ⟨hfat.volume.trans hvol,hfat.fails ▸ hfails,by simpa [State.setFile] using hactive,
        by simpa [State.setFile] using hfsize,by simpa [State.setFile] using hfpos,hle,
        by simpa [State.setFile] using hnext⟩
    · intro heoc
      by_contra hne
      have hdata := (hchain.data _ (List.mem_of_getElem? (hnext (by omega)))).2
      exact absurd (lt_of_lt_of_le hdata (show bad ≤ eoc from by decide))
        (not_lt.mpr (of_decide_eq_true heoc))
  · have hnc : nextCluster s fd = (s,false) := by
      simp only [nextCluster,hfile,hfpos,hsz]
      exact if_neg hend
    rw [hnc]
    refine ⟨⟨hvol,hfails,by rwa [hfile],by rwa [hfile],by rwa [hfile],hle,fun _ => ?_⟩,by simp⟩
    rwa [hfile,Volume.same_cluster hin hend]

/-- One turn of the loop: it copies the next piece of the file and goes on, or it has
reached the end of the file and returns. -/
theorem readTurn_spec (h : Tracks v chain size fd s pos) (hchain : v.HasChain first size chain)
    (hspc : 0 < v.secPerClus) {len : ℕ} {out : List UInt8} (hlen : out.length < len)
    (hpos : pos < size) :
    ∃ t n out', 0 < n ∧ n ≤ len-out.length ∧ Tracks v chain size fd t (pos+n) ∧
      out' = out++((v.content chain size).drop pos).take n ∧
      (readTurn fd len s out = .again t out' ∨
        pos+n = size ∧ readTurn fd len s out = returnRead t out') := by
  have hvol := h.volume
  have hsz : s.secPerClus*sectorSz = v.clusterSz := by rw [← hvol]; rfl
  have hlba : ∀ c, clusterToLba s c = v.lba c := by rw [← hvol]; exact fun _ => rfl
  have hspcs : s.secPerClus ≠ 0 := by rw [← hvol] at hspc; exact hspc.ne'
  have hcluster := h.cluster hpos
  obtain ⟨f,hfile⟩ : ∃ f, f = s.files fd := ⟨_,rfl⟩
  obtain rfl : f.pos = pos := hfile ▸ h.pos_eq
  obtain rfl : f.fileSize = size := hfile ▸ h.fileSize
  rw [← hfile] at hcluster
  have hmod := Nat.mod_lt (f.pos%v.clusterSz) (show 0 < sectorSz from by decide)
  -- the transfer of the sector that holds the next byte
  obtain ⟨lba,hl⟩ : ∃ lba, lba = v.lba f.curCluster+f.pos%v.clusterSz/sectorSz := ⟨_,rfl⟩
  obtain ⟨hret,hbuf,-⟩ := readSector_ok h.fails lba
  have hread := @readSector_elsewhere fd s lba
  obtain ⟨n,hn⟩ : ∃ n, n = min (min (sectorSz-f.pos%v.clusterSz%sectorSz) (len-out.length)) (f.fileSize-f.pos) :=
    ⟨_,rfl⟩
  have hsector : f.pos%v.clusterSz%sectorSz+n ≤ sectorSz := by omega
  have hpiece := Volume.piece_of_sector hspc hcluster hsector (show f.pos+n ≤ f.fileSize from by omega)
  rw [← hl,← hvol,← hbuf,hvol] at hpiece
  obtain ⟨s',hs'⟩ : ∃ s', s' = (readSector s lba).1.setFile fd { f with pos := f.pos+n } := ⟨_,rfl⟩
  have hturn : readTurn fd len s out =
      (let out' := out++((v.content chain f.fileSize).drop f.pos).take n
      if (nextCluster s' fd).2 then returnRead (nextCluster s' fd).1 out'
      else .again (nextCluster s' fd).1 out') := by
    simp only [readTurn,← hfile,hlen,hpos,hsz,hlba,← hl,hret,← hn,← hpiece,← hs',
      and_self,if_true,ne_eq,not_true_eq_false,if_false]
    exact if_neg hspcs
  have hfile' : s'.files fd = { f with pos := f.pos+n } := by simp [hs',State.setFile]
  obtain ⟨htracks,hstop⟩ := nextCluster_tracks hchain hspc (hs' ▸ hread.volume.trans hvol)
    (hs' ▸ hread.fails ▸ h.fails) hfile' (hfile ▸ h.active) rfl rfl hcluster (by omega)
    (Volume.sector_in_cluster hspc hsector) (by omega)
  refine ⟨(nextCluster s' fd).1,n,_,by omega,by omega,htracks,rfl,?_⟩
  cases hb : (nextCluster s' fd).2 with
  | true => exact Or.inr ⟨hstop hb,by rw [hturn,hb]; rfl⟩
  | false => exact Or.inl (by rw [hturn,hb]; rfl)

/-- The whole loop: it ends, and it has copied what is left of the request or of the
file, whichever is less. -/
theorem readLoop_spec (hchain : v.HasChain first size chain) (hspc : 0 < v.secPerClus) {len : ℕ}
    (fuel : ℕ) {out : List UInt8} (h : Tracks v chain size fd s pos) (hlen : out.length ≤ len)
    (hfuel : len-out.length < fuel) :
    ∃ t out', readLoop fd len fuel s out = (t,.returned ((out'.length : ℤ).bmod (2^32)),out') ∧
      out' = out++((v.content chain size).drop pos).take (len-out.length) ∧
      Tracks v chain size fd t (pos+min (len-out.length) (size-pos)) := by
  induction fuel generalizing s out pos with
  | zero => omega
  | succ fuel ih =>
    have hsize := hchain.content_length
    have hle := h.pos_le
    by_cases hgo : out.length < len ∧ pos < size
    · obtain ⟨t,n,out',hn,hnlen,ht,hout',hturn⟩ := readTurn_spec h hchain hspc hgo.1 hgo.2
      have htle := ht.pos_le
      have hgot : (((v.content chain size).drop pos).take n).length = n := by
        rw [List.length_take,List.length_drop,hsize]
        omega
      have hlen' : out'.length = out.length+n := by rw [hout',List.length_append,hgot]
      -- the piece of this turn and the pieces of the turns to come
      have hsplit : ((v.content chain size).drop pos).take (len-out.length) =
          ((v.content chain size).drop pos).take n++
            ((v.content chain size).drop (pos+n)).take (len-out'.length) := by
        rw [← List.drop_drop,← List.take_add,hlen']
        congr 1
        omega
      rcases hturn with hturn | ⟨hend,hturn⟩
      · obtain ⟨u,out'',hrun,hout'',hu⟩ := @ih _ _ out' ht (by omega) (by omega)
        refine ⟨u,out'',by rw [readLoop,hturn]; exact hrun,?_,?_⟩
        · rw [hout'',hsplit,← List.append_assoc,← hout']
        · have hpos : pos+n+min (len-out'.length) (size-(pos+n)) =
              pos+min (len-out.length) (size-pos) := by omega
          rwa [hpos] at hu
      · refine ⟨t,out',by rw [readLoop,hturn]; rfl,?_,?_⟩
        · rw [hsplit,hend,List.drop_of_length_le (le_of_eq hsize),List.take_nil,List.append_nil,hout']
        · have hpos : pos+n = pos+min (len-out.length) (size-pos) := by omega
          rwa [hpos] at ht
    · have hstop : readTurn fd len s out = returnRead s out := by
        simp only [readTurn,h.pos_eq,h.fileSize]
        exact if_neg hgo
      have hnone : ((v.content chain size).drop pos).take (len-out.length) = [] := by
        rw [← List.length_eq_zero_iff,List.length_take,List.length_drop,hsize]
        omega
      refine ⟨s,out,by rw [readLoop,hstop]; rfl,by rw [hnone,List.append_nil],?_⟩
      have hpos : pos = pos+min (len-out.length) (size-pos) := by omega
      rwa [← hpos]

/-- One call: it returns how many bytes of the file it has stored, and stores them. -/
theorem fat32Read_spec (hchain : v.HasChain first size chain) (hspc : 0 < v.secPerClus)
    (hfd : fd < maxFiles) (h : Tracks v chain size fd s pos) {len : ℕ} (hlen : 0 < len)
    (hlen' : len < 2^31) :
    ∃ t piece, fat32Read s fd true len = (t,.returned piece.length,piece) ∧
      piece = ((v.content chain size).drop pos).take len ∧
      Tracks v chain size fd t (pos+min len (size-pos)) := by
  obtain ⟨t,piece,hrun,hpiece,ht⟩ :=
    @readLoop_spec v chain first size fd pos s hchain hspc len (len+1) [] h (by simp) (by simp)
  simp only [List.nil_append,List.length_nil,Nat.sub_zero] at hpiece ht
  refine ⟨t,piece,?_,hpiece,ht⟩
  have hle : piece.length ≤ len := by
    rw [hpiece]
    exact List.length_take_le _ _
  have hret : ((piece.length : ℤ).bmod (2^32)) = piece.length :=
    Int.bmod_eq_of_le (by omega) (by omega)
  rw [hret] at hrun
  have hrange : ¬ ((fd : ℤ) < 0 ∨ (fd : ℤ) ≥ maxFiles) := by omega
  simp only [fat32Read,if_neg hrange,Int.toNat_natCast,h.active,hlen.ne',hrun,Bool.true_eq_false,
    or_self,if_false]

end Loop

/-- What a step of a run shows to the reader of descriptor `fd`. -/
def readOn (fd : ℕ) (e : Runs.Event State Op Out) : Option Out :=
  match e.op with
  | .fat32Read i _ _ => if i = fd then some e.out else none
  | _ => none

def lenOn (fd : ℕ) : Op → Option ℕ
  | .fat32Read i _ len => if i = fd then some len else none
  | _ => none

/-- Anything may be done with other descriptors; on `fd` there are only reads into a
buffer, of lengths an `int` can hold. -/
def Allowed (fd : ℕ) : Op → Prop
  | .fat32Open _ _ => True
  | .fat32Read i buf len => i = fd → buf = true ∧ 0 < len ∧ len < 2^31
  | .fat32Close i => i ≠ fd

section Run
variable {v : Volume} {chain : List ℕ} {first size fd pos : ℕ} {s : State}

theorem step_elsewhere (h : (s.files fd).active = true) {op : Op} (hop : Allowed fd op)
    (hlen : lenOn fd op = none) : Elsewhere fd s (step s op).1 := by
  cases op with
  | fat32Open fuel path =>
    rcases fat32Open_cases fuel s path with ⟨hall,-⟩ | ⟨t,i,e,hall,-,hfree,heq,-⟩
    · exact hall fd
    · have hi : i ≠ fd := by
        rintro rfl
        simp [h] at hfree
      simp only [step]
      rw [heq]
      exact (hall fd).trans (setFile_elsewhere hi t _)
  | fat32Read i buf len =>
    have hi : i ≠ fd := by
      rintro rfl
      simp [lenOn] at hlen
    exact fat32Read_elsewhere s hi buf len
  | fat32Close i => exact fat32Close_elsewhere s hop

theorem reads_of_tracks (hchain : v.HasChain first size chain) (hspc : 0 < v.secPerClus)
    (hfd : fd < maxFiles) (h : Tracks v chain size fd s pos) {ops : List Op}
    (hops : ∀ op ∈ ops, Allowed fd op) :
    (Runs.trace step s ops).filterMap (readOn fd) =
      (pieces ((v.content chain size).drop pos) (ops.filterMap (lenOn fd))).map
        fun piece => ⟨.returned piece.length,piece⟩ := by
  induction ops generalizing s pos with
  | nil => simp [pieces]
  | cons op ops ih =>
    have hop := hops op (by simp)
    have htail : ∀ o ∈ ops, Allowed fd o := fun o ho => hops o (by simp [ho])
    cases hl : lenOn fd op with
    | none =>
      have hread : readOn fd ⟨s,op,(step s op).2⟩ = none := by
        cases op <;> simp_all [readOn,lenOn]
      rw [Runs.trace_cons,List.filterMap_cons_none hread,List.filterMap_cons_none hl]
      exact ih (h.elsewhere (step_elsewhere h.active hop hl)) htail
    | some len =>
      cases op with
      | fat32Open fuel path => simp [lenOn] at hl
      | fat32Close i => simp [lenOn] at hl
      | fat32Read i buf len' =>
        simp only [lenOn,Option.ite_none_right_eq_some,Option.some.injEq] at hl
        obtain ⟨rfl,rfl⟩ := hl
        obtain ⟨rfl,hpos,hlt⟩ := hop rfl
        obtain ⟨t,piece,hrun,hpiece,ht⟩ := fat32Read_spec hchain hspc hfd h hpos hlt
        have hnext : (v.content chain size).drop (pos+min len' (size-pos)) =
            ((v.content chain size).drop pos).drop len' := by
          rw [List.drop_drop]
          by_cases hle : len' ≤ size-pos
          · rw [Nat.min_eq_left hle]
          · have hsize := hchain.content_length
            rw [List.drop_of_length_le (by omega),List.drop_of_length_le (by omega)]
        have hih := ih ht htail
        rw [hnext] at hih
        simp only [Runs.trace_cons,step,hrun,List.filterMap_cons,readOn,lenOn,if_true,pieces,
          List.map_cons,hih,hpiece]

theorem tracks_of_open {fuel : ℕ} {path : Option (List UInt8)} (hdisk : ∀ n, s.disk.fails n = false)
    (hopen : (fat32Open fuel s path).2.1 = .returned fd)
    (hchain : s.volume.HasChain ((fat32Open fuel s path).1.files fd).firstCluster
      ((fat32Open fuel s path).1.files fd).fileSize chain) :
    fd < maxFiles ∧ Tracks s.volume chain ((fat32Open fuel s path).1.files fd).fileSize fd
      (fat32Open fuel s path).1 0 := by
  rcases fat32Open_cases fuel s path with ⟨-,hnone⟩ | ⟨t,i,e,hall,hi,-,heq,hret⟩
  · exact absurd hopen (hnone fd)
  · obtain rfl : fd = i := by
      have hcast := Outcome.returned.inj (hopen.symm.trans hret)
      omega
    have hfile : (fat32Open fuel s path).1.files fd = openedFile e := by rw [heq]; simp [State.setFile]
    rw [hfile] at hchain ⊢
    refine ⟨hi,?_,?_,by rw [hfile]; rfl,by rw [hfile],by rw [hfile]; rfl,Nat.zero_le _,?_⟩
    · rw [heq]
      exact (hall fd).volume
    · rw [heq]
      exact (hall fd).fails ▸ hdisk
    · intro hsize
      have hne : chain ≠ [] := by
        rintro rfl
        have hcap := hchain.capacity
        simp at hcap
        omega
      obtain ⟨c,l,rfl⟩ := List.exists_cons_of_ne_nil hne
      have hhead := hchain.head c (by simp)
      rw [hfile,Nat.zero_div]
      simp [hhead,openedFile]

/-- On a disk that works, the reads on an opened descriptor return the successive pieces
of its file, whatever is done with other descriptors in between. -/
theorem reads_return_file {fuel : ℕ} {path : Option (List UInt8)} (hspc : 0 < s.secPerClus)
    (hdisk : ∀ n, s.disk.fails n = false) (hopen : (fat32Open fuel s path).2.1 = .returned fd)
    (hchain : s.volume.HasChain ((fat32Open fuel s path).1.files fd).firstCluster
      ((fat32Open fuel s path).1.files fd).fileSize chain)
    {ops : List Op} (hops : ∀ op ∈ ops, Allowed fd op) :
    let content := s.volume.content chain ((fat32Open fuel s path).1.files fd).fileSize
    let reads := (Runs.trace step (fat32Open fuel s path).1 ops).filterMap (readOn fd)
    let lens := ops.filterMap (lenOn fd)
    reads = (pieces content lens).map (fun piece => ⟨.returned piece.length,piece⟩) ∧
      reads.flatMap Out.stored = content.take lens.sum := by
  obtain ⟨hfd,htracks⟩ := tracks_of_open hdisk hopen hchain
  have hreads := reads_of_tracks hchain hspc hfd htracks hops
  rw [List.drop_zero] at hreads
  refine ⟨hreads,?_⟩
  simp only [hreads]
  rw [List.flatMap_map,List.flatMap_id',pieces_flatten]

end Run

/-- A volume with one file, `A`, of 700 bytes in clusters 3 and 4. -/
def demoSector (lba : ℕ) : Sector where
  get i :=
    if lba = 1 then
      if i.val = 11 ∨ i.val = 19 then 0x0F
      else if i.val = 12 then 4
      else if 8 ≤ i.val ∧ i.val < 19 ∧ i.val%8 < 3 then 0xFF
      else 0
    else if lba = 2 then
      if i.val = 0 then 0x41
      else if i.val < 12 then 0x20
      else if i.val = 26 then 3
      else if i.val = 28 then 0xBC
      else if i.val = 29 then 2
      else 0
    else UInt8.ofNat (lba+i)

def demo : State where
  bpb := ⟨1,1,1,100,1,2,bootSig⟩
  fatStart := 1
  dataStart := 2
  rootCluster := 2
  secPerClus := 1
  initialized := true
  files _ := ⟨0,0,0,0,false,false⟩
  sectorBuf := ⟨fun _ => 0⟩
  disk := ⟨demoSector,fun _ => false,0⟩

/-- Reads of 600, 600 and 5 bytes around an open of the same file. -/
def demoOps : List Op :=
  [.fat32Read 0 true 600,.fat32Open 1 (some [0x41]),.fat32Read 0 true 600,.fat32Read 1 true 7,
    .fat32Read 0 true 5]

theorem demo_reads :
    ((Runs.trace step (fat32Open 1 demo (some [0x41])).1 demoOps).filterMap (readOn 0)).flatMap
      Out.stored = (demo.volume.content [3,4] ((fat32Open 1 demo (some [0x41])).1.files 0).fileSize).take 1205 := by
  refine (reads_return_file (by decide) (fun _ => rfl) (by decide +kernel) ⟨?_,?_,?_,?_⟩ ?_).2
  · decide +kernel
  · decide +kernel
  · decide +kernel
  · decide +kernel
  · simp [demoOps,Allowed]

end Fat32
end ValiantCore
