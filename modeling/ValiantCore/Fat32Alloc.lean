import ValiantCore.Fat32Walk
import ValiantCore.Bytes

/-! What the driver divides by. The clusters are counted with numbers that `fat32_init`
takes over from the boot sector as they are; no later call changes them, so that what
holds of them at the mount holds of every run. `fat32_alloc_cluster` is the one function
that writes to the volume. -/
namespace ValiantCore
namespace Fat32

def free : ℕ := 0x00000000

/-- `n` as `w` bytes from `off` on. -/
def Sector.patch (sec : Sector) (off w n : ℕ) : Sector where
  get i := if off ≤ i.val ∧ i.val < off+w then UInt8.ofNat (n/256^(i.val-off)) else sec.get i

/-- `fat32_write_sector` of `fat32_sector_buf`, over `ata_write_250gb`: a transfer that
times out leaves the disk as it was. -/
def writeSector (s : State) (lba : ℕ) : State × ℤ :=
  if s.disk.fails s.disk.clock then ({ s with disk.clock := s.disk.clock+1 },-1)
  else
    ({ s with
      disk.sector := Function.update s.disk.sector lba s.sectorBuf
      disk.clock := s.disk.clock+1 },0)

def writeFatEntry (s : State) (cluster value : ℕ) : State × ℤ :=
  let fatOffset := cluster*4
  let fatSector := s.fatStart+fatOffset/sectorSz
  let r := readSector s fatSector
  if r.2 ≠ 0 then (r.1,-1)
  else
    let buf := r.1.sectorBuf.patch (fatOffset%sectorSz) 4 (value &&& 0x0FFFFFFF)
    writeSector { r.1 with sectorBuf := buf } fatSector

/-- `fat32.bpb.tot_sec32 - (uint32_t)fat32.data_start` -/
def State.dataSectors (s : State) : ℕ := u32 ((s.bpb.totSec32 : ℤ)-u32 s.dataStart)

def State.totalClusters (s : State) : ℕ := s.dataSectors/s.secPerClus

/-- The `n` turns of the loop that are left, from cluster `i` on. The result of the write
is not looked at. -/
def allocLoop : ℕ → State → ℕ → State × ℕ
  | 0, s, _ => (s,0)
  | n+1, s, i =>
    let r := readFatEntry s i
    if r.2 = free then ((writeFatEntry r.1 i eoc).1,i) else allocLoop n r.1 (i+1)

/-- `fat32_alloc_cluster`. The bound of its loop is a `uint32_t`. -/
def fat32AllocCluster (s : State) : State × Outcome :=
  if s.secPerClus = 0 then (s,.divideError)
  else
    let r := allocLoop (u32 (s.totalClusters+2)-2) s 2
    (r.1,.returned r.2)

inductive Call
  | file (op : Op)
  | fat32Ls (fuel : ℕ)
  | fat32AllocCluster

def callStep (s : State) : Call → State × Outcome
  | .file op => ((step s op).1,(step s op).2.outcome)
  | .fat32Ls fuel => ((fat32Ls fuel s).1,(fat32Ls fuel s).2.1)
  | .fat32AllocCluster => fat32AllocCluster s

/-- The modulus and the divisor are not zero, the call does not divide by zero, and the
difference that an allocation divides is that of its operands. -/
structure Sound (s : State) (call : Call) : Prop where
  modulus : s.secPerClus*sectorSz ≠ 0
  divisor : s.secPerClus ≠ 0
  divides : (callStep s call).2 ≠ .divideError
  noUnderflow : call = .fat32AllocCluster →
    (s.dataSectors : ℤ) = (s.bpb.totSec32 : ℤ)-u32 s.dataStart

section Keeps
variable {R : State → State → Prop}

theorem fat32Ls_keeps (h : Keeps R) (fuel : ℕ) (s : State) : R s (fat32Ls fuel s).1 := by
  cases hinit : s.initialized with
  | false =>
    simp only [fat32Ls,hinit,if_true]
    exact h.refl s
  | true =>
    rw [fat32Ls_eq hinit]
    exact walkChain_keeps h _ _ _ _

variable (hset : ∀ fd s f, R s (s.setFile fd f))
include hset

theorem fat32Open_keeps (h : Keeps R) (fuel : ℕ) (s : State) (path : Option (List UInt8)) :
    R s (fat32Open fuel s path).1 := by
  cases path with
  | none => exact h.refl s
  | some path =>
    simp only [fat32Open]
    split_ifs
    · exact h.refl s
    · cases Slots.firstSlot maxFiles (fun i => !(s.files i).active) with
      | none => exact h.refl s
      | some fd =>
        have hscan := scanChain_keeps h path fuel s s.rootCluster
        rcases hr : scanChain path fuel s s.rootCluster with ⟨t,scan⟩
        rw [hr] at hscan
        cases scan with
        | found e => exact h.trans hscan (hset fd t _)
        | _ => exact hscan

theorem step_keeps (h : Keeps R) (s : State) (op : Op) : R s (step s op).1 := by
  cases op with
  | fat32Open fuel path => exact fat32Open_keeps hset h fuel s path
  | fat32Read fd buf len => exact fat32Read_keeps h (fun _ => hset _) s buf len
  | fat32Close fd => exact fat32Close_keeps h (fun _ => hset _) s

end Keeps

def State.geometry (s : State) : Bpb × ℕ × ℕ := (s.bpb,s.dataStart,s.secPerClus)

/-- The states count the clusters with the same numbers. -/
def SameGeometry (s t : State) : Prop := t.geometry = s.geometry

section Geometry

theorem geometry_keeps : Keeps SameGeometry where
  refl _ := rfl
  trans h h' := h'.trans h
  read s lba := by
    unfold readSector
    split_ifs <;> rfl

theorem setFile_geometry (fd : ℕ) (s : State) (f : File) : SameGeometry s (s.setFile fd f) := rfl

theorem writeSector_geometry (s : State) (lba : ℕ) : SameGeometry s (writeSector s lba).1 := by
  unfold writeSector
  split_ifs <;> rfl

theorem writeFatEntry_geometry (s : State) (cluster value : ℕ) :
    SameGeometry s (writeFatEntry s cluster value).1 := by
  simp only [writeFatEntry]
  split_ifs
  · exact geometry_keeps.read s _
  · exact (writeSector_geometry _ _).trans (geometry_keeps.read s _)

theorem allocLoop_geometry (n : ℕ) (s : State) (i : ℕ) : SameGeometry s (allocLoop n s i).1 := by
  induction n generalizing s i with
  | zero => rfl
  | succ n ih =>
    have hread := readFatEntry_keeps geometry_keeps s i
    simp only [allocLoop]
    split_ifs
    · exact (writeFatEntry_geometry _ i eoc).trans hread
    · exact (ih _ _).trans hread

theorem callStep_geometry (s : State) (call : Call) : SameGeometry s (callStep s call).1 := by
  cases call with
  | file op => exact step_keeps setFile_geometry geometry_keeps s op
  | fat32Ls fuel => exact fat32Ls_keeps geometry_keeps fuel s
  | fat32AllocCluster =>
    simp only [callStep,fat32AllocCluster]
    split_ifs
    · rfl
    · exact allocLoop_geometry _ _ _

end Geometry

section Division
variable {s : State}

theorem readLoop_divides (hspc : s.secPerClus ≠ 0) (fd len fuel : ℕ) (out : List UInt8) :
    (readLoop fd len fuel s out).2.1 ≠ .divideError := by
  induction fuel generalizing s out with
  | zero => exact Outcome.noConfusion
  | succ fuel ih =>
    have hkept := readTurn_keeps (setFile_geometry fd) geometry_keeps len s out
    simp only [readLoop]
    rcases readTurn_cases hspc fd len out with ⟨-,hturn⟩ | ⟨-,-,hturn⟩ | ⟨-,-,hturn⟩
    · rw [hturn]
      exact Outcome.noConfusion
    · rw [hturn]
      exact Outcome.noConfusion
    · cases hended : (turnState s fd (len-out.length)).2 with
      | true =>
        rw [hturn,hended]
        exact Outcome.noConfusion
      | false =>
        rw [hended,if_neg (by decide)] at hturn
        rw [hturn] at hkept ⊢
        have hsame : (turnState s fd (len-out.length)).1.secPerClus = s.secPerClus :=
          congrArg (fun g => g.2.2) hkept
        exact ih (hsame ▸ hspc) _

theorem fat32Open_divides (fuel : ℕ) (s : State) (path : Option (List UInt8)) :
    (fat32Open fuel s path).2.1 ≠ .divideError := by
  cases path with
  | none => exact Outcome.noConfusion
  | some path =>
    simp only [fat32Open]
    split_ifs
    · exact Outcome.noConfusion
    · cases Slots.firstSlot maxFiles (fun i => !(s.files i).active) with
      | none => exact Outcome.noConfusion
      | some fd =>
        rcases scanChain path fuel s s.rootCluster with ⟨t,scan⟩
        cases scan with
        | _ => exact Outcome.noConfusion

theorem fat32Ls_divides (fuel : ℕ) (s : State) : (fat32Ls fuel s).2.1 ≠ .divideError := by
  cases hinit : s.initialized with
  | false => simp [fat32Ls,hinit]
  | true =>
    rw [fat32Ls_eq hinit]
    cases (lsWalk fuel s).ending with
    | _ => exact Outcome.noConfusion

theorem callStep_divides (hspc : s.secPerClus ≠ 0) (call : Call) :
    (callStep s call).2 ≠ .divideError := by
  cases call with
  | file op =>
    cases op with
    | fat32Open fuel path => exact fat32Open_divides fuel s path
    | fat32Read fd buf len =>
      simp only [callStep,step,fat32Read]
      split_ifs
      · exact Outcome.noConfusion
      · exact Outcome.noConfusion
      · exact Outcome.noConfusion
      · exact readLoop_divides hspc _ _ _ _
    | fat32Close fd => exact Outcome.noConfusion
  | fat32Ls fuel => exact fat32Ls_divides fuel s
  | fat32AllocCluster =>
    simp only [callStep,fat32AllocCluster,hspc,if_false]
    exact Outcome.noConfusion

end Division

theorem u32_sub_iff {a b : ℕ} (ha : a < 4294967296) : (u32 ((a : ℤ)-b) : ℤ) = (a : ℤ)-b ↔ b ≤ a := by
  unfold u32
  omega

/-- What an allocation divides is the size of the data area just if that area begins
inside the volume: the conversion of `data_start` makes no difference modulo `2^32`. -/
theorem dataSectors_iff {s : State} (h : s.bpb.totSec32 < 4294967296) :
    (s.dataSectors : ℤ) = (s.bpb.totSec32 : ℤ)-s.dataStart ↔ s.dataStart ≤ s.bpb.totSec32 := by
  have hcast : s.dataSectors = u32 ((s.bpb.totSec32 : ℤ)-s.dataStart) := by
    unfold State.dataSectors u32
    omega
  rw [hcast]
  exact u32_sub_iff h

theorem totSec32_lt (sec : Sector) : (readBpb sec).totSec32 < 4294967296 :=
  Bytes.field_lt sec.byte 32 4

theorem init_geometry {s : State} (h : (init s).2.1 = 0) :
    (init s).1.geometry =
      let b := readBpb (s.disk.sector 0)
      (b,b.rsvdSecCnt+b.numFats*b.fatSz32,b.secPerClus) := by
  cases hfails : s.disk.fails s.disk.clock with
  | true => simp [init,readSector,hfails] at h
  | false =>
    by_cases hsig : (readBpb (s.disk.sector 0)).bootSig = bootSig
    · by_cases hfat : (readBpb (s.disk.sector 0)).fatSz32 = 0
      · simp [init,readSector,hfails,hsig,hfat] at h
      · simp [init,readSector,hfails,hsig,hfat,State.geometry]
    · simp [init,readSector,hfails,hsig] at h

/-- The arithmetic of every call of every run from a successful `fat32_init` is sound just
if the boot sector gives a cluster size, and a data area that begins, modulo `2^32`, not
behind the end of the volume. -/
theorem arithmetic_sound_iff (s : State) (hinit : (init s).2.1 = 0) :
    (∀ calls : List Call, Runs.EveryStep (fun pre call =>
      Sound (Runs.exec callStep (init s).1 pre) call) calls) ↔
      let b := readBpb (s.disk.sector 0)
      b.secPerClus ≠ 0 ∧ u32 (b.rsvdSecCnt+b.numFats*b.fatSz32 : ℕ) ≤ b.totSec32 := by
  have hstart := init_geometry hinit
  have hlt := totSec32_lt (s.disk.sector 0)
  constructor
  · intro h
    obtain ⟨-,hdiv,-,hsub⟩ := h [.fat32AllocCluster] [] .fat32AllocCluster (List.prefix_refl _)
    have hdiff := hsub rfl
    simp only [Runs.exec_nil,State.dataSectors] at hdiv hdiff
    simp only [State.geometry,Prod.mk.injEq] at hstart
    obtain ⟨hbpb,hdata,hspc⟩ := hstart
    rw [hbpb,hdata,u32_sub_iff hlt] at hdiff
    exact ⟨hspc ▸ hdiv,hdiff⟩
  · rintro ⟨hspc,hle⟩ calls pre call -
    have hkept : (Runs.exec callStep (init s).1 pre).geometry = (init s).1.geometry :=
      Runs.exec_invariant callStep (fun t => t.geometry = (init s).1.geometry)
        (fun t c ht => (callStep_geometry t c).trans ht) rfl pre
    rw [hstart] at hkept
    simp only [State.geometry,Prod.mk.injEq] at hkept
    obtain ⟨hbpb,hdata,hsame⟩ := hkept
    have hne : (Runs.exec callStep (init s).1 pre).secPerClus ≠ 0 := hsame ▸ hspc
    refine ⟨Nat.mul_ne_zero hne (by decide),hne,callStep_divides hne call,fun _ => ?_⟩
    rw [State.dataSectors,hbpb,hdata]
    exact (u32_sub_iff hlt).mpr hle

/-- The volume of the examples, with an allocation between two reads. -/
theorem arithmetic_sound_demo :
    Runs.EveryStep (fun pre call => Sound (Runs.exec callStep
      (init (unmounted demo.bpb demoSector fun _ => false)).1 pre) call)
      [.file (.fat32Open 1 (some [0x41])),.file (.fat32Read 0 true 600),.fat32AllocCluster,
        .fat32Ls 1,.file (.fat32Close 0)] :=
  (arithmetic_sound_iff (unmounted demo.bpb demoSector fun _ => false) (by decide +kernel)).mpr
    ⟨by decide +kernel,by decide +kernel⟩ _

/-- A boot sector with a cluster size of 0 passes the checks, and the first allocation
divides by it. -/
theorem zero_cluster_size :
    (init (unmounted { demo.bpb with secPerClus := 0 } demoSector fun _ => false)).2.1 = 0 ∧
      ¬ ∀ calls : List Call, Runs.EveryStep (fun pre call => Sound (Runs.exec callStep
        (init (unmounted { demo.bpb with secPerClus := 0 } demoSector fun _ => false)).1 pre) call) calls := by
  refine ⟨by decide +kernel,fun h => ?_⟩
  have hsound := h [.fat32AllocCluster] [] .fat32AllocCluster (List.prefix_refl _)
  exact hsound.divides (by decide +kernel)

end Fat32
end ValiantCore
