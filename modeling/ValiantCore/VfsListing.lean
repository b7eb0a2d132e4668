import ValiantCore.VfsPaths
import Mathlib.Tactic.IntervalCases

/-! Directory listings. `vfs_list_directory` prints the entries whose names begin with the
path of the directory and go on behind it; only for `/` is it told where a component ends. -/
namespace ValiantCore
namespace Vfs

open Fat32 (Sector Disk)
open Bytes (bytesAt)

def listMatches (name : ℕ → UInt8) (path : List UInt8) : Bool :=
  (List.range path.length).all fun j => j < maxFilename && name j == path.getD j 0

/-- The test of an entry: both `continue`s and the condition of the `kprint`s. -/
def lists (inode : Inode) (path : List UInt8) : Bool :=
  if !inode.isActive || (path = [0x2F] && inode.id = 0) then false
  else
    listMatches inode.name path &&
      (path = [0x2F] || (path.length < maxFilename && inode.name path.length != 0))

/-- `vfs_list_directory`: its result, and the inodes whose names it prints. A null path is
`none`. -/
def vfsListDirectory (s : State) (path : Option (List UInt8)) : ℤ × List ℕ :=
  match path with
  | none => (einval,[])
  | some path => (0,(List.range s.inodeCount).filter fun i => lists (s.inodes i) path)

/-- The path of an entry: its name up to a NUL, or the whole array. -/
def Inode.path (inode : Inode) : List UInt8 := (bytesAt inode.name 0 maxFilename).takeWhile (· ≠ 0)

/-- The path of a directory, then `/`, then at least one more byte. -/
def Below (dir path : List UInt8) : Prop := dir++[0x2F] <+: path ∧ dir.length+1 < path.length

instance (dir path : List UInt8) : Decidable (Below dir path) := inferInstanceAs (Decidable (_ ∧ _))

/-- The listing is the active entries below the directory, in inode order. -/
def ListingExact (s : State) (dir : List UInt8) : Prop :=
  (vfsListDirectory s (some dir)).2 =
    (List.range maxInodes).filter fun i => (s.inodes i).isActive && Below dir (s.inodes i).path

section Match
variable {inode : Inode} {path : List UInt8}

theorem listMatches_iff {name : ℕ → UInt8} :
    listMatches name path = true ↔ path.length ≤ maxFilename ∧ bytesAt name 0 path.length = path := by
  have hbytes : bytesAt name 0 path.length = path ↔ ∀ j < path.length, name j = path.getD j 0 := by
    constructor
    · intro h j hj
      rw [← h]
      simp [Bytes.bytesAt_eq_map,hj]
    · intro h
      apply List.ext_getElem (Bytes.bytesAt_length _ _ _)
      intro j hj hj'
      simp [Bytes.bytesAt_eq_map,h j hj',hj']
  rw [hbytes]
  simp only [listMatches,List.all_eq_true,List.mem_range,Bool.and_eq_true,decide_eq_true_eq,beq_iff_eq]
  constructor
  · intro h
    refine ⟨?_,fun j hj => (h j hj).2⟩
    by_contra hlong
    exact absurd (h maxFilename (not_le.mp hlong)).1 (lt_irrefl _)
  · rintro ⟨hle,h⟩ j hj
    exact ⟨hj.trans_le hle,h j hj⟩

theorem path_of_matches (hnul : 0 ∉ path) (h : listMatches inode.name path = true) :
    inode.path =
      path++(bytesAt inode.name path.length (maxFilename-path.length)).takeWhile (· ≠ 0) := by
  obtain ⟨hle,hbytes⟩ := listMatches_iff.mp h
  have hsplit : bytesAt inode.name 0 maxFilename =
      path++bytesAt inode.name path.length (maxFilename-path.length) := by
    have hadd := Bytes.bytesAt_add inode.name 0 path.length (maxFilename-path.length)
    rwa [Nat.add_sub_cancel' hle,hbytes,Nat.zero_add] at hadd
  rw [Inode.path,hsplit]
  refine List.takeWhile_append_of_pos fun c hc => ?_
  simpa using fun hzero : c = 0 => hnul (hzero ▸ hc)

theorem listMatches_iff_starts (hnul : 0 ∉ path) :
    listMatches inode.name path = true ↔ path <+: inode.path := by
  constructor
  · intro h
    rw [path_of_matches hnul h]
    exact List.prefix_append _ _
  · intro h
    have hbytes := h.trans (List.takeWhile_prefix _)
    have hle := hbytes.length_le
    rw [Bytes.bytesAt_length] at hle
    refine listMatches_iff.mpr ⟨hle,?_⟩
    have htake := Bytes.take_drop_bytesAt inode.name 0 (o := 0) (t := path.length) (by simpa using hle)
    rw [List.drop_zero] at htake
    rw [← htake]
    exact (List.prefix_iff_eq_take.mp hbytes).symm

/-- For a directory other than `/` the entries that are printed are those whose path goes
on behind the path of the directory. -/
theorem lists_iff (hroot : path ≠ [0x2F]) (hnul : 0 ∉ path) (hlt : path.length < maxFilename) :
    lists inode path = true ↔
      inode.isActive = true ∧ path <+: inode.path ∧ path.length < inode.path.length := by
  have hrest : listMatches inode.name path = true →
      (inode.name path.length ≠ 0 ↔ path.length < inode.path.length) := by
    intro h
    obtain ⟨n,hn⟩ : ∃ n, maxFilename-path.length = n+1 := ⟨maxFilename-path.length-1,by omega⟩
    rw [path_of_matches hnul h,hn,bytesAt]
    by_cases hzero : inode.name path.length = 0
    · simp [hzero]
    · simp [hzero]
  simp only [lists,hroot,decide_false,Bool.false_and,Bool.or_false,Bool.false_or]
  cases hactive : inode.isActive with
  | false => simp
  | true =>
    by_cases hmatch : listMatches inode.name path = true
    · have hstart := (listMatches_iff_starts hnul).mp hmatch
      simp [hmatch,hlt,hstart,← hrest hmatch]
    · have hstart := mt (listMatches_iff_starts hnul).mpr hmatch
      simp [hmatch,hstart]

theorem Below.starts {dir path : List UInt8} (h : Below dir path) :
    dir <+: path ∧ dir.length < path.length :=
  ⟨(List.prefix_append _ _).trans h.1,by have := h.2; omega⟩

end Match

/-- Every active entry whose path begins with the path of the directory and goes on goes
on with `/` and at least one more byte. -/
def Separated (s : State) (dir : List UInt8) : Prop :=
  ∀ i, (s.inodes i).isActive = true → dir <+: (s.inodes i).path → dir ≠ (s.inodes i).path →
    Below dir (s.inodes i).path

theorem listed_eq {s : State} {names : List (List UInt8)} (h : Holding s names) (dir : List UInt8) :
    (vfsListDirectory s (some dir)).2 =
      (List.range maxInodes).filter fun i => lists (s.inodes i) dir := by
  have hcount : s.inodeCount ≤ maxInodes := h.count ▸ h.bound
  obtain ⟨n,hn⟩ := Nat.exists_eq_add_of_le hcount
  have hbehind : ((List.range n).map (s.inodeCount+·)).filter (fun i => lists (s.inodes i) dir) = [] := by
    simp only [List.filter_eq_nil_iff,List.mem_map,List.mem_range]
    rintro i ⟨k,-,rfl⟩
    have hidle : (s.inodes (s.inodeCount+k)).isActive = false := by
      rw [← Bool.not_eq_true,active_iff h]
      omega
    simp [lists,hidle]
  rw [hn,List.range_add,List.filter_append,hbehind,List.append_nil]
  rfl

theorem listingExact_iff {s : State} {names : List (List UInt8)} (h : Holding s names)
    {dir : List UInt8} (hroot : dir ≠ [0x2F]) (hnul : 0 ∉ dir) (hlt : dir.length < maxFilename) :
    ListingExact s dir ↔ Separated s dir := by
  have hlists := fun i => @lists_iff (s.inodes i) dir hroot hnul hlt
  rw [ListingExact,listed_eq h]
  constructor
  · intro heq i hactive hstart hne
    have hi : i ∈ List.range maxInodes := by
      have hlt := (active_iff h i).mp hactive
      have hcount : s.inodeCount ≤ maxInodes := h.count ▸ h.bound
      exact List.mem_range.mpr (hlt.trans_le hcount)
    have hlonger : dir.length < (s.inodes i).path.length :=
      lt_of_le_of_ne hstart.length_le fun hlen => hne (hstart.eq_of_length hlen)
    have hmem : i ∈ (List.range maxInodes).filter fun i => lists (s.inodes i) dir :=
      List.mem_filter.mpr ⟨hi,(hlists i).mpr ⟨hactive,hstart,hlonger⟩⟩
    rw [heq] at hmem
    simpa [hactive] using (List.mem_filter.mp hmem).2
  · intro hsep
    apply List.filter_congr
    intro i hi
    rw [Bool.eq_iff_iff,hlists,Bool.and_eq_true,decide_eq_true_eq]
    constructor
    · rintro ⟨hactive,hstart,hlonger⟩
      refine ⟨hactive,hsep i hactive hstart ?_⟩
      rintro heq
      exact absurd (congrArg List.length heq) hlonger.ne
    · rintro ⟨hactive,hbelow⟩
      exact ⟨hactive,hbelow.starts⟩

/-- After every run, the listing of a directory is exact just if no active entry's path
goes on behind that of the directory other than with `/` and a name. -/
theorem listing_exact_iff (disk : Disk) (ops : List Op) (dir : List UInt8) (hroot : dir ≠ [0x2F])
    (hnul : 0 ∉ dir) (hlt : dir.length < maxFilename) :
    ListingExact (after disk ops) dir ↔ Separated (after disk ops) dir :=
  listingExact_iff (holding_after disk ops) hroot hnul hlt

def siblingOps : List Op := [.sysMkdir [0x2F,0x75,0x73,0x65,0x72,0x32]]

/-- The listing of `/logs`, which has no siblings of that kind, is exact. -/
theorem listing_exact_logs : ListingExact (after blankDisk siblingOps) [0x2F,0x6C,0x6F,0x67,0x73] := by
  refine (listing_exact_iff blankDisk siblingOps _ (by decide) (by decide) (by decide)).mpr ?_
  intro i hactive
  rw [active_iff (holding_after blankDisk siblingOps),(holding_after blankDisk siblingOps).count] at hactive
  have hlt : i < 8 := hactive.trans_eq (by decide +kernel)
  interval_cases i
  all_goals decide +kernel

/-- The listing of `/user` has `/user2` in it. -/
theorem sibling_listed : ¬ ListingExact (after blankDisk siblingOps) [0x2F,0x75,0x73,0x65,0x72] := by
  unfold ListingExact
  decide +kernel

end Vfs
end ValiantCore
