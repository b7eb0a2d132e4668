import ValiantCore.VfsEntries
import Mathlib.Data.Set.Basic

/-! Path resolution. The comparison of `find_file` ends where the path or the name array
does, so a path resolves to the first entry whose name begins with it, up to 64 bytes. -/
namespace ValiantCore
namespace Vfs

open Fat32 (Sector Disk)

def FreeFd (s : State) : Prop := ∃ fd, 3 ≤ fd ∧ fd < maxOpenFiles ∧ (s.files fd).active = false

/-- Over the paths of `P`, resolution is exact: a call of `sys_open` that neither creates
nor excludes succeeds for the created paths only, given a free descriptor, and turns the
descriptor to the entry of the path; and no two paths share an inode. -/
structure Exact (s : State) (names : List (List UInt8)) (P : Set (List UInt8)) : Prop where
  opens : ∀ path ∈ P, ∀ flags, flags &&& oCreat = 0 → flags &&& oExcl = 0 → FreeFd s →
    (0 ≤ (sysOpen s path flags).2 ↔ path ∈ names)
  refers : ∀ path ∈ P, ∀ flags, flags &&& oCreat = 0 → flags &&& oExcl = 0 → ∀ fd : ℕ,
    (sysOpen s path flags).2 = fd →
      names[((sysOpen s path flags).1.files fd).inodeIdx]? = some path
  separate : ∀ p ∈ P, ∀ q ∈ P, ∀ idx, findFile s p = some idx → findFile s q = some idx → p = q

/-- The path has been created, or no created entry answers to it. -/
def Clear (names : List (List UInt8)) (path : List UInt8) : Prop :=
  path ∈ names ∨ ∀ name ∈ names, answers name path = false

section Resolution
variable {s : State} {names : List (List UInt8)}

theorem sysOpen_plain (h : Holding s names) (path : List UInt8) {flags : ℕ}
    (hc : flags &&& oCreat = 0) (hx : flags &&& oExcl = 0) :
    (findFile s path = none ∧ (sysOpen s path flags).2 < 0) ∨
    ∃ idx, findFile s path = some idx ∧ sysOpen s path flags = openInode s idx flags := by
  rcases sysOpen_cases h path flags with ⟨idx,hfind,-,heq⟩ | ⟨-,hcreat,-⟩ | ⟨e,he,heq,hcause⟩
  · exact Or.inr ⟨idx,hfind,heq⟩
  · exact absurd hc hcreat
  · rcases hcause with ⟨-,hexcl⟩ | ⟨hnone,-⟩
    · exact absurd hx hexcl
    · exact Or.inl ⟨hnone,by rw [heq]; exact he⟩

theorem openInode_free (hfree : FreeFd s) (idx flags : ℕ) : 0 ≤ (openInode s idx flags).2 := by
  obtain ⟨fd,h3,hlt,hinactive⟩ := hfree
  rcases openInode_cases s idx flags with ⟨-,hfull⟩ | ⟨i,-,-,-,heq⟩
  · simp [hfull fd h3 hlt] at hinactive
  · rw [heq]
    exact Int.natCast_nonneg i

theorem openInode_refers {idx flags fd : ℕ} (h : (openInode s idx flags).2 = fd) :
    ((openInode s idx flags).1.files fd).inodeIdx = idx := by
  rcases openInode_cases s idx flags with ⟨heq,-⟩ | ⟨i,-,-,-,heq⟩
  · rw [heq] at h
    exact absurd h (by unfold emfile; omega)
  · rw [heq] at h ⊢
    obtain rfl : i = fd := by simpa using h
    simp

theorem own_entry_of_clear (h : Holding s names) {path : List UInt8} (hclear : Clear names path)
    {idx : ℕ} (hfind : findFile s path = some idx) : names[idx]? = some path := by
  rcases hclear with hmem | hnone
  · obtain ⟨i,hi⟩ := List.getElem?_of_mem hmem
    obtain rfl : i = idx := Option.some.inj ((findFile_created h hi).symm.trans hfind)
    exact hi
  · rw [(findFile_eq_none h).mpr hnone] at hfind
    simp at hfind

theorem exact_of_clear (h : Holding s names) {P : Set (List UInt8)}
    (hclear : ∀ path ∈ P, Clear names path) : Exact s names P where
  opens := by
    intro path hp flags hc hx hfree
    rcases sysOpen_plain h path hc hx with ⟨hnone,hneg⟩ | ⟨idx,hfind,heq⟩
    · constructor
      · intro hpos
        omega
      · intro hmem
        obtain ⟨i,hi⟩ := List.getElem?_of_mem hmem
        rw [findFile_created h hi] at hnone
        simp at hnone
    · rw [heq]
      have hown := own_entry_of_clear h (hclear path hp) hfind
      exact iff_of_true (openInode_free hfree idx flags) (List.mem_of_getElem? hown)
  refers := by
    intro path hp flags hc hx fd hfd
    rcases sysOpen_plain h path hc hx with ⟨-,hneg⟩ | ⟨idx,hfind,heq⟩
    · omega
    · rw [heq] at hfd ⊢
      rw [openInode_refers hfd]
      exact own_entry_of_clear h (hclear path hp) hfind
  separate := by
    intro p hp q hq idx hfp hfq
    have hown := own_entry_of_clear h (hclear p hp) hfp
    exact Option.some.inj (hown.symm.trans (own_entry_of_clear h (hclear q hq) hfq))

theorem clear_of_exact (h : Holding s names) (hfree : FreeFd s) {P : Set (List UInt8)}
    (hexact : Exact s names P) : ∀ path ∈ P, Clear names path := by
  intro path hp
  by_cases hmem : path ∈ names
  · exact Or.inl hmem
  · have hno := mt (hexact.opens path hp 0 rfl rfl hfree).mp hmem
    rcases @sysOpen_plain s names h path 0 rfl rfl with ⟨hnone,-⟩ | ⟨idx,-,heq⟩
    · exact Or.inr ((findFile_eq_none h).mp hnone)
    · rw [heq] at hno
      exact absurd (openInode_free hfree idx 0) hno

end Resolution

/-- After every run, the paths of a set resolve exactly if each of them has been created
or is answered by no created entry; and, as long as a descriptor is free, only then. -/
theorem paths_exact (disk : Disk) (ops : List Op) (P : Set (List UInt8)) :
    ((∀ path ∈ P, Clear (created disk ops) path) → Exact (after disk ops) (created disk ops) P) ∧
    (FreeFd (after disk ops) → Exact (after disk ops) (created disk ops) P →
      ∀ path ∈ P, Clear (created disk ops) path) :=
  ⟨exact_of_clear (holding_after disk ops),fun hfree => clear_of_exact (holding_after disk ops) hfree⟩

def blankDisk : Disk := ⟨fun _ => ⟨fun _ => 0⟩,fun _ => false,0⟩

/-- Right after `vfs_init` the path `/b`, which nobody created, opens `/boot`. -/
theorem uncreated_path_opens : ¬ Exact (after blankDisk []) (created blankDisk []) Set.univ := by
  intro h
  have hopens := (h.opens [0x2F,0x62] (Set.mem_univ _) 0 rfl rfl ⟨3,by decide +kernel⟩).mp
    (by decide +kernel)
  exact absurd hopens (by decide)

end Vfs
end ValiantCore
