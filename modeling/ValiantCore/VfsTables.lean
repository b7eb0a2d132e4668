import ValiantCore.VfsEntries

/-! The two tables of the file system in every reachable state: which inodes are in use,
that no two of them carry one name, and what an open descriptor refers to. -/
namespace ValiantCore
namespace Vfs

open Fat32 (Sector Disk)

/-- The inode table and the descriptor table fit together. -/
structure Sound (s : State) : Prop where
  count_le : s.inodeCount ≤ maxInodes
  active_iff : ∀ i < maxInodes, (s.inodes i).isActive = true ↔ i < s.inodeCount
  id_eq : ∀ i < s.inodeCount, (s.inodes i).id = i
  names_differ : ∀ i < s.inodeCount, ∀ j < s.inodeCount, i ≠ j →
    ∃ k < maxFilename, (s.inodes i).name k ≠ (s.inodes j).name k
  fd_ge : ∀ fd, (s.files fd).active = true → 3 ≤ fd
  inode_lt : ∀ fd, (s.files fd).active = true → (s.files fd).inodeIdx < s.inodeCount

section Names
variable {s : State} {names : List (List UInt8)}

theorem padded_eq {path : List UInt8} {k : ℕ} (hk : k < min path.length maxFilename) :
    padded path k = path.getD k 0 := if_pos hk

theorem names_differ_of_lt (h : Holding s names) {i j : ℕ} (hij : i < j) (hj : j < s.inodeCount) :
    ∃ k < maxFilename, (s.inodes i).name k ≠ (s.inodes j).name k := by
  obtain ⟨earlier,hearlier⟩ := h.getElem (hij.trans hj)
  obtain ⟨later,hlater⟩ := h.getElem hj
  obtain ⟨_,hi⟩ := h.entry i earlier hearlier
  obtain ⟨_,hj'⟩ := h.entry j later hlater
  obtain ⟨hil,rfl⟩ := List.getElem?_eq_some_iff.mp hearlier
  obtain ⟨hjl,rfl⟩ := List.getElem?_eq_some_iff.mp hlater
  have hno := List.pairwise_iff_getElem.mp h.apart i j hil hjl hij
  by_contra hall
  simp only [not_exists,not_and,ne_eq,not_not,hi,hj',entryInode] at hall
  have hmatch : answers names[i] names[j] = true := by
    apply nameMatches_iff.mpr
    intro k hk
    rw [hall k (hk.trans_le (min_le_right _ _)),padded_eq hk]
  rw [hmatch] at hno
  exact Bool.noConfusion hno

theorem names_differ (h : Holding s names) {i j : ℕ} (hi : i < s.inodeCount) (hj : j < s.inodeCount)
    (hij : i ≠ j) : ∃ k < maxFilename, (s.inodes i).name k ≠ (s.inodes j).name k := by
  rcases lt_or_gt_of_ne hij with hlt | hgt
  · exact names_differ_of_lt h hlt hj
  · obtain ⟨k,hk,hne⟩ := names_differ_of_lt h hgt hi
    exact ⟨k,hk,hne.symm⟩

end Names

def FdsFrom3 (s : State) : Prop := ∀ fd, (s.files fd).active = true → 3 ≤ fd

theorem fdsFrom3_init (disk : Disk) : FdsFrom3 (init (State.new disk)) := by
  intro fd hfd
  rw [init,createEntries_frame State.files fun s path isDir => (createEntry_frame s path isDir).2] at hfd
  simp [State.new,File.new] at hfd

theorem FdsFrom3.openInode {s : State} (h : FdsFrom3 s) (idx flags : ℕ) :
    FdsFrom3 (openInode s idx flags).1 := by
  rcases openInode_cases s idx flags with ⟨heq,-⟩ | ⟨fd,h3,-,-,heq⟩
  · rw [heq]
    exact h
  · rw [heq]
    intro i hi
    by_cases hfd : i = fd
    · exact hfd ▸ h3
    · simp only [setFile_files,Function.update_of_ne hfd] at hi
      exact h i hi

theorem fdsFrom3_step {s : State} {names : List (List UInt8)} (hs : Holding s names)
    (h : FdsFrom3 s) (op : Op) : FdsFrom3 (step s op).1 := by
  cases op with
  | sysOpen path flags =>
    simp only [step]
    rcases sysOpen_cases hs path flags with ⟨idx,-,-,heq⟩ | ⟨-,-,-,heq⟩ | ⟨e,-,heq,-⟩
    · rw [heq]
      exact h.openInode idx flags
    · rw [heq]
      apply FdsFrom3.openInode
      exact h
    · rw [heq]
      exact h
  | sysMkdir path =>
    simp only [step,sysMkdir,createEntry]
    split_ifs <;> exact h
  | _ =>
    intro fd hfd
    exact h fd ((step_frame s _ (by simp) (by simp)).2.2 fd hfd).1

theorem fdsFrom3_after (disk : Disk) (ops : List Op) : FdsFrom3 (after disk ops) := by
  induction ops using List.reverseRecOn with
  | nil => exact fdsFrom3_init disk
  | append_singleton ops op ih =>
    rw [after_concat]
    exact fdsFrom3_step (holding_after disk ops) ih op

/-- In every state after `vfs_init` the tables are sound, and a descriptor that `sys_open`
would return there is not in use. -/
theorem tables_sound (disk : Disk) (ops : List Op) :
    Sound (after disk ops) ∧
      ∀ (path : List UInt8) (flags fd : ℕ), (sysOpen (after disk ops) path flags).2 = fd →
        fd < maxOpenFiles ∧ ((after disk ops).files fd).active = false := by
  have h := holding_after disk ops
  refine ⟨?_,fun path flags fd hret => ?_⟩
  swap
  · obtain ⟨hlt,hfree,-⟩ := sysOpen_returns h hret
    exact ⟨hlt,hfree⟩
  constructor
  · rw [h.count]
    exact h.bound
  · exact fun i _ => active_iff h i
  · intro i hi
    obtain ⟨name,hname⟩ := h.getElem hi
    obtain ⟨isDir,hinode⟩ := h.entry i name hname
    rw [hinode]
    rfl
  · exact fun i hi j hj hij => names_differ h hi hj hij
  · exact fdsFrom3_after disk ops
  · intro fd hfd
    rw [h.count]
    exact h.open_lt fd hfd

end Vfs
end ValiantCore
