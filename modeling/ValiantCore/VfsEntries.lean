import ValiantCore.Vfs

/-! The entries of the file system over a run: what each call does to the inode table,
and the list of paths that have been created, in the order of their inodes. -/
namespace ValiantCore
namespace Vfs

open Fat32 (Sector Disk)

/-- The name array of an entry created for the path: cut off or filled up with zeros. -/
def padded (path : List UInt8) : ℕ → UInt8 := copyName path fun _ => 0

/-- The entry created for `name` is a hit in a search for `path`. -/
def answers (name path : List UInt8) : Bool := nameMatches (padded name) path

theorem nameMatches_iff {name : ℕ → UInt8} {path : List UInt8} :
    nameMatches name path = true ↔ ∀ j < min path.length maxFilename, name j = path.getD j 0 := by
  simp [nameMatches]

theorem answers_self (path : List UInt8) : answers path path = true := by
  apply nameMatches_iff.mpr
  intro j hj
  exact if_pos hj

def entryInode (i : ℕ) (path : List UInt8) (isDir : Bool) : Inode :=
  ⟨i,true,isDir,0,100+i,0o644,0,padded path⟩

def addEntry (s : State) (path : List UInt8) (isDir : Bool) : State :=
  { s with
    inodes := Function.update s.inodes s.inodeCount (entryInode s.inodeCount path isDir)
    inodeCount := s.inodeCount+1 }

/-- The inode table holds one active entry for each of `names`, and zeros behind. -/
structure Holding (s : State) (names : List (List UInt8)) : Prop where
  count : s.inodeCount = names.length
  bound : names.length ≤ maxInodes
  entry : ∀ i name, names[i]? = some name → ∃ isDir, s.inodes i = entryInode i name isDir
  fresh : ∀ i, names.length ≤ i → s.inodes i = Inode.new
  apart : names.Pairwise fun earlier later => answers earlier later = false
  open_lt : ∀ fd, (s.files fd).active = true → (s.files fd).inodeIdx < names.length

section Lookup
variable {s : State} {names : List (List UInt8)}

theorem Holding.hit (h : Holding s names) {i : ℕ} {name : List UInt8} (hi : names[i]? = some name)
    (path : List UInt8) :
    ((s.inodes i).isActive && nameMatches (s.inodes i).name path) = answers name path := by
  obtain ⟨isDir,he⟩ := h.entry i name hi
  simp [he,entryInode,answers]

theorem active_of_good {fd : ℕ} (h : badFd s fd = false) : (s.files fd).active = true := by
  simp only [badFd,Bool.or_eq_false_iff,Bool.not_eq_false'] at h
  exact h.2

theorem Holding.getElem (h : Holding s names) {i : ℕ} (hi : i < s.inodeCount) :
    ∃ name, names[i]? = some name :=
  ⟨_,List.getElem?_eq_getElem (h.count ▸ hi)⟩

theorem active_iff (h : Holding s names) (i : ℕ) :
    (s.inodes i).isActive = true ↔ i < s.inodeCount := by
  constructor
  · intro hactive
    by_contra hge
    rw [h.fresh i (h.count ▸ not_lt.mp hge)] at hactive
    exact Bool.noConfusion hactive
  · intro hi
    obtain ⟨name,hname⟩ := h.getElem hi
    obtain ⟨isDir,hinode⟩ := h.entry i name hname
    rw [hinode]
    rfl

theorem Holding.openEntry (h : Holding s names) {fd : ℕ} (hopen : badFd s fd = false) :
    ∃ name isDir, s.inodes (s.files fd).inodeIdx = entryInode (s.files fd).inodeIdx name isDir := by
  obtain ⟨name,hname⟩ := h.getElem (h.count ▸ h.open_lt fd (active_of_good hopen))
  exact ⟨name,h.entry _ name hname⟩

theorem findFile_eq_some (h : Holding s names) {path : List UInt8} {i : ℕ} :
    findFile s path = some i ↔ (∃ name, names[i]? = some name ∧ answers name path = true) ∧
      ∀ j < i, ∀ name, names[j]? = some name → answers name path = false := by
  rw [findFile,Slots.firstSlot_eq_some]
  constructor
  · rintro ⟨hi,hhit,hfirst⟩
    obtain ⟨name,hname⟩ := h.getElem hi
    refine ⟨⟨name,hname,by rw [← h.hit hname,hhit]⟩,fun j hj other hother => ?_⟩
    rw [← h.hit hother,hfirst j hj]
  · rintro ⟨⟨name,hname,hans⟩,hfirst⟩
    have hi : i < s.inodeCount := by
      rw [h.count]
      exact (List.getElem?_eq_some_iff.mp hname).1
    refine ⟨hi,by rw [h.hit hname,hans],fun j hj => ?_⟩
    obtain ⟨other,hother⟩ := h.getElem (hj.trans hi)
    rw [h.hit hother,hfirst j hj other hother]

theorem findFile_eq_none (h : Holding s names) {path : List UInt8} :
    findFile s path = none ↔ ∀ name ∈ names, answers name path = false := by
  rw [findFile,Slots.firstSlot_eq_none]
  constructor
  · intro hnone name hname
    obtain ⟨i,hi⟩ := List.getElem?_of_mem hname
    rw [← h.hit hi]
    exact hnone i (by rw [h.count]; exact (List.getElem?_eq_some_iff.mp hi).1)
  · intro hnone i hi
    obtain ⟨name,hname⟩ := h.getElem hi
    rw [h.hit hname]
    exact hnone name (List.mem_of_getElem? hname)

theorem findFile_created (h : Holding s names) {path : List UInt8} {i : ℕ}
    (hi : names[i]? = some path) : findFile s path = some i := by
  rw [findFile_eq_some h]
  refine ⟨⟨path,hi,answers_self path⟩,fun j hj name hname => ?_⟩
  obtain ⟨hil,rfl⟩ := List.getElem?_eq_some_iff.mp hi
  obtain ⟨hjl,rfl⟩ := List.getElem?_eq_some_iff.mp hname
  exact List.pairwise_iff_getElem.mp h.apart j i hjl hil hj

end Lookup

theorem createEntry_full {s : State} (h : maxInodes ≤ s.inodeCount) (path : List UInt8)
    (isDir : Bool) : createEntry s path isDir = (s,-1) := if_pos h

theorem createEntry_eq {s : State} {names : List (List UInt8)} (h : Holding s names)
    (hlt : s.inodeCount < maxInodes) (path : List UInt8) (isDir : Bool) :
    createEntry s path isDir = (addEntry s path isDir,(s.inodeCount : ℤ)) := by
  have hnew : s.inodes s.inodeCount = Inode.new := h.fresh _ h.count.ge
  simp only [createEntry,if_neg (not_le.mpr hlt),hnew]
  rfl

theorem Holding.addEntry {s : State} {names : List (List UInt8)} (h : Holding s names)
    (hlt : s.inodeCount < maxInodes) {path : List UInt8} (hnone : findFile s path = none)
    (isDir : Bool) : Holding (addEntry s path isDir) (names++[path]) where
  count := by simp [Vfs.addEntry,h.count]
  bound := by
    rw [List.length_append,← h.count]
    exact hlt
  entry := by
    intro i name hi
    rcases Nat.lt_trichotomy i names.length with hlt | rfl | hgt
    · rw [List.getElem?_append_left hlt] at hi
      simpa [Vfs.addEntry,h.count,hlt.ne] using h.entry i name hi
    · obtain rfl : path = name := by simpa using hi
      exact ⟨isDir,by simp [Vfs.addEntry,h.count]⟩
    · have hil := (List.getElem?_eq_some_iff.mp hi).1
      rw [List.length_append,List.length_singleton] at hil
      omega
  fresh := by
    intro i hi
    rw [List.length_append,List.length_singleton] at hi
    have hne : i ≠ names.length := by omega
    simpa [Vfs.addEntry,h.count,hne] using h.fresh i (by omega)
  apart := by
    rw [List.pairwise_append]
    refine ⟨h.apart,by simp,fun name hname other hother => ?_⟩
    rw [List.mem_singleton.mp hother]
    exact (findFile_eq_none h).mp hnone name hname
  open_lt := by
    intro fd hfd
    rw [List.length_append]
    exact (h.open_lt fd hfd).trans_le (Nat.le_add_right _ _)

theorem holding_foldl {paths : List (List UInt8)} {s : State} {names : List (List UInt8)}
    (h : Holding s names) (hlen : names.length+paths.length ≤ maxInodes)
    (hapart : (names++paths).Pairwise fun earlier later => answers earlier later = false) :
    Holding (paths.foldl (fun s path => (createEntry s path true).1) s) (names++paths) := by
  induction paths generalizing s names with
  | nil => simpa using h
  | cons path paths ih =>
    rw [List.length_cons] at hlen
    have hlt : s.inodeCount < maxInodes := by
      rw [h.count]
      omega
    have hnone : findFile s path = none := by
      rw [findFile_eq_none h]
      intro name hname
      exact (List.pairwise_append.mp hapart).2.2 name hname path (by simp)
    rw [List.append_cons] at hapart ⊢
    rw [List.foldl_cons,createEntry_eq h hlt]
    exact ih (h.addEntry hlt hnone true) (by simp; omega) hapart

theorem createEntry_frame (s : State) (path : List UInt8) (isDir : Bool) :
    (createEntry s path isDir).1.disk = s.disk ∧ (createEntry s path isDir).1.files = s.files := by
  unfold createEntry
  split_ifs <;> exact ⟨rfl,rfl⟩

theorem createEntries_frame {A : Type} (f : State → A)
    (h : ∀ s path isDir, f (createEntry s path isDir).1 = f s) (paths : List (List UInt8)) (s : State) :
    f (paths.foldl (fun s path => (createEntry s path true).1) s) = f s := by
  induction paths generalizing s with
  | nil => rfl
  | cons path paths ih => rw [List.foldl_cons,ih,h]

theorem holding_init (disk : Disk) : Holding (init (State.new disk)) initialEntries := by
  unfold init
  refine @holding_foldl initialEntries _ [] ?_ (by decide) (by decide +kernel)
  refine ⟨rfl,by simp,by simp,fun _ _ => rfl,.nil,?_⟩
  intro fd hfd
  simp [State.new,File.new] at hfd

theorem openInode_cases (s : State) (idx flags : ℕ) :
    (openInode s idx flags = (s,emfile) ∧
      ∀ fd, 3 ≤ fd → fd < maxOpenFiles → (s.files fd).active = true) ∨
    ∃ fd, 3 ≤ fd ∧ fd < maxOpenFiles ∧ (s.files fd).active = false ∧
      openInode s idx flags =
        ({ s.setFile fd
            { inodeIdx := idx, pos := if flags &&& oAppend ≠ 0 then (s.inodes idx).sizeBytes else 0,
              flags, count := 1, uid := 0, active := true } with
          totalOpens := u64 (s.totalOpens+1) },(fd : ℤ)) := by
  cases h : Slots.firstSlot maxOpenFiles (fun fd => 3 ≤ fd && !(s.files fd).active) with
  | none =>
    refine Or.inl ⟨by unfold openInode; rw [h],fun fd h3 hlt => ?_⟩
    simpa [h3] using Slots.firstSlot_eq_none.mp h fd hlt
  | some fd =>
    obtain ⟨hlt,hfree,-⟩ := Slots.firstSlot_eq_some.mp h
    simp only [Bool.and_eq_true,decide_eq_true_eq,Bool.not_eq_true'] at hfree
    exact Or.inr ⟨fd,hfree.1,hlt,hfree.2,by unfold openInode; rw [h]⟩

/-- The ways `sys_open` ends: it opens the entry it finds, it opens the entry it creates,
or it is refused and changes nothing. -/
theorem sysOpen_cases {s : State} {names : List (List UInt8)} (h : Holding s names)
    (path : List UInt8) (flags : ℕ) :
    (∃ idx, findFile s path = some idx ∧ flags &&& oExcl = 0 ∧
      sysOpen s path flags = openInode s idx flags) ∨
    (findFile s path = none ∧ flags &&& oCreat ≠ 0 ∧ s.inodeCount < maxInodes ∧
      sysOpen s path flags = openInode (addEntry s path false) s.inodeCount flags) ∨
    (∃ e < 0, sysOpen s path flags = (s,e) ∧
      ((findFile s path).isSome ∧ flags &&& oExcl ≠ 0 ∨
        findFile s path = none ∧ (flags &&& oCreat = 0 ∨ maxInodes ≤ s.inodeCount))) := by
  cases hfind : findFile s path with
  | some idx =>
    by_cases hx : flags &&& oExcl = 0
    · exact Or.inl ⟨idx,rfl,hx,by simp [sysOpen,hfind,hx]⟩
    · exact Or.inr (Or.inr ⟨eexist,by decide,by simp [sysOpen,hfind,hx],Or.inl ⟨rfl,hx⟩⟩)
  | none =>
    by_cases hc : flags &&& oCreat = 0
    · exact Or.inr (Or.inr ⟨enoent,by decide,by simp [sysOpen,hfind,hc],Or.inr ⟨rfl,Or.inl hc⟩⟩)
    · by_cases hfull : maxInodes ≤ s.inodeCount
      · refine Or.inr (Or.inr ⟨eio,by decide,?_,Or.inr ⟨rfl,Or.inr hfull⟩⟩)
        simp [sysOpen,hfind,hc,createEntry_full hfull]
      · refine Or.inr (Or.inl ⟨rfl,hc,not_le.mp hfull,?_⟩)
        simp [sysOpen,hfind,hc,createEntry_eq h (not_le.mp hfull)]

theorem openInode_returns {s : State} {idx flags fd : ℕ} (hret : (openInode s idx flags).2 = fd) :
    fd < maxOpenFiles ∧ (s.files fd).active = false ∧ badFd (openInode s idx flags).1 fd = false := by
  rcases openInode_cases s idx flags with ⟨heq,-⟩ | ⟨i,-,hlt,hfree,heq⟩
  · rw [heq] at hret
    exact absurd hret (by unfold emfile; omega)
  · rw [heq] at hret ⊢
    obtain rfl : i = fd := by simpa using hret
    exact ⟨hlt,hfree,by simp [badFd,hlt.not_ge]⟩

theorem sysOpen_returns {s : State} {names : List (List UInt8)} (h : Holding s names)
    {path : List UInt8} {flags fd : ℕ} (hret : (sysOpen s path flags).2 = fd) :
    fd < maxOpenFiles ∧ (s.files fd).active = false ∧
      badFd (sysOpen s path flags).1 fd = false := by
  rcases sysOpen_cases h path flags with ⟨idx,-,-,heq⟩ | ⟨-,-,-,heq⟩ | ⟨e,he,heq,-⟩
  · rw [heq] at hret ⊢
    exact openInode_returns hret
  · rw [heq] at hret ⊢
    obtain ⟨hlt,hfree,hopen⟩ := openInode_returns hret
    exact ⟨hlt,by simpa [addEntry] using hfree,hopen⟩
  · rw [heq] at hret
    exact absurd hret (by simp only; omega)

def createdPath (s : State) : Op → Option (List UInt8)
  | .sysOpen path flags =>
    if (findFile s path).isNone && flags &&& oCreat ≠ 0 && s.inodeCount < maxInodes then some path
    else none
  | .sysMkdir path =>
    if (findFile s path).isNone && s.inodeCount < maxInodes then some path else none
  | _ => none

theorem Holding.frame {s t : State} {names : List (List UInt8)} (h : Holding s names)
    (hinodes : t.inodes = s.inodes) (hcount : t.inodeCount = s.inodeCount)
    (hfiles : ∀ fd, (t.files fd).active = true →
      (s.files fd).active = true ∧ (t.files fd).inodeIdx = (s.files fd).inodeIdx) :
    Holding t names where
  count := hcount.trans h.count
  bound := h.bound
  entry := by simpa only [hinodes] using h.entry
  fresh := by simpa only [hinodes] using h.fresh
  apart := h.apart
  open_lt := by
    intro fd hfd
    obtain ⟨hact,hidx⟩ := hfiles fd hfd
    exact hidx ▸ h.open_lt fd hact

theorem Holding.openInode {s : State} {names : List (List UInt8)} (h : Holding s names) {idx : ℕ}
    (hidx : idx < names.length) (flags : ℕ) : Holding (openInode s idx flags).1 names := by
  rcases openInode_cases s idx flags with ⟨heq,-⟩ | ⟨fd,-,-,-,heq⟩
  · rw [heq]
    exact h
  · rw [heq]
    refine ⟨h.count,h.bound,h.entry,h.fresh,h.apart,fun i hi => ?_⟩
    by_cases hfd : i = fd
    · simpa [hfd] using hidx
    · simp only [setFile_files,Function.update_of_ne hfd] at hi ⊢
      exact h.open_lt i hi

theorem syncInodes_frame (s : State) (image : ℕ → Sector) (n : ℕ) :
    (syncInodes s image n).1 = { s with disk := (syncInodes s image n).1.disk } := by
  induction n with
  | zero => rfl
  | succ n ih =>
    rw [syncInodes]
    dsimp only
    split_ifs <;> rw [ih]

/-- The calls on descriptors change no inode, open no descriptor and turn none to
another inode. -/
theorem step_frame (s : State) (op : Op) (hopen : ∀ path flags, op ≠ .sysOpen path flags)
    (hmkdir : ∀ path, op ≠ .sysMkdir path) :
    (step s op).1.inodes = s.inodes ∧ (step s op).1.inodeCount = s.inodeCount ∧
      ∀ fd, ((step s op).1.files fd).active = true → (s.files fd).active = true ∧
        ((step s op).1.files fd).inodeIdx = (s.files fd).inodeIdx := by
  have hset : ∀ (t : State) (fd : ℕ) (f : File), t.files = s.files → badFd s fd = false →
      f.inodeIdx = (s.files fd).inodeIdx → ∀ i, ((t.setFile fd f).files i).active = true →
        (s.files i).active = true ∧ ((t.setFile fd f).files i).inodeIdx = (s.files i).inodeIdx := by
    intro t fd f hfiles hgood hidx i hi
    by_cases hfd : i = fd
    · subst hfd
      simpa [hidx] using active_of_good hgood
    · simp only [setFile_files,Function.update_of_ne hfd,hfiles] at hi ⊢
      exact ⟨hi,trivial⟩
  cases op with
  | sysOpen path flags => exact absurd rfl (hopen path flags)
  | sysMkdir path => exact absurd rfl (hmkdir path)
  | sysClose fd =>
    simp only [step,sysClose]
    split_ifs with hbad
    · exact ⟨rfl,rfl,fun i hi => ⟨hi,rfl⟩⟩
    · exact ⟨rfl,rfl,hset s fd _ rfl (by simpa using hbad) rfl⟩
  | sysRead fd =>
    simp only [step,sysRead,advance]
    split_ifs with hbad hend hread
    · exact ⟨rfl,rfl,fun i hi => ⟨hi,rfl⟩⟩
    · exact ⟨rfl,rfl,fun i hi => ⟨hi,rfl⟩⟩
    · exact ⟨rfl,rfl,hset _ fd _ rfl (by simpa using hbad) rfl⟩
    · exact ⟨rfl,rfl,fun i hi => ⟨hi,rfl⟩⟩
  | sysWrite fd byte buf count =>
    simp only [step,sysWrite,advance]
    split_ifs with hbad hro hscan hwrite
    · exact ⟨rfl,rfl,fun i hi => ⟨hi,rfl⟩⟩
    · exact ⟨rfl,rfl,fun i hi => ⟨hi,rfl⟩⟩
    · exact ⟨rfl,rfl,fun i hi => ⟨hi,rfl⟩⟩
    · exact ⟨rfl,rfl,hset _ fd _ rfl (by simpa using hbad) rfl⟩
    · exact ⟨rfl,rfl,fun i hi => ⟨hi,rfl⟩⟩
  | sysLseek fd offset whence =>
    simp only [step,sysLseek]
    split_ifs with hbad
    · exact ⟨rfl,rfl,fun i hi => ⟨hi,rfl⟩⟩
    · exact ⟨rfl,rfl,hset s fd _ rfl (by simpa using hbad) rfl⟩
    · exact ⟨rfl,rfl,hset s fd _ rfl (by simpa using hbad) rfl⟩
    · exact ⟨rfl,rfl,fun i hi => ⟨hi,rfl⟩⟩
  | sysSync image =>
    simp only [step,sysSync]
    rw [syncInodes_frame]
    exact ⟨rfl,rfl,fun i hi => ⟨hi,rfl⟩⟩

theorem holding_step {s : State} {names : List (List UInt8)} (h : Holding s names) (op : Op) :
    Holding (step s op).1 (names++(createdPath s op).toList) := by
  have hframe := step_frame s op
  cases op with
  | sysOpen path flags =>
    simp only [step]
    rcases sysOpen_cases h path flags with
      ⟨idx,hfind,-,heq⟩ | ⟨hfind,hc,hlt,heq⟩ | ⟨e,-,heq,hcause⟩
    · obtain ⟨⟨name,hname,-⟩,-⟩ := (findFile_eq_some h).mp hfind
      rw [heq]
      simpa [createdPath,hfind] using h.openInode (List.getElem?_eq_some_iff.mp hname).1 flags
    · rw [heq,show createdPath s (.sysOpen path flags) = some path from by
        simp [createdPath,hfind,hc,hlt]]
      exact (h.addEntry hlt hfind false).openInode (by simp [h.count]) flags
    · have hnone : createdPath s (.sysOpen path flags) = none := by
        rcases hcause with ⟨hsome,-⟩ | ⟨-,hc | hfull⟩
        · simp [createdPath,Option.isSome_iff_ne_none.mp hsome]
        · simp [createdPath,hc]
        · simp [createdPath,hfull.not_gt]
      rw [heq,hnone]
      simpa using h
  | sysMkdir path =>
    simp only [step,sysMkdir,createdPath]
    cases hfind : findFile s path with
    | some idx => simpa using h
    | none =>
      by_cases hfull : maxInodes ≤ s.inodeCount
      · simpa [createEntry_full hfull,hfull.not_gt] using h
      · have hlt := not_le.mp hfull
        simpa [createEntry_eq h hlt,hlt] using h.addEntry hlt hfind true
  | _ =>
    obtain ⟨hinodes,hcount,hfiles⟩ := hframe (by simp) (by simp)
    simpa [createdPath] using h.frame hinodes hcount hfiles

/-- The paths that `vfs_init` and the run after it have created, in inode order. -/
def created (disk : Disk) (ops : List Op) : List (List UInt8) :=
  initialEntries++(Runs.trace step (init (State.new disk)) ops).flatMap fun e =>
    (createdPath e.before e.op).toList

theorem after_concat (disk : Disk) (ops : List Op) (op : Op) :
    after disk (ops++[op]) = (step (after disk ops) op).1 := by
  apply Runs.exec_concat

theorem created_concat (disk : Disk) (ops : List Op) (op : Op) :
    created disk (ops++[op]) = created disk ops++(createdPath (after disk ops) op).toList := by
  simp [created,Runs.trace_concat,after]

theorem holding_after (disk : Disk) (ops : List Op) : Holding (after disk ops) (created disk ops) := by
  induction ops using List.reverseRecOn with
  | nil => simpa [after,created] using holding_init disk
  | append_singleton ops op ih =>
    rw [after_concat,created_concat]
    exact holding_step ih op

end Vfs
end ValiantCore
