import ValiantCore.VfsPaths
import ValiantCore.VfsStorage

/-! The calls that fail. A call of `sys_open` takes an inode first and a descriptor second,
and does not give the inode back; `sys_lseek` moves the position before it looks at the
sign of what it returns. -/
namespace ValiantCore
namespace Vfs

open Fat32 (Sector Disk)

/-- If the call is refused, the tables and the counters are as before. -/
def OpenAtomic (s : State) (path : List UInt8) (flags : ℕ) : Prop :=
  (sysOpen s path flags).2 < 0 →
    (sysOpen s path flags).1.inodes = s.inodes ∧
      (sysOpen s path flags).1.inodeCount = s.inodeCount ∧
      (sysOpen s path flags).1.files = s.files ∧
      (sysOpen s path flags).1.totalOpens = s.totalOpens

/-- The call takes an inode and then finds no descriptor for it. -/
def InodeLost (s : State) (path : List UInt8) (flags : ℕ) : Prop :=
  findFile s path = none ∧ flags &&& oCreat ≠ 0 ∧ s.inodeCount < maxInodes ∧ ¬ FreeFd s

theorem openInode_full {s : State} (h : ¬ FreeFd s) (idx flags : ℕ) :
    openInode s idx flags = (s,emfile) := by
  rcases openInode_cases s idx flags with ⟨heq,-⟩ | ⟨fd,h3,hlt,hfree,-⟩
  · exact heq
  · exact absurd ⟨fd,h3,hlt,hfree⟩ h

theorem openAtomic_iff {s : State} {names : List (List UInt8)} (h : Holding s names)
    (path : List UInt8) (flags : ℕ) : OpenAtomic s path flags ↔ ¬ InodeLost s path flags := by
  constructor
  · rintro hatomic ⟨hnone,hc,hlt,hfull⟩
    have hopen : sysOpen s path flags = (addEntry s path false,emfile) := by
      rcases sysOpen_cases h path flags with ⟨idx,hfind,-⟩ | ⟨-,-,-,heq⟩ | ⟨e,-,-,hcause⟩
      · simp [hnone] at hfind
      · rw [heq]
        exact openInode_full (s := addEntry s path false) hfull s.inodeCount flags
      · rcases hcause with ⟨hsome,-⟩ | ⟨-,hno | hinodes⟩
        · simp [hnone] at hsome
        · exact absurd hno hc
        · exact absurd hlt (not_lt.mpr hinodes)
    obtain ⟨-,hcount,-⟩ := hatomic (by rw [hopen]; exact Int.negSucc_lt_zero 23)
    rw [hopen] at hcount
    exact absurd hcount (Nat.succ_ne_self s.inodeCount)
  · intro hkept hneg
    rcases sysOpen_cases h path flags with ⟨idx,-,-,heq⟩ | ⟨hfind,hc,hlt,heq⟩ | ⟨e,-,heq,-⟩
    · rw [heq] at hneg ⊢
      rcases openInode_cases s idx flags with ⟨hfull,-⟩ | ⟨fd,-,-,-,hfd⟩
      · rw [hfull]
        exact ⟨rfl,rfl,rfl,rfl⟩
      · rw [hfd] at hneg
        exact absurd hneg (not_lt.mpr (Int.natCast_nonneg fd))
    · have hfree : FreeFd s := by
        by_contra hfull
        exact hkept ⟨hfind,hc,hlt,hfull⟩
      rw [heq] at hneg
      exact absurd hneg (not_lt.mpr (openInode_free (s := addEntry s path false) hfree _ _))
    · rw [heq]
      exact ⟨rfl,rfl,rfl,rfl⟩

/-- After every run, a call of `sys_open` is atomic unless it creates an entry for which
no descriptor is left. -/
theorem open_atomic_iff (disk : Disk) (ops : List Op) (path : List UInt8) (flags : ℕ) :
    OpenAtomic (after disk ops) path flags ↔ ¬ InodeLost (after disk ops) path flags :=
  openAtomic_iff (holding_after disk ops) path flags

def rootOpens (n : ℕ) : List Op := List.replicate n (.sysOpen [0x2F] 0)

theorem findFile_root (disk : Disk) (ops : List Op) : findFile (after disk ops) [0x2F] = some 0 :=
  findFile_created (holding_after disk ops) rfl

theorem rootOpens_succ (disk : Disk) (n : ℕ) :
    after disk (rootOpens (n+1)) = (openInode (after disk (rootOpens n)) 0 0).1 := by
  rw [rootOpens,List.replicate_succ',after_concat]
  simp only [step,sysOpen,findFile_root]
  exact congrArg Prod.fst (if_neg (by decide))

theorem openInode_active {s : State} {fd : ℕ}
    (h : Slots.firstSlot maxOpenFiles (fun i => 3 ≤ i && !(s.files i).active) = some fd) (idx flags i : ℕ) :
    ((openInode s idx flags).1.files i).active =
      Function.update (fun j => (s.files j).active) fd true i := by
  unfold openInode
  rw [h]
  by_cases hi : i = fd
  · simp [hi]
  · simp [Function.update_of_ne hi]

theorem rootOpens_active (disk : Disk) {n : ℕ} (hn : n ≤ 509) (fd : ℕ) :
    ((after disk (rootOpens n)).files fd).active = decide (3 ≤ fd ∧ fd < 3+n) := by
  induction n generalizing fd with
  | zero =>
    have hfiles : (after disk []).files fd = File.new := by
      simp only [after,Runs.exec_nil,init]
      rw [createEntries_frame State.files fun s path isDir => (createEntry_frame s path isDir).2]
      simp [State.new,File.new]
    have hnone : ¬ (3 ≤ fd ∧ fd < 3+0) := by omega
    simp [rootOpens,hfiles,File.new]
  | succ n ih =>
    have hprev := fun i => ih (by omega) i
    have hslot : Slots.firstSlot maxOpenFiles
        (fun i => 3 ≤ i && !((after disk (rootOpens n)).files i).active) = some (3+n) := by
      refine Slots.firstSlot_eq_some.mpr ⟨by unfold maxOpenFiles; omega,by simp [hprev],?_⟩
      intro j hj
      simp only [hprev,Bool.and_eq_false_iff,decide_eq_false_iff_not,Bool.not_eq_false',
        decide_eq_true_eq]
      omega
    rw [rootOpens_succ,openInode_active hslot]
    by_cases hfd : fd = 3+n
    · simp [hfd]
    · rw [Function.update_of_ne hfd,hprev]
      simp only [decide_eq_decide]
      omega

theorem rootOpens_created (disk : Disk) (n : ℕ) : created disk (rootOpens n) = initialEntries := by
  induction n with
  | zero => simp [created,rootOpens]
  | succ n ih =>
    rw [rootOpens,List.replicate_succ',created_concat]
    rw [← rootOpens,ih]
    simp [createdPath,findFile_root]

/-- With every descriptor in use, an open of the new path `/x` is refused, and `/x` exists. -/
theorem refused_open_creates : ¬ OpenAtomic (after blankDisk (rootOpens 509)) [0x2F,0x78] oCreat := by
  have h := holding_after blankDisk (rootOpens 509)
  rw [rootOpens_created] at h
  rw [openAtomic_iff h,not_not]
  refine ⟨?_,by decide,by rw [h.count]; decide,?_⟩
  · rw [findFile_eq_none h]
    decide
  · rintro ⟨fd,h3,hlt,hfree⟩
    rw [rootOpens_active blankDisk le_rfl] at hfree
    unfold maxOpenFiles at hlt
    simp only [decide_eq_false_iff_not] at hfree
    omega

/-- The call fails and moves nothing, or it returns the position it has moved to, and this
is the integer that was asked for; the block at it is the one that integer gives. -/
def SeekSound (s : State) (fd : ℕ) (offset whence : ℤ) : Prop :=
  let r := sysLseek s fd offset whence
  let p := (s.files fd).pos
  r.2 < 0 ∧ (r.1.files fd).pos = p ∨
    0 ≤ r.2 ∧ r.2 = (r.1.files fd).pos ∧ (whence = 0 ∧ r.2 = offset ∨ whence = 1 ∧ r.2 = p+offset)

/-- The integer that is asked for is a position that an `i64` holds. -/
def SeekInRange (s : State) (fd : ℕ) (offset whence : ℤ) : Prop :=
  (whence = 0 → 0 ≤ offset) ∧
    (whence = 1 → 0 ≤ (s.files fd).pos+offset ∧ (s.files fd).pos+offset < 2^63)

theorem u64_cast (z : ℤ) : (u64 z : ℤ) = z%18446744073709551616 := by
  unfold u64
  omega

theorem u64_of_range {z : ℤ} (h0 : 0 ≤ z) (h : z < 2^64) : (u64 z : ℤ) = z := by
  rw [u64_cast]
  exact Int.emod_eq_of_lt h0 h

theorem i64_of_range {n : ℕ} (h : n < 2^63) : i64 n = n := by
  unfold i64
  apply Int.bmod_eq_of_le
  · omega
  · omega

theorem i64_u64 (z : ℤ) : i64 (u64 z) = z.bmod 18446744073709551616 := by
  have hmod := Int.emod_bmod z 18446744073709551616
  unfold i64
  rw [u64_cast]
  simpa using hmod

section Seek
variable {s : State} {fd : ℕ} {offset : ℤ}

theorem sysLseek_set (hopen : badFd s fd = false) :
    sysLseek s fd offset 0 = (s.setFile fd { s.files fd with pos := u64 offset },i64 (u64 offset)) := by
  simp [sysLseek,hopen]

theorem sysLseek_add (hopen : badFd s fd = false) (hpos : (s.files fd).pos < 2^63) :
    sysLseek s fd offset 1 =
      (s.setFile fd { s.files fd with pos := u64 ((s.files fd).pos+offset) },
        i64 (u64 ((s.files fd).pos+offset))) := by
  simp [sysLseek,hopen,i64_of_range hpos]

theorem sysLseek_other (hopen : badFd s fd = false) {whence : ℤ} (h0 : whence ≠ 0) (h1 : whence ≠ 1) :
    sysLseek s fd offset whence = (s,einval) := by
  simp [sysLseek,hopen,h0,h1]

/-- A move to the integer `z`, converted to a position and back, is right just for the
positions that an `i64` holds. -/
theorem moved_iff {p : ℕ} {z : ℤ} (hp : p < 2^63) (hlow : -2^63 ≤ z) (hhigh : z < 2^64) :
    (i64 (u64 z) < 0 ∧ u64 z = p ∨ 0 ≤ i64 (u64 z) ∧ i64 (u64 z) = u64 z ∧ i64 (u64 z) = z) ↔
      0 ≤ z ∧ z < 2^63 := by
  have hu := u64_cast z
  have hi : i64 (u64 z) = if z < 2^63 then z else z-18446744073709551616 := by
    rw [i64_u64]
    split_ifs with hz
    · exact Int.bmod_eq_of_le (by omega) (by omega)
    · rw [← Int.sub_bmod_right]
      exact Int.bmod_eq_of_le (by omega) (by omega)
  rw [hi]
  split_ifs with hz <;> omega

theorem seekSound_iff (hopen : badFd s fd = false) (hpos : (s.files fd).pos < 2^63)
    (hlow : -2^63 ≤ offset) (hhigh : offset < 2^63) (whence : ℤ) :
    SeekSound s fd offset whence ↔ SeekInRange s fd offset whence := by
  by_cases h0 : whence = 0
  · subst h0
    have hmoved := moved_iff hpos hlow (by omega : offset < 2^64)
    simp only [SeekSound,SeekInRange,sysLseek_set hopen,setFile_files,Function.update_self]
    rw [and_iff_left hhigh] at hmoved
    simpa using hmoved
  · by_cases h1 : whence = 1
    · subst h1
      have hmoved := @moved_iff (s.files fd).pos ((s.files fd).pos+offset) hpos (by omega) (by omega)
      simp only [SeekSound,SeekInRange,sysLseek_add hopen hpos,setFile_files,Function.update_self]
      simpa using hmoved
    · simp [SeekSound,SeekInRange,sysLseek_other hopen h0 h1,einval,h0,h1]

end Seek

/-- What the calls make of the positions, if positions are integers. -/
def intended (s : State) (pos : ℕ → ℤ) : Op → ℕ → ℤ
  | .sysOpen path flags =>
    let r := sysOpen s path flags
    if 0 ≤ r.2 then Function.update pos r.2.toNat (r.1.files r.2.toNat).pos else pos
  | .sysRead fd => if (sysRead s fd).2.1 = 512 then Function.update pos fd (pos fd+512) else pos
  | .sysWrite fd byte buf count =>
    if (sysWrite s fd byte buf count).2.1 = 512 then Function.update pos fd (pos fd+512) else pos
  | .sysLseek fd offset whence =>
    if badFd s fd then pos
    else if whence = 0 then Function.update pos fd offset
    else if whence = 1 then Function.update pos fd (pos fd+offset)
    else pos
  | _ => pos

def stepIntended (s : State × (ℕ → ℤ)) (op : Op) : (State × (ℕ → ℤ)) × Out :=
  (((step s.1 op).1,intended s.1 s.2 op),(step s.1 op).2)

/-- The integer positions after a run that starts with `vfs_init`. -/
def intendedAfter (disk : Disk) (ops : List Op) : ℕ → ℤ :=
  (Runs.exec stepIntended (init (State.new disk),fun _ => 0) ops).2

/-- The calls on an open descriptor find its position below `2^63`, and seek to positions
that an `i64` holds. -/
def Ranged (s : State) : Op → Prop
  | .sysRead fd | .sysWrite fd _ _ _ => badFd s fd = false → (s.files fd).pos < 2^63
  | .sysLseek fd offset whence => badFd s fd = false →
    (s.files fd).pos < 2^63 ∧ -2^63 ≤ offset ∧ offset < 2^63 ∧ SeekInRange s fd offset whence
  | _ => True

def AtIntended (s : State) (pos : ℕ → ℤ) : Prop :=
  ∀ fd, badFd s fd = false → ((s.files fd).pos : ℤ) = pos fd

section Intended
variable {s : State} {pos : ℕ → ℤ}

theorem AtIntended.set (h : AtIntended s pos) {t : State} {fd : ℕ} {f : File} {z : ℤ}
    (hfiles : t.files = Function.update s.files fd f) (hpos : (f.pos : ℤ) = z) :
    AtIntended t (Function.update pos fd z) := by
  intro i hi
  by_cases hfd : i = fd
  · simp [hfiles,hfd,hpos]
  · simp only [badFd,hfiles,Function.update_of_ne hfd] at hi ⊢
    exact h i hi

theorem AtIntended.openInode (h : AtIntended s pos) (idx flags : ℕ) :
    let r := Vfs.openInode s idx flags
    AtIntended r.1
      (if 0 ≤ r.2 then Function.update pos r.2.toNat (r.1.files r.2.toNat).pos else pos) := by
  rcases openInode_cases s idx flags with ⟨heq,-⟩ | ⟨fd,-,-,-,heq⟩
  · simpa only [heq,show ¬ 0 ≤ emfile from by decide,if_false] using h
  · simp only [heq,Int.natCast_nonneg,if_true,Int.toNat_natCast]
    exact h.set rfl (by simp)

theorem AtIntended.advance (h : AtIntended s pos) {t : State} {fd : ℕ} (hfiles : t.files = s.files)
    (hopen : badFd s fd = false) (hlt : (s.files fd).pos < 2^63) :
    AtIntended (Vfs.advance t fd) (Function.update pos fd (pos fd+512)) := by
  have hpos : (u64 ((s.files fd).pos+512) : ℤ) = pos fd+512 := by
    rw [u64_of_range (by omega) (by omega),h fd hopen]
  refine h.set (f := { s.files fd with pos := u64 ((s.files fd).pos+512) }) ?_ hpos
  simp [Vfs.advance,hfiles]

end Intended

theorem AtIntended.close {s : State} {pos : ℕ → ℤ} (h : AtIntended s pos) (fd : ℕ) :
    AtIntended (step s (.sysClose fd)).1 (intended s pos (.sysClose fd)) := by
  simp only [step,intended,sysClose]
  split_ifs with hbad
  · exact h
  · intro i hi
    by_cases hfd : i = fd
    · simp [badFd,hfd] at hi
    · simp only [badFd,setFile_files,Function.update_of_ne hfd] at hi ⊢
      exact h i hi

theorem AtIntended.lseek {s : State} {pos : ℕ → ℤ} (h : AtIntended s pos) {fd : ℕ} {offset whence : ℤ}
    (hop : Ranged s (.sysLseek fd offset whence)) :
    AtIntended (step s (.sysLseek fd offset whence)).1 (intended s pos (.sysLseek fd offset whence)) := by
  simp only [step,intended]
  by_cases hbad : badFd s fd = true
  · simpa [hbad,sysLseek] using h
  · have hopen : badFd s fd = false := by simpa using hbad
    obtain ⟨hlt,hlow,hhigh,hrange⟩ := hop hopen
    by_cases h0 : whence = 0
    · subst h0
      rw [sysLseek_set hopen]
      simpa [hopen] using h.set rfl (u64_of_range (hrange.1 rfl) (by omega))
    · by_cases h1 : whence = 1
      · subst h1
        obtain ⟨hz,hz'⟩ := hrange.2 rfl
        have hpos : (u64 ((s.files fd).pos+offset) : ℤ) = pos fd+offset := by
          rw [u64_of_range hz (by omega),h fd hopen]
        rw [sysLseek_add hopen hlt]
        simpa [hopen] using h.set rfl hpos
      · rw [sysLseek_other hopen h0 h1]
        simpa [hopen,h0,h1] using h

theorem atIntended_step {disk : Disk} {ops : List Op} {pos : ℕ → ℤ}
    (h : AtIntended (after disk ops) pos) {op : Op} (hop : Ranged (after disk ops) op) :
    AtIntended (step (after disk ops) op).1 (intended (after disk ops) pos op) := by
  have hread := sysRead_empty disk ops
  have hheld := holding_after disk ops
  generalize after disk ops = s at h hop hread hheld
  cases op with
  | sysOpen path flags =>
    simp only [step,intended]
    rcases sysOpen_cases hheld path flags with ⟨idx,-,-,heq⟩ | ⟨-,-,-,heq⟩ | ⟨e,he,heq,-⟩
    · simpa only [heq] using h.openInode idx flags
    · have hentry : AtIntended (addEntry s path false) pos := h
      simpa only [heq] using hentry.openInode s.inodeCount flags
    · simpa only [heq,not_le.mpr he,if_false] using h
  | sysClose fd => exact h.close fd
  | sysRead fd =>
    have hret : (if badFd s fd then ebadf else 0) ≠ 512 := by
      split_ifs
      · decide
      · decide
    simpa only [step,intended,hread,hret,if_false] using h
  | sysWrite fd byte buf count =>
    simp only [step,intended]
    rcases sysWrite_cases s fd byte buf count with ⟨-,e,he,heq⟩ | ⟨-,-,heq⟩ | ⟨hscanned,-,heq⟩
    · simpa only [heq,show e ≠ 512 from by omega,if_false] using h
    · rw [heq]
      exact h
    · have hopen := open_of_not_refused hscanned
      rw [heq]
      exact h.advance rfl hopen (hop hopen)
  | sysLseek fd offset whence => exact h.lseek hop
  | sysMkdir path =>
    simp only [step,intended,sysMkdir]
    split_ifs
    · exact h
    · intro i hi
      have hfiles := (createEntry_frame s path true).2
      simp only [badFd,hfiles] at hi ⊢
      exact h i hi
  | sysSync image =>
    simp only [step,intended,sysSync]
    rw [syncInodes_frame]
    exact h

theorem exec_stepIntended (disk : Disk) (ops : List Op) :
    Runs.exec stepIntended (init (State.new disk),fun _ => 0) ops =
      (after disk ops,intendedAfter disk ops) := by
  refine Prod.ext ?_ rfl
  exact Runs.exec_map stepIntended Prod.fst (fun _ _ => rfl) _ ops

theorem intendedAfter_concat (disk : Disk) (ops : List Op) (op : Op) :
    intendedAfter disk (ops++[op]) = intended (after disk ops) (intendedAfter disk ops) op := by
  rw [intendedAfter,Runs.exec_concat,exec_stepIntended]
  rfl

theorem atIntended_init (disk : Disk) : AtIntended (after disk []) (intendedAfter disk []) := by
  intro fd hopen
  have hactive := active_of_good hopen
  rw [show after disk [] = after disk (rootOpens 0) from rfl,
    rootOpens_active disk (Nat.zero_le _)] at hactive
  simp only [decide_eq_true_eq] at hactive
  omega

theorem atIntended_always {disk : Disk} {ops : List Op}
    (h : Runs.EveryStep (fun pre op => Ranged (after disk pre) op) ops) :
    Runs.Always (fun pre => AtIntended (after disk pre) (intendedAfter disk pre)) ops := by
  refine Runs.always_of_everyStep (atIntended_init disk) (fun pre op hpre hop => ?_) h
  rw [after_concat,intendedAfter_concat]
  exact atIntended_step hpre hop

/-- After every run, a seek is sound just if it asks for a position that an `i64` holds;
and where all seeks of a run do, every LBA is computed from the position asked for. -/
theorem lseek_sound_iff (disk : Disk) (ops : List Op) :
    (∀ fd offset whence, badFd (after disk ops) fd = false →
      ((after disk ops).files fd).pos < 2^63 → -2^63 ≤ offset → offset < 2^63 →
      (SeekSound (after disk ops) fd offset whence ↔ SeekInRange (after disk ops) fd offset whence)) ∧
    (Runs.EveryStep (fun pre op => Ranged (after disk pre) op) ops →
      ∀ fd, badFd (after disk ops) fd = false →
        (((after disk ops).files fd).pos : ℤ) = intendedAfter disk ops fd ∧
        (blockLba (after disk ops) fd : ℤ) =
          ((after disk ops).inodes ((after disk ops).files fd).inodeIdx).startBlock+
            intendedAfter disk ops fd/512) := by
  constructor
  · intro fd offset whence hopen hpos hlow hhigh
    exact seekSound_iff hopen hpos hlow hhigh whence
  · intro hops fd hopen
    have hpos := atIntended_always hops ops (List.prefix_refl ops) fd hopen
    refine ⟨hpos,?_⟩
    rw [← hpos,blockLba]
    push_cast
    rfl

def seekOps : List Op := [.sysOpen [0x2F] oRdwr,.sysLseek 3 1024 0,.sysLseek 3 (-512) 1]

theorem lseek_sound_three :
    SeekSound (after blankDisk seekOps) 3 100 1 ∧
      (blockLba (after blankDisk seekOps) 3 : ℤ) =
        ((after blankDisk seekOps).inodes ((after blankDisk seekOps).files 3).inodeIdx).startBlock+
          intendedAfter blankDisk seekOps 3/512 := by
  have hopen : badFd (after blankDisk seekOps) 3 = false := by decide +kernel
  refine ⟨((lseek_sound_iff blankDisk seekOps).1 3 100 1 hopen ?_ (by decide) (by decide)).mpr ?_,
    ((lseek_sound_iff blankDisk seekOps).2 ?_ 3 hopen).2⟩
  · decide +kernel
  · exact ⟨by decide,fun _ => by decide +kernel⟩
  · have hstep := Runs.everyStep_cons step Ranged
    refine (hstep _ _ _).mpr ⟨trivial,(hstep _ _ _).mpr ⟨?_,(hstep _ _ _).mpr ⟨?_,Runs.everyStep_nil _⟩⟩⟩
    · exact fun _ => ⟨by decide +kernel,by decide,by decide,fun _ => by decide,by decide⟩
    · exact fun _ => ⟨by decide +kernel,by decide,by decide,by decide,fun _ => by decide +kernel⟩

/-- An open descriptor at 0 that is moved by 1 to the left. -/
theorem seek_wraps : badFd (after blankDisk [.sysOpen [0x2F] oRdwr]) 3 = false ∧
    ((after blankDisk [.sysOpen [0x2F] oRdwr]).files 3).pos = 0 ∧
    ¬ SeekSound (after blankDisk [.sysOpen [0x2F] oRdwr]) 3 (-1) 0 := by
  refine ⟨by decide +kernel,by decide +kernel,?_⟩
  unfold SeekSound
  decide +kernel

end Vfs
end ValiantCore
