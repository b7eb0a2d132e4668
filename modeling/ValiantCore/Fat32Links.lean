import ValiantCore.Fat32Retry
import Mathlib.Tactic.IntervalCases

/-! Where the bytes that `fat32_read` returns come from. The loop looks at no link before
it uses it, but for the one end mark `FAT32_EOC`; what a call copies belongs to the file
as long as the clusters of its schedule are data clusters. -/
namespace ValiantCore
namespace Fat32

/-- A number of a data cluster: not free, not reserved, not bad, not an end mark. -/
def Data (cluster : ℕ) : Prop := 2 ≤ cluster ∧ cluster < bad

instance (cluster : ℕ) : Decidable (Data cluster) := inferInstanceAs (Decidable (_ ∧ _))

/-- The data clusters that the links lead to, from the first cluster of a file on. -/
inductive Reached (v : Volume) (first : ℕ) : ℕ → Prop
  | start : Data first → Reached v first first
  | next {cluster : ℕ} : Reached v first cluster → Data (v.link cluster) →
    Reached v first (v.link cluster)

theorem Reached.data {v : Volume} {first cluster : ℕ} (h : Reached v first cluster) : Data cluster := by
  cases h with
  | start hdata => exact hdata
  | next _ hdata => exact hdata

def Turn.out : Turn → List UInt8
  | .done _ _ out => out
  | .again _ out => out

/-- What the turn copies from, if it copies: the descriptor's cluster and the sector. -/
def turnCopy (fd len : ℕ) (s : State) (out : List UInt8) : List (ℕ × ℕ) :=
  if out.length < (readTurn fd len s out).out.length then [((s.files fd).curCluster,turnLba s fd)]
  else []

def readCopies (fd len : ℕ) : ℕ → State → List UInt8 → List (ℕ × ℕ)
  | 0, _, _ => []
  | fuel+1, s, out =>
    turnCopy fd len s out++
      match readTurn fd len s out with
      | .done .. => []
      | .again s out => readCopies fd len fuel s out

def fat32ReadCopies (s : State) (fd : ℤ) (buf : Bool) (len : ℕ) : List (ℕ × ℕ) :=
  if fd < 0 ∨ fd ≥ maxFiles then []
  else if (s.files fd.toNat).active = false then []
  else if buf = false ∨ len = 0 then []
  else readCopies fd.toNat len (len+1) s []

/-- Every copy is made from a sector of a data cluster that the file's links lead to. -/
def OwnSectors (s : State) : Op → Prop
  | .fat32Read fd buf len => ∀ p ∈ fat32ReadCopies s fd buf len,
    Reached s.volume (s.files fd.toNat).firstCluster p.1 ∧
      s.volume.lba p.1 ≤ p.2 ∧ p.2 < s.volume.lba p.1+s.volume.secPerClus
  | _ => True

/-- The sectors that the call comes to and that can be read are scheduled in data clusters. -/
def OnData (s : State) : Op → Prop
  | .fat32Read fd buf len => Accepted s fd buf len → ∀ k, Reaches s fd.toNat len k →
    s.disk.fails (s.schedule fd.toNat k).1 = false → Data (s.schedule fd.toNat k).2
  | _ => True

section Copies
variable {s : State} {fd len : ℕ}

theorem turnCopy_of_copied {out : List UInt8} {t : Turn} (hwants : Wants s fd (len-out.length))
    (hturn : readTurn fd len s out = t) (hout : t.out = out++turnPiece s fd (len-out.length)) :
    turnCopy fd len s out = [((s.files fd).curCluster,turnLba s fd)] := by
  have hn := turnCount_pos hwants
  have hlonger : out.length < (readTurn fd len s out).out.length := by
    rw [hturn,hout,List.length_append,turnPiece_length]
    omega
  exact if_pos hlonger

theorem turnCopy_of_not_copied {out : List UInt8} (hout : (readTurn fd len s out).out = out) :
    turnCopy fd len s out = [] := by
  have hsame : ¬ out.length < (readTurn fd len s out).out.length := by
    rw [hout]
    exact lt_irrefl _
  exact if_neg hsame

/-- The copies of the loop: none, if nothing is left or the transfer fails; else the copy
of the first turn, and those of the rest. -/
theorem readCopies_cases (hspc : s.secPerClus ≠ 0) (fuel : ℕ) (out : List UInt8) :
    ((¬ Wants s fd (len-out.length) ∨ s.disk.fails s.disk.clock = true) ∧
      readCopies fd len (fuel+1) s out = []) ∨
    (Wants s fd (len-out.length) ∧ s.disk.fails s.disk.clock = false ∧
      readCopies fd len (fuel+1) s out = ((s.files fd).curCluster,turnLba s fd) ::
        if (turnState s fd (len-out.length)).2 then []
        else readCopies fd len fuel (turnState s fd (len-out.length)).1
          (out++turnPiece s fd (len-out.length))) := by
  rcases readTurn_cases hspc fd len out with ⟨hdone,hturn⟩ | ⟨-,hfails,hturn⟩ | ⟨hwants,hok,hturn⟩
  · refine Or.inl ⟨Or.inl hdone,?_⟩
    rw [readCopies,turnCopy_of_not_copied (by rw [hturn]; rfl),hturn]
    rfl
  · refine Or.inl ⟨Or.inr hfails,?_⟩
    rw [readCopies,turnCopy_of_not_copied (by rw [hturn]; rfl),hturn]
    rfl
  · refine Or.inr ⟨hwants,hok,?_⟩
    cases hended : (turnState s fd (len-out.length)).2 with
    | true =>
      rw [hended,if_pos rfl] at hturn
      rw [readCopies,turnCopy_of_copied hwants hturn rfl,hturn]
      rfl
    | false =>
      rw [hended,if_neg (by decide)] at hturn
      rw [readCopies,turnCopy_of_copied hwants hturn rfl,hturn]
      rfl

theorem turnLba_in_cluster (hspc : s.secPerClus ≠ 0) (fd : ℕ) :
    s.volume.lba (s.files fd).curCluster ≤ turnLba s fd ∧
      turnLba s fd < s.volume.lba (s.files fd).curCluster+s.volume.secPerClus := by
  have hlba : turnLba s fd = s.volume.lba (s.files fd).curCluster+
      (s.files fd).pos%(s.secPerClus*sectorSz)/sectorSz := rfl
  have hmod : (s.files fd).pos%(s.secPerClus*sectorSz) < s.secPerClus*sectorSz :=
    Nat.mod_lt _ (Nat.mul_pos (Nat.pos_of_ne_zero hspc) (by decide))
  have hsec : (s.files fd).pos%(s.secPerClus*sectorSz)/sectorSz < s.secPerClus :=
    Nat.div_lt_of_lt_mul (by rwa [Nat.mul_comm sectorSz])
  rw [hlba]
  exact ⟨Nat.le_add_right _ _,Nat.add_lt_add_left hsec _⟩

/-- The schedule covers the copies: each sector that the loop comes to and can transfer is
copied from, in its cluster. -/
theorem scheduled_copied (hspc : s.secPerClus ≠ 0) (fuel : ℕ) {out : List UInt8}
    (hfuel : len-out.length < fuel) {k : ℕ} (hreach : Reaches s fd (len-out.length) k)
    (hok : s.disk.fails (s.schedule fd k).1 = false) :
    ∃ p ∈ readCopies fd len fuel s out, p.1 = (s.schedule fd k).2 := by
  induction fuel generalizing s out k with
  | zero => omega
  | succ fuel ih =>
    have hwants : Wants s fd (len-out.length) := by
      have hlt := hreach.touches.1
      unfold stop at hlt
      unfold Wants
      omega
    have hfirst : s.disk.fails s.disk.clock = false := by
      cases k with
      | zero => exact hok
      | succ k => exact hreach.served 0 (Nat.succ_pos k)
    rcases readCopies_cases hspc fuel out with ⟨hnone | hfails,-⟩ | ⟨-,-,hcopies⟩
    · exact absurd hwants hnone
    · simp [hfirst] at hfails
    · rw [hcopies]
      cases k with
      | zero => exact ⟨_,List.mem_cons_self,rfl⟩
      | succ k =>
        obtain ⟨hgo,hrest⟩ := (reaches_succ hwants hfirst k).mp hreach
        have hn := turnCount_pos hwants
        have hle := (turnCount_le s fd (len-out.length)).1
        have hleft : len-(out++turnPiece s fd (len-out.length)).length =
            len-out.length-turnCount s fd (len-out.length) := by
          rw [List.length_append,turnPiece_length]
          omega
        have hmoved := @turnState_moved s fd (len-out.length) hfirst
        have hsame := schedule_turn hfirst (end_of_touches hwants hreach.touches) k
        rw [← hleft] at hrest
        rw [hgo,← hsame,if_neg (by decide)]
        obtain ⟨p,hp,hcluster⟩ := ih (hmoved.spc ▸ hspc) (by omega) hrest
          ((fails_turn hwants hfirst hreach.touches).trans hok)
        exact ⟨p,List.mem_cons_of_mem _ hp,hcluster⟩

/-- The cluster of a descriptor, if it is a data cluster, is one that its links lead to. -/
def Linked (s : State) (fd : ℕ) : Prop :=
  Data (s.files fd).curCluster → Reached s.volume (s.files fd).firstCluster (s.files fd).curCluster

theorem linked_turn (hlinked : Linked s fd) (hdata : Data (s.files fd).curCluster) {left : ℕ}
    (hok : s.disk.fails s.disk.clock = false) : Linked (turnState s fd left).1 fd := by
  obtain ⟨hvolume,-,-,hfile,-⟩ := @turnState_spec s fd left hok
  have hreached := hlinked hdata
  unfold Linked
  rw [hvolume,hfile]
  by_cases hlast : ((s.files fd).pos+turnCount s fd left)%s.volume.clusterSz = 0
  · cases hfails : s.disk.fails (s.disk.clock+1) with
    | true =>
      simp only [Volume.move,Volume.fetch,State.here,hlast,hfails,if_true]
      exact fun hbad => absurd hbad.2 (lt_irrefl _)
    | false =>
      simp only [Volume.move,Volume.fetch,State.here,hlast,hfails,if_true,Bool.false_eq_true,if_false]
      exact fun hnext => .next hreached hnext
  · simp only [Volume.move,State.here,hlast,if_false]
    exact fun _ => hreached

/-- A loop on scheduled data clusters: every copy is from a data cluster that the links
lead to, and the descriptor ends up in one, or in none. -/
theorem readLoop_linked (hspc : s.secPerClus ≠ 0) (fuel : ℕ) {out : List UInt8}
    (hfuel : len-out.length < fuel) (hlinked : Linked s fd)
    (hdata : ∀ k, Reaches s fd (len-out.length) k → s.disk.fails (s.schedule fd k).1 = false →
      Data (s.schedule fd k).2) :
    (∀ p ∈ readCopies fd len fuel s out, Reached s.volume (s.files fd).firstCluster p.1 ∧
      s.volume.lba p.1 ≤ p.2 ∧ p.2 < s.volume.lba p.1+s.volume.secPerClus) ∧
      Linked (readLoop fd len fuel s out).1 fd := by
  induction fuel generalizing s out with
  | zero => omega
  | succ fuel ih =>
    rcases readTurn_cases hspc fd len out with ⟨hdone,hturn⟩ | ⟨-,hfails,hturn⟩ | ⟨hwants,hok,hturn⟩
    · rcases readCopies_cases hspc fuel out with ⟨-,hcopies⟩ | ⟨hwants,-⟩
      · rw [hcopies,readLoop,hturn]
        exact ⟨by simp,hlinked⟩
      · exact absurd hwants hdone
    · rcases readCopies_cases hspc fuel out with ⟨-,hcopies⟩ | ⟨-,hok,-⟩
      · rw [hcopies,readLoop,hturn]
        exact ⟨by simp,hlinked⟩
      · simp [hok] at hfails
    · rcases readCopies_cases hspc fuel out with ⟨hnone | hfails,-⟩ | ⟨-,-,hcopies⟩
      · exact absurd hwants hnone
      · simp [hok] at hfails
      · have hhere : Data (s.files fd).curCluster := hdata 0 (reaches_zero.mpr hwants) hok
        have hnext := @linked_turn s fd hlinked hhere (len-out.length) hok
        have hfirst := turnLba_in_cluster hspc fd
        have hmoved := @turnState_moved s fd (len-out.length) hok
        rw [hcopies,readLoop,hturn]
        cases hended : (turnState s fd (len-out.length)).2 with
        | true =>
          simp only [if_true,List.mem_singleton,forall_eq]
          exact ⟨⟨hlinked hhere,hfirst⟩,hnext⟩
        | false =>
          have hn := turnCount_pos hwants
          have hle := (turnCount_le s fd (len-out.length)).1
          have hleft : len-(out++turnPiece s fd (len-out.length)).length =
              len-out.length-turnCount s fd (len-out.length) := by
            rw [List.length_append,turnPiece_length]
            omega
          have hrest := @ih (turnState s fd (len-out.length)).1 (hmoved.spc ▸ hspc)
            (out++turnPiece s fd (len-out.length)) (by omega) hnext ?_
          · rw [hmoved.volume,hmoved.firstCluster] at hrest
            simp only [Bool.false_eq_true,if_false,List.mem_cons,forall_eq_or_imp]
            exact ⟨⟨⟨hlinked hhere,hfirst⟩,hrest.1⟩,hrest.2⟩
          · intro k hk hkok
            rw [hleft] at hk
            have hreach := (reaches_succ hwants hok k).mpr ⟨hended,hk⟩
            have hsame := schedule_turn hok (end_of_touches hwants hreach.touches) k
            rw [hsame]
            rw [hsame,hmoved.fails] at hkok
            exact hdata (k+1) hreach hkok

end Copies

section Calls
variable {s : State} {fd : ℤ} {buf : Bool} {len : ℕ}

theorem fat32ReadCopies_accepted (h : Accepted s fd buf len) :
    fat32ReadCopies s fd buf len = readCopies fd.toNat len (len+1) s [] := by
  obtain ⟨hrange,hactive,hargs,-⟩ := h
  simp only [fat32ReadCopies,if_neg hrange,hactive,if_neg hargs,Bool.true_eq_false,if_false]

theorem fat32ReadCopies_refused (h : ¬ Accepted s fd buf len) : fat32ReadCopies s fd buf len = [] := by
  by_cases hrange : fd < 0 ∨ fd ≥ maxFiles
  · simp [fat32ReadCopies,hrange]
  · by_cases hactive : (s.files fd.toNat).active = true
    · by_cases hargs : buf = false ∨ len = 0
      · simp [fat32ReadCopies,hrange,hactive,hargs]
      · have hspc : s.secPerClus = 0 := by
          by_contra hspc
          exact h ⟨hrange,hactive,hargs,hspc⟩
        obtain ⟨outcome,hturn⟩ := readTurn_zero hspc fd.toNat len
        simp only [fat32ReadCopies,if_neg hrange,hactive,if_neg hargs,Bool.true_eq_false,if_false,
          readCopies,turnCopy,hturn,Turn.out,lt_irrefl,List.append_nil]
    · simp [fat32ReadCopies,hrange,hactive]

theorem onData_of_ownSectors {op : Op} (h : OwnSectors s op) : OnData s op := by
  cases op with
  | fat32Read fd buf len =>
    intro haccepted k hreach hok
    obtain ⟨p,hp,hcluster⟩ := @scheduled_copied s fd.toNat len haccepted.2.2.2 (len+1) []
      (by simp) k hreach hok
    rw [← fat32ReadCopies_accepted haccepted] at hp
    exact hcluster ▸ (h p hp).1.data
  | _ => trivial

end Calls

/-- Every open descriptor stands in its file, or in no data cluster. -/
def AllLinked (s : State) : Prop := ∀ fd < maxFiles, (s.files fd).active = true → Linked s fd

theorem Linked.elsewhere {fd : ℕ} {s t : State} (h : Linked s fd) (hst : Elsewhere fd s t) : Linked t fd := by
  unfold Linked
  rw [hst.volume,hst.file]
  exact h

theorem AllLinked.elsewhere {fd : ℕ} {s t : State} (h : AllLinked s) (hst : Elsewhere fd s t)
    (hfd : fd < maxFiles) (hactive : (t.files fd).active = true) : Linked t fd := by
  rw [hst.file] at hactive
  exact (h fd hfd hactive).elsewhere hst

theorem ownSectors_step {s : State} (hlinked : AllLinked s) {op : Op} (hop : OnData s op) :
    OwnSectors s op ∧ AllLinked (step s op).1 := by
  cases op with
  | fat32Open fuel path =>
    refine ⟨trivial,fun i hi hactive => ?_⟩
    simp only [step] at hactive ⊢
    rcases fat32Open_cases fuel s path with ⟨hall,-⟩ | ⟨t,j,e,hall,-,-,heq,-⟩
    · exact hlinked.elsewhere (hall i) hi hactive
    · rw [heq] at hactive ⊢
      by_cases hij : i = j
      · subst hij
        unfold Linked
        simp only [State.setFile,Function.update_self]
        exact fun hdata => .start hdata
      · have hother := (hall i).trans (setFile_elsewhere (Ne.symm hij) t (openedFile e))
        exact hlinked.elsewhere hother hi hactive
  | fat32Close fd =>
    refine ⟨trivial,fun i hi hactive => ?_⟩
    simp only [step] at hactive ⊢
    by_cases hfd : fd = i
    · simp only [fat32Close] at hactive ⊢
      split_ifs at hactive ⊢ with hrange hclosed
      · exact hlinked i hi hactive
      · exact hlinked i hi hactive
      · simp [State.setFile,hfd] at hactive
    · exact hlinked.elsewhere (fat32Close_elsewhere s hfd) hi hactive
  | fat32Read fd buf len =>
    by_cases haccepted : Accepted s fd buf len
    · obtain ⟨n,rfl⟩ : ∃ n : ℕ, fd = n := ⟨fd.toNat,by have := haccepted.1; omega⟩
      have hn : n < maxFiles := by
        have hrange := haccepted.1
        omega
      have hloop := @readLoop_linked s n len haccepted.2.2.2 (len+1) [] (by simp)
        (hlinked n hn haccepted.2.1) (hop haccepted)
      constructor
      · intro p hp
        rw [fat32ReadCopies_accepted haccepted] at hp
        exact hloop.1 p hp
      · intro i hi hactive
        simp only [step] at hactive ⊢
        by_cases hin : i = n
        · subst hin
          rw [fat32Read_accepted haccepted]
          exact hloop.2
        · exact hlinked.elsewhere (fat32Read_elsewhere s (by omega) buf len) hi hactive
    · constructor
      · intro p hp
        simp [fat32ReadCopies_refused haccepted] at hp
      · simp only [step,fat32Read_refused haccepted]
        exact hlinked

/-- In every run from a successful `fat32_init`, all copies of `fat32_read` are made from
data clusters that the file's links lead to, just if every sector that a call comes to
and can transfer is scheduled in a data cluster. -/
theorem copies_reached_iff (s : State) (hinit : (init s).2.1 = 0) (ops : List Op) :
    Runs.EveryStep (fun pre op => OwnSectors (Runs.exec step (init s).1 pre) op) ops ↔
      Runs.EveryStep (fun pre op => OnData (Runs.exec step (init s).1 pre) op) ops := by
  constructor
  · exact fun h pre op hpre => onData_of_ownSectors (h pre op hpre)
  · intro h
    have hstart : AllLinked (init s).1 := by
      intro fd hfd hactive
      simp [(mounted_of_init hinit).closed fd hfd] at hactive
    have halways : Runs.Always (fun pre => AllLinked (Runs.exec step (init s).1 pre)) ops := by
      refine Runs.always_of_everyStep hstart (fun pre op hpre hop => ?_) h
      rw [Runs.exec_concat]
      exact (ownSectors_step hpre hop).2
    intro pre op hpre
    exact (ownSectors_step (halways pre (Runs.prefix_of_concat hpre)) (h pre op hpre)).1

def bootSector (b : Bpb) : Sector where
  get i :=
    let place (off w n : ℕ) (rest : UInt8) : UInt8 :=
      if off ≤ i.val ∧ i.val < off+w then UInt8.ofNat (n/256^(i.val-off)) else rest
    place 13 1 b.secPerClus (place 14 2 b.rsvdSecCnt (place 16 1 b.numFats (place 32 4 b.totSec32
      (place 36 4 b.fatSz32 (place 44 4 b.rootClus (place 66 1 b.bootSig 0))))))

/-- The state before `fat32_init`, on a disk with the given boot sector and sectors. -/
def unmounted (b : Bpb) (sector : ℕ → Sector) (fails : ℕ → Bool) : State where
  bpb := ⟨0,0,0,0,0,0,0⟩
  fatStart := 0
  dataStart := 0
  rootCluster := 0
  secPerClus := 0
  initialized := false
  files _ := ⟨0,0,0,0,false,false⟩
  sectorBuf := ⟨fun _ => 0⟩
  disk := ⟨fun lba => if lba = 0 then bootSector b else sector lba,fails,0⟩

/-- The file `A` is opened, and 600 of its 700 bytes are asked for. -/
def openAndRead : List Op := [.fat32Open 1 (some [0x41]),.fat32Read 0 true 600]

/-- On a disk that works both clusters of the file are read. -/
theorem copies_reached_demo :
    Runs.EveryStep (fun pre op =>
      OwnSectors (Runs.exec step (init (unmounted demo.bpb demoSector fun _ => false)).1 pre) op)
      openAndRead := by
  refine (copies_reached_iff _ (by decide +kernel) openAndRead).mpr ?_
  have hstep := Runs.everyStep_cons step OnData
  refine (hstep _ _ _).mpr ⟨trivial,(hstep _ _ _).mpr ⟨?_,Runs.everyStep_nil _⟩⟩
  intro _ k hreach _
  have hlt := hreach.touches.2
  rw [show stop _ _ _ = 600 from by decide +kernel,show File.pos _/sectorSz = 0 from by decide +kernel] at hlt
  have hk : k < 2 := by
    unfold sectorSz at hlt
    omega
  interval_cases k
  · decide +kernel
  · decide +kernel

/-- The transfer of the link of the file's first cluster fails: the call goes on in the
cluster with the number `FAT32_BAD`. -/
theorem bad_cluster_copied :
    ¬ Runs.EveryStep (fun pre op =>
      OwnSectors (Runs.exec step (init (unmounted demo.bpb demoSector fun n => n = 3)).1 pre) op)
      openAndRead := by
  intro h
  have hown := h [.fat32Open 1 (some [0x41])] (.fat32Read 0 true 600) (List.prefix_refl _)
  obtain ⟨p,hp,hbad⟩ : ∃ p ∈ fat32ReadCopies (Runs.exec step
      (init (unmounted demo.bpb demoSector fun n => n = 3)).1 [.fat32Open 1 (some [0x41])]) 0 true 600,
      p.1 = bad := by decide +kernel
  have hdata := (hown p hp).1.data
  rw [hbad] at hdata
  exact absurd hdata (by decide)

end Fat32
end ValiantCore
