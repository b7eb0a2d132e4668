import ValiantCore.Fat32Read

/-! The loop of `fat32_read` over a disk that may hold anything and fail at any transfer.
A turn copies what is left of a sector; where that ends a cluster, the link of the cluster
is fetched, and a link that cannot be read counts as `FAT32_BAD`. -/
namespace ValiantCore
namespace Fat32

open Bytes

def turnLba (s : State) (fd : ℕ) : ℕ :=
  clusterToLba s (s.files fd).curCluster+(s.files fd).pos%(s.secPerClus*sectorSz)/sectorSz

/-- How many bytes a turn copies, when `left` bytes of the request are left. -/
def turnCount (s : State) (fd left : ℕ) : ℕ :=
  min (min (sectorSz-(s.files fd).pos%(s.secPerClus*sectorSz)%sectorSz) left)
    ((s.files fd).fileSize-(s.files fd).pos)

def turnPiece (s : State) (fd left : ℕ) : List UInt8 :=
  bytesAt (s.disk.sector (turnLba s fd)).byte ((s.files fd).pos%(s.secPerClus*sectorSz)%sectorSz)
    (turnCount s fd left)

/-- The state behind the copy of a turn, and whether the chain has ended. -/
def turnState (s : State) (fd left : ℕ) : State × Bool :=
  nextCluster ((readSector s (turnLba s fd)).1.setFile fd
    { s.files fd with pos := (s.files fd).pos+turnCount s fd left }) fd

def Wants (s : State) (fd left : ℕ) : Prop := 0 < left ∧ (s.files fd).pos < (s.files fd).fileSize

section Turn
variable {s : State} {fd len : ℕ} {out : List UInt8}

/-- The ways a turn ends: nothing is left to copy, the transfer fails, or a piece is
copied. -/
theorem readTurn_cases (hspc : s.secPerClus ≠ 0) (fd len : ℕ) (out : List UInt8) :
    (¬ Wants s fd (len-out.length) ∧ readTurn fd len s out = returnRead s out) ∨
    (Wants s fd (len-out.length) ∧ s.disk.fails s.disk.clock = true ∧
      readTurn fd len s out =
        .done { s with disk.clock := s.disk.clock+1 } (.returned (-1)) out) ∨
    (Wants s fd (len-out.length) ∧ s.disk.fails s.disk.clock = false ∧
      readTurn fd len s out =
        if (turnState s fd (len-out.length)).2 then
          returnRead (turnState s fd (len-out.length)).1 (out++turnPiece s fd (len-out.length))
        else .again (turnState s fd (len-out.length)).1 (out++turnPiece s fd (len-out.length))) := by
  have hgo : (out.length < len ∧ (s.files fd).pos < (s.files fd).fileSize) ↔
      Wants s fd (len-out.length) := by
    unfold Wants
    omega
  by_cases hwants : Wants s fd (len-out.length)
  · cases hfails : s.disk.fails s.disk.clock with
    | true =>
      refine Or.inr (Or.inl ⟨hwants,rfl,?_⟩)
      simp [readTurn,hgo,hwants,hspc,readSector,hfails]
    | false =>
      refine Or.inr (Or.inr ⟨hwants,rfl,?_⟩)
      simp only [readTurn,hgo,hwants,if_true,hspc,if_false,turnState,turnPiece,turnCount,turnLba]
      simp [readSector,hfails]
  · refine Or.inl ⟨hwants,?_⟩
    simp [readTurn,hgo,hwants]

/-- A copy takes at least one byte, and no more than is left of the sector, of the request
and of the file. -/
theorem turnCount_pos {left : ℕ} (h : Wants s fd left) : 0 < turnCount s fd left := by
  have hmod := Nat.mod_lt ((s.files fd).pos%(s.secPerClus*sectorSz)) (show 0 < sectorSz from by decide)
  obtain ⟨hleft,hpos⟩ := h
  unfold turnCount
  omega

theorem turnCount_le (s : State) (fd left : ℕ) :
    turnCount s fd left ≤ left ∧ turnCount s fd left ≤ (s.files fd).fileSize-(s.files fd).pos := by
  unfold turnCount
  omega

@[simp] theorem turnPiece_length (s : State) (fd left : ℕ) :
    (turnPiece s fd left).length = turnCount s fd left := bytesAt_length _ _ _

end Turn

/-- The link of a cluster as a transfer at the given time delivers it. -/
def Volume.fetch (v : Volume) (fails : ℕ → Bool) (clock cluster : ℕ) : ℕ :=
  if fails clock then bad else v.link cluster

/-- The clock and the cluster behind a sector whose end is at `pos`, when it is transferred
at the time and in the cluster given. -/
def Volume.move (v : Volume) (fails : ℕ → Bool) (pos : ℕ) (here : ℕ × ℕ) : ℕ × ℕ :=
  if pos%v.clusterSz = 0 then (here.1+2,v.fetch fails (here.1+1) here.2) else (here.1+1,here.2)

/-- The clock and the cluster with which descriptor `fd` goes on. -/
def State.here (s : State) (fd : ℕ) : ℕ × ℕ := (s.disk.clock,(s.files fd).curCluster)

theorem readFatEntry_eq (s : State) (cluster : ℕ) :
    (readFatEntry s cluster).2 = s.volume.fetch s.disk.fails s.disk.clock cluster := by
  cases hfails : s.disk.fails s.disk.clock with
  | true => simp [readFatEntry,readSector,hfails,Volume.fetch]
  | false => simp [readFatEntry,readSector,hfails,Volume.fetch,Volume.link,State.volume]

theorem readFatEntry_clock (s : State) (cluster : ℕ) :
    (readFatEntry s cluster).1.disk.clock = s.disk.clock+1 := by
  cases hfails : s.disk.fails s.disk.clock with
  | true => simp [readFatEntry,readSector,hfails]
  | false => simp [readFatEntry,readSector,hfails]

theorem nextCluster_spec (s : State) (fd : ℕ) :
    let f := s.files fd
    let last := f.pos%s.volume.clusterSz = 0
    let link := s.volume.fetch s.disk.fails s.disk.clock f.curCluster
    (nextCluster s fd).1.volume = s.volume ∧
      (nextCluster s fd).1.disk.fails = s.disk.fails ∧
      (nextCluster s fd).1.disk.clock = (if last then s.disk.clock+1 else s.disk.clock) ∧
      (nextCluster s fd).1.files fd = { f with curCluster := if last then link else f.curCluster } ∧
      (nextCluster s fd).2 = decide (last ∧ eoc ≤ link) := by
  have hfat := @readFatEntry_elsewhere fd s (s.files fd).curCluster
  have hsz : s.volume.clusterSz = s.secPerClus*sectorSz := rfl
  by_cases hlast : (s.files fd).pos%s.volume.clusterSz = 0
  · have hnext : nextCluster s fd =
        ((readFatEntry s (s.files fd).curCluster).1.setFile fd
          { s.files fd with curCluster := (readFatEntry s (s.files fd).curCluster).2 },
          decide ((readFatEntry s (s.files fd).curCluster).2 ≥ eoc)) := by
      simp only [nextCluster]
      exact if_pos hlast
    have hclock := readFatEntry_clock s (s.files fd).curCluster
    rw [hnext]
    simp only [hlast,if_true,readFatEntry_eq,true_and]
    exact ⟨hfat.volume,hfat.fails,hclock,by simp [State.setFile],trivial⟩
  · have hnext : nextCluster s fd = (s,false) := by
      simp only [nextCluster]
      exact if_neg hlast
    rw [hnext]
    simp [hlast]

theorem turnState_spec {s : State} {fd left : ℕ} (hok : s.disk.fails s.disk.clock = false) :
    let pos := (s.files fd).pos+turnCount s fd left
    let next := s.volume.move s.disk.fails pos (s.here fd)
    (turnState s fd left).1.volume = s.volume ∧
      (turnState s fd left).1.disk.fails = s.disk.fails ∧
      (turnState s fd left).1.here fd = next ∧
      (turnState s fd left).1.files fd = { s.files fd with pos, curCluster := next.2 } ∧
      (turnState s fd left).2 = decide (pos%s.volume.clusterSz = 0 ∧ eoc ≤ next.2) := by
  obtain ⟨mid,hmid⟩ : ∃ mid, mid = (readSector s (turnLba s fd)).1.setFile fd
    { s.files fd with pos := (s.files fd).pos+turnCount s fd left } := ⟨_,rfl⟩
  have hvol : mid.volume = s.volume := hmid ▸ (@readSector_elsewhere fd s (turnLba s fd)).volume
  have hdisk : mid.disk.fails = s.disk.fails ∧ mid.disk.clock = s.disk.clock+1 := by
    simp [hmid,State.setFile,readSector,hok]
  have hcopied : mid.files fd = { s.files fd with pos := (s.files fd).pos+turnCount s fd left } := by
    simp [hmid,State.setFile]
  obtain ⟨hvolume,hfails,hclock,hfile,hended⟩ := nextCluster_spec mid fd
  have hturn : turnState s fd left = nextCluster mid fd := by rw [hmid]; rfl
  simp only [hvol,hcopied,hdisk] at hclock hfile hended
  rw [hturn]
  refine ⟨hvolume.trans hvol,hfails.trans hdisk.1,?_,?_,?_⟩
  all_goals
    by_cases hlast : ((s.files fd).pos+turnCount s fd left)%s.volume.clusterSz = 0
    · simp [State.here,Volume.move,hclock,hfile,hended,hlast]
    · simp [State.here,Volume.move,hclock,hfile,hended,hlast]

/-- `t` is `s` after descriptor `fd` has been moved past `n` bytes of its file. -/
structure Moved (fd n : ℕ) (s t : State) : Prop where
  volume : t.volume = s.volume
  fails : t.disk.fails = s.disk.fails
  pos : (t.files fd).pos = (s.files fd).pos+n
  fileSize : (t.files fd).fileSize = (s.files fd).fileSize
  firstCluster : (t.files fd).firstCluster = (s.files fd).firstCluster
  active : (t.files fd).active = (s.files fd).active

theorem Moved.trans {fd m n : ℕ} {s t u : State} (h : Moved fd m s t) (h' : Moved fd n t u) :
    Moved fd (m+n) s u where
  volume := h'.volume.trans h.volume
  fails := h'.fails.trans h.fails
  pos := by rw [h'.pos,h.pos,Nat.add_assoc]
  fileSize := h'.fileSize.trans h.fileSize
  firstCluster := h'.firstCluster.trans h.firstCluster
  active := h'.active.trans h.active

theorem Moved.spc {fd n : ℕ} {s t : State} (h : Moved fd n s t) : t.secPerClus = s.secPerClus :=
  congrArg Volume.secPerClus h.volume

theorem turnState_moved {s : State} {fd left : ℕ} (hok : s.disk.fails s.disk.clock = false) :
    Moved fd (turnCount s fd left) s (turnState s fd left).1 := by
  obtain ⟨hvolume,hfails,-,hfile,-⟩ := @turnState_spec s fd left hok
  exact ⟨hvolume,hfails,by rw [hfile],by rw [hfile],by rw [hfile],by rw [hfile]⟩

/-- Whatever the disk holds, the loop ends, stores no more than was asked for and is left
of the file, and moves the position by what it has stored. -/
theorem readLoop_survives {s : State} (hspc : s.secPerClus ≠ 0) {fd len : ℕ} (fuel : ℕ)
    {out : List UInt8} (hpos : (s.files fd).pos ≤ (s.files fd).fileSize) (hlen : out.length ≤ len)
    (hfuel : len-out.length < fuel) :
    ∃ t r piece, readLoop fd len fuel s out = (t,.returned r,out++piece) ∧
      piece.length ≤ min (len-out.length) ((s.files fd).fileSize-(s.files fd).pos) ∧
      Moved fd piece.length s t ∧ (r = -1 ∨ r = ((out++piece).length : ℤ).bmod (2^32)) := by
  induction fuel generalizing s out with
  | zero => omega
  | succ fuel ih =>
    rcases readTurn_cases hspc fd len out with ⟨-,hturn⟩ | ⟨-,-,hturn⟩ | ⟨hwants,hok,hturn⟩
    · refine ⟨s,_,[],by rw [readLoop,hturn,returnRead,List.append_nil],by simp,?_,Or.inr ?_⟩
      · exact ⟨rfl,rfl,rfl,rfl,rfl,rfl⟩
      · rw [List.append_nil]
    · refine ⟨_,_,[],by rw [readLoop,hturn,List.append_nil],by simp,?_,Or.inl rfl⟩
      exact ⟨rfl,rfl,rfl,rfl,rfl,rfl⟩
    · obtain ⟨n,hn⟩ : ∃ n, n = turnCount s fd (len-out.length) := ⟨_,rfl⟩
      have hn0 := turnCount_pos hwants
      obtain ⟨hnlen,hnsize⟩ := turnCount_le s fd (len-out.length)
      have hmoved := @turnState_moved s fd (len-out.length) hok
      have hpiece := turnPiece_length s fd (len-out.length)
      rw [← hn] at hn0 hnlen hnsize hmoved hpiece
      by_cases hended : (turnState s fd (len-out.length)).2 = true
      · refine ⟨_,_,turnPiece s fd (len-out.length),by rw [readLoop,hturn,if_pos hended,returnRead],
          by omega,by rwa [hpiece],Or.inr rfl⟩
      · have hlen' : (out++turnPiece s fd (len-out.length)).length = out.length+n := by
          rw [List.length_append,hpiece]
        obtain ⟨t,r,piece,hrun,hle,ht,hr⟩ := @ih (turnState s fd (len-out.length)).1
          (hmoved.spc ▸ hspc) (out++turnPiece s fd (len-out.length))
          (by rw [hmoved.pos,hmoved.fileSize]; omega) (by omega) (by omega)
        rw [hmoved.pos,hmoved.fileSize] at hle
        refine ⟨t,r,turnPiece s fd (len-out.length)++piece,?_,?_,?_,?_⟩
        · rw [readLoop,hturn,if_neg hended]
          simpa only [List.append_assoc] using hrun
        · rw [List.length_append,hpiece]
          omega
        · rw [List.length_append,hpiece]
          exact hmoved.trans ht
        · simpa only [List.append_assoc] using hr

/-- `fat32_read` survives any disk. -/
theorem read_survives (s : State) (fd : ℕ) (buf : Bool) (len : ℕ) (hfd : fd < maxFiles)
    (hactive : (s.files fd).active = true) (hpos : (s.files fd).pos ≤ (s.files fd).fileSize)
    (hspc : 1 ≤ s.secPerClus) (hlen : len < 2^31) :
    ∃ t r out, fat32Read s fd buf len = (t,.returned r,out) ∧
      out.length ≤ min len ((s.files fd).fileSize-(s.files fd).pos) ∧
      (t.files fd).fileSize = (s.files fd).fileSize ∧ (t.files fd).pos ≤ (s.files fd).fileSize ∧
      (0 ≤ r → r = out.length ∧ (t.files fd).pos = (s.files fd).pos+r.toNat) := by
  have hrange : ¬ ((fd : ℤ) < 0 ∨ (fd : ℤ) ≥ maxFiles) := by omega
  by_cases hargs : buf = false ∨ len = 0
  · refine ⟨s,-1,[],?_,by simp,rfl,hpos,by omega⟩
    simp only [fat32Read,if_neg hrange,Int.toNat_natCast,hactive,if_pos hargs,Bool.true_eq_false,if_false]
  · obtain ⟨t,r,out,hrun,hle,hmoved,hr⟩ := @readLoop_survives s (by omega) fd len (len+1) [] hpos
      (Nat.zero_le _) (by simp)
    simp only [List.nil_append,List.length_nil,Nat.sub_zero] at hrun hle hr
    refine ⟨t,r,out,?_,hle,hmoved.fileSize,by rw [hmoved.pos]; omega,fun h0 => ?_⟩
    · simp only [fat32Read,if_neg hrange,Int.toNat_natCast,hactive,if_neg hargs,Bool.true_eq_false,
        if_false,hrun]
    · have hret : r = out.length := by
        rcases hr with hneg | hcount
        · omega
        · exact hcount.trans (Int.bmod_eq_of_le (by omega) (by omega))
      exact ⟨hret,by rw [hmoved.pos,hret,Int.toNat_natCast]⟩

/-- A file in the single cluster 3, which is linked to itself, with 300 of its bytes read;
the disk fails at its second transfer. -/
def loopState : State :=
  { demo with
    files := fun _ => ⟨3,3,5000,300,false,true⟩
    disk := ⟨fun lba => if lba = 1 then ⟨fun i => if i.val%4 = 0 then 3 else 0⟩ else demoSector lba,
      fun n => n = 1,0⟩ }

theorem read_survives_loop :
    ∃ t r out, fat32Read loopState 0 true 4000 = (t,.returned r,out) ∧
      out.length ≤ min 4000 ((loopState.files 0).fileSize-(loopState.files 0).pos) ∧
      (t.files 0).fileSize = (loopState.files 0).fileSize ∧
      (t.files 0).pos ≤ (loopState.files 0).fileSize ∧
      (0 ≤ r → r = out.length ∧ (t.files 0).pos = (loopState.files 0).pos+r.toNat) :=
  read_survives loopState 0 true 4000 (by decide) rfl (by decide) le_rfl (by decide)

end Fat32
end ValiantCore
