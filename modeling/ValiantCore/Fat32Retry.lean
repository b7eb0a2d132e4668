import ValiantCore.Fat32Turns

/-! Which sectors one call of `fat32_read` transfers, when, and in which clusters: a
schedule that the position, the links and the failing transfers determine. A call that
fails can be repeated just if it fails at the first sector of its schedule. -/
namespace ValiantCore
namespace Fat32

/-- The time of the transfer of the `k`-th sector from the position on, and its cluster. -/
def State.schedule (s : State) (fd : ℕ) : ℕ → ℕ × ℕ
  | 0 => s.here fd
  | k+1 => s.volume.move s.disk.fails (((s.files fd).pos/sectorSz+(k+1))*sectorSz) (s.schedule fd k)

def stop (s : State) (fd left : ℕ) : ℕ := min ((s.files fd).pos+left) (s.files fd).fileSize

/-- Some of the request lies in the `k`-th sector. -/
def Touches (s : State) (fd left k : ℕ) : Prop :=
  (s.files fd).pos < stop s fd left ∧ ((s.files fd).pos/sectorSz+k)*sectorSz < stop s fd left

/-- The call comes to the `k`-th sector: the sectors before it have been transferred, and
no link on the way there is an end mark. -/
structure Reaches (s : State) (fd left k : ℕ) : Prop where
  touches : Touches s fd left k
  served : ∀ j < k, s.disk.fails (s.schedule fd j).1 = false
  linked : ∀ j < k, (((s.files fd).pos/sectorSz+(j+1))*sectorSz)%s.volume.clusterSz = 0 →
    (s.schedule fd (j+1)).2 < eoc

def FaultAt (s : State) (fd left k : ℕ) : Prop :=
  Reaches s fd left k ∧ s.disk.fails (s.schedule fd k).1 = true

def Served (s : State) (fd left : ℕ) : Prop :=
  (s.files fd).pos+left ≤ (s.files fd).fileSize ∧
    ∀ k, Touches s fd left k → Reaches s fd left k ∧ s.disk.fails (s.schedule fd k).1 = false

section Schedule
variable {s : State} {fd left : ℕ}

theorem reaches_zero : Reaches s fd left 0 ↔ Wants s fd left := by
  have hdiv := Nat.div_mul_le_self (s.files fd).pos sectorSz
  constructor
  · intro h
    have hpos := h.touches.1
    unfold stop at hpos
    unfold Wants
    omega
  · rintro ⟨hleft,hpos⟩
    refine ⟨?_,by simp,by simp⟩
    unfold Touches stop
    rw [Nat.add_zero]
    omega

theorem turnCount_end (h : Wants s fd left) :
    (s.files fd).pos+turnCount s fd left =
      min (((s.files fd).pos/sectorSz+1)*sectorSz) (stop s fd left) := by
  have hmod : (s.files fd).pos%(s.secPerClus*sectorSz)%sectorSz = (s.files fd).pos%sectorSz :=
    Nat.mod_mul_left_mod _ _ _
  have hsum := Nat.div_add_mod' (s.files fd).pos sectorSz
  have hlt := Nat.mod_lt (s.files fd).pos (show 0 < sectorSz from by decide)
  obtain ⟨hleft,hpos⟩ := h
  rw [turnCount,hmod,stop,Nat.succ_mul]
  omega

theorem stop_turn (hok : s.disk.fails s.disk.clock = false) :
    stop (turnState s fd left).1 fd (left-turnCount s fd left) = stop s fd left := by
  have hmoved := @turnState_moved s fd left hok
  have hle := (turnCount_le s fd left).1
  rw [stop,hmoved.pos,hmoved.fileSize,stop]
  omega

theorem schedule_turn (hok : s.disk.fails s.disk.clock = false)
    (hend : (s.files fd).pos+turnCount s fd left = ((s.files fd).pos/sectorSz+1)*sectorSz) (k : ℕ) :
    (turnState s fd left).1.schedule fd k = s.schedule fd (k+1) := by
  obtain ⟨hvolume,hfails,hhere,hfile,-⟩ := @turnState_spec s fd left hok
  have hdiv : ((s.files fd).pos+turnCount s fd left)/sectorSz = (s.files fd).pos/sectorSz+1 := by
    rw [hend,Nat.mul_div_cancel _ (by decide)]
  induction k with
  | zero => rw [State.schedule,hhere,hend,State.schedule,State.schedule]
  | succ k ih =>
    rw [State.schedule,hvolume,hfails,hfile,ih,State.schedule]
    simp only [hdiv]
    congr 2
    omega

theorem touches_turn (hwants : Wants s fd left) (hok : s.disk.fails s.disk.clock = false) (k : ℕ) :
    Touches (turnState s fd left).1 fd (left-turnCount s fd left) k ↔ Touches s fd left (k+1) := by
  have hmoved := @turnState_moved s fd left hok
  have hcount := turnCount_end hwants
  have hstart := (reaches_zero.mpr hwants).touches.1
  unfold Touches
  rw [stop_turn hok,hmoved.pos]
  rcases Nat.lt_or_ge (((s.files fd).pos/sectorSz+1)*sectorSz) (stop s fd left) with hlt | hge
  · have hend : (s.files fd).pos+turnCount s fd left = ((s.files fd).pos/sectorSz+1)*sectorSz := by omega
    rw [hend,Nat.mul_div_cancel _ (by decide),Nat.add_assoc,Nat.add_comm 1 k]
    omega
  · have hend : (s.files fd).pos+turnCount s fd left = stop s fd left := by omega
    have hmore : ((s.files fd).pos/sectorSz+1)*sectorSz ≤ ((s.files fd).pos/sectorSz+(k+1))*sectorSz :=
      Nat.mul_le_mul_right _ (by omega)
    omega

theorem end_of_touches (hwants : Wants s fd left) {k : ℕ} (hmore : Touches s fd left (k+1)) :
    (s.files fd).pos+turnCount s fd left = ((s.files fd).pos/sectorSz+1)*sectorSz := by
  have hcount := turnCount_end hwants
  have hnext : ((s.files fd).pos/sectorSz+1)*sectorSz ≤ ((s.files fd).pos/sectorSz+(k+1))*sectorSz :=
    Nat.mul_le_mul_right _ (by omega)
  have hlt := hmore.2
  omega

theorem reaches_succ (hwants : Wants s fd left) (hok : s.disk.fails s.disk.clock = false) (k : ℕ) :
    Reaches s fd left (k+1) ↔ (turnState s fd left).2 = false ∧
      Reaches (turnState s fd left).1 fd (left-turnCount s fd left) k := by
  have htouches := touches_turn hwants hok k
  by_cases hmore : Touches s fd left (k+1)
  · obtain ⟨hvolume,hfails,hhere,hfile,hended⟩ := @turnState_spec s fd left hok
    have hend := end_of_touches hwants hmore
    have hschedule := schedule_turn hok hend
    have hdiv : ((s.files fd).pos+turnCount s fd left)/sectorSz = (s.files fd).pos/sectorSz+1 := by
      rw [hend,Nat.mul_div_cancel _ (by decide)]
    -- the link at the end of the first sector
    have hfirst : (turnState s fd left).2 = false ↔
        ((((s.files fd).pos/sectorSz+1)*sectorSz)%s.volume.clusterSz = 0 → (s.schedule fd 1).2 < eoc) := by
      rw [hended,← hhere,hend,← hschedule 0,decide_eq_false_iff_not,not_and,not_le]
      rfl
    have hplace : ∀ j, ((turnState s fd left).1.files fd).pos/sectorSz+(j+1) =
        (s.files fd).pos/sectorSz+(j+1+1) := by
      intro j
      rw [hfile]
      simp only [hdiv]
      omega
    rw [hfirst]
    constructor
    · intro h
      refine ⟨h.linked 0 (Nat.succ_pos k),htouches.mpr hmore,fun j hj => ?_,fun j hj => ?_⟩
      · rw [hfails,hschedule]
        exact h.served (j+1) (by omega)
      · rw [hplace,hvolume,hschedule]
        exact h.linked (j+1) (by omega)
    · rintro ⟨hlink,h⟩
      refine ⟨hmore,fun j hj => ?_,fun j hj => ?_⟩
      · cases j with
        | zero => exact hok
        | succ j =>
          have hserved := h.served j (by omega)
          rwa [hfails,hschedule] at hserved
      · cases j with
        | zero => exact hlink
        | succ j =>
          have hlinked := h.linked j (by omega)
          rwa [hplace,hvolume,hschedule] at hlinked
  · constructor
    · exact fun h => absurd h.touches hmore
    · exact fun h => absurd (htouches.mp h.2.touches) hmore

theorem faultAt_zero : FaultAt s fd left 0 ↔ Wants s fd left ∧ s.disk.fails s.disk.clock = true := by
  rw [FaultAt,reaches_zero]
  rfl

theorem fails_turn (hwants : Wants s fd left) (hok : s.disk.fails s.disk.clock = false) {k : ℕ}
    (hmore : Touches s fd left (k+1)) :
    (turnState s fd left).1.disk.fails ((turnState s fd left).1.schedule fd k).1 =
      s.disk.fails (s.schedule fd (k+1)).1 := by
  rw [schedule_turn hok (end_of_touches hwants hmore),(turnState_moved hok).fails]

theorem faultAt_succ (hwants : Wants s fd left) (hok : s.disk.fails s.disk.clock = false) (k : ℕ) :
    FaultAt s fd left (k+1) ↔ (turnState s fd left).2 = false ∧
      FaultAt (turnState s fd left).1 fd (left-turnCount s fd left) k := by
  have hreaches := reaches_succ hwants hok k
  have hfails := @fails_turn s fd left hwants hok k
  have htouches := touches_turn hwants hok k
  constructor
  · rintro ⟨hreach,hfault⟩
    obtain ⟨hlink,hrest⟩ := hreaches.mp hreach
    exact ⟨hlink,hrest,(hfails hreach.touches).trans hfault⟩
  · rintro ⟨hlink,hrest,hfault⟩
    exact ⟨hreaches.mpr ⟨hlink,hrest⟩,(hfails (htouches.mp hrest.touches)).symm.trans hfault⟩

theorem fault_turn (hwants : Wants s fd left) (hok : s.disk.fails s.disk.clock = false) :
    (∃ k, FaultAt s fd left k) ↔ (turnState s fd left).2 = false ∧
      ∃ k, FaultAt (turnState s fd left).1 fd (left-turnCount s fd left) k := by
  constructor
  · rintro ⟨k,hk⟩
    cases k with
    | zero => simp [(faultAt_zero.mp hk).2] at hok
    | succ k =>
      obtain ⟨hgo,hrest⟩ := (faultAt_succ hwants hok k).mp hk
      exact ⟨hgo,k,hrest⟩
  · rintro ⟨hgo,k,hrest⟩
    exact ⟨k+1,(faultAt_succ hwants hok k).mpr ⟨hgo,hrest⟩⟩

/-- A request is delivered if the turn does not meet the end of the chain, or ends it, and
the rest is delivered. -/
theorem served_turn (hwants : Wants s fd left) (hok : s.disk.fails s.disk.clock = false) :
    Served s fd left ↔
      ((turnState s fd left).2 = false ∨ left-turnCount s fd left = 0) ∧
        Served (turnState s fd left).1 fd (left-turnCount s fd left) := by
  have hmoved := @turnState_moved s fd left hok
  have hle := turnCount_le s fd left
  have htouches := touches_turn hwants hok
  constructor
  · rintro ⟨hfits,hall⟩
    refine ⟨?_,?_,fun k hk => ?_⟩
    · by_cases hdone : left-turnCount s fd left = 0
      · exact Or.inr hdone
      · have hwants' : Wants (turnState s fd left).1 fd (left-turnCount s fd left) := by
          unfold Wants
          rw [hmoved.pos,hmoved.fileSize]
          omega
        have hnext := (htouches 0).mp (reaches_zero.mpr hwants').touches
        exact Or.inl ((reaches_succ hwants hok 0).mp (hall 1 hnext).1).1
    · rw [hmoved.pos,hmoved.fileSize]
      omega
    · obtain ⟨hreach,hfault⟩ := hall (k+1) ((htouches k).mp hk)
      exact ⟨((reaches_succ hwants hok k).mp hreach).2,(fails_turn hwants hok hreach.touches).trans hfault⟩
  · rintro ⟨hlink,hfits,hall⟩
    rw [hmoved.pos,hmoved.fileSize] at hfits
    refine ⟨by omega,fun k hk => ?_⟩
    cases k with
    | zero => exact ⟨reaches_zero.mpr hwants,hok⟩
    | succ k =>
      obtain ⟨hreach,hfault⟩ := hall k ((htouches k).mpr hk)
      have hgo : (turnState s fd left).2 = false := by
        rcases hlink with hgo | hdone
        · exact hgo
        · have hlt := hreach.touches.1
          unfold stop at hlt
          omega
      exact ⟨(reaches_succ hwants hok k).mpr ⟨hgo,hreach⟩,(fails_turn hwants hok hk).symm.trans hfault⟩

theorem no_fault_of_done (h : ¬ Wants s fd left) (k : ℕ) : ¬ FaultAt s fd left k := by
  rintro ⟨hreach,-⟩
  have hlt := hreach.touches.1
  unfold stop at hlt
  unfold Wants at h
  omega

theorem served_of_done (h : ¬ Wants s fd left) (hpos : (s.files fd).pos ≤ (s.files fd).fileSize) :
    Served s fd left ↔ left = 0 := by
  constructor
  · rintro ⟨hfits,-⟩
    unfold Wants at h
    omega
  · rintro rfl
    refine ⟨hpos,fun k hk => ?_⟩
    have hlt := hk.1
    unfold stop at hlt
    omega

end Schedule

theorem count_eq_neg_one {n : ℕ} (h : n < 2^32) : (n : ℤ).bmod (2^32) = -1 ↔ n = 2^32-1 := by
  rw [Int.bmod_def]
  omega

/-- The loop returns -1 if a transfer fails, or if it delivers `2^32 - 1` bytes. -/
theorem readLoop_neg_iff {s : State} (hspc : s.secPerClus ≠ 0) {fd len : ℕ} (fuel : ℕ)
    {out : List UInt8} (hpos : (s.files fd).pos ≤ (s.files fd).fileSize) (hlen : out.length ≤ len)
    (hbound : len < 2^32) (hfuel : len-out.length < fuel) :
    (readLoop fd len fuel s out).2.1 = .returned (-1) ↔
      (∃ k, FaultAt s fd (len-out.length) k) ∨ (len = 2^32-1 ∧ Served s fd (len-out.length)) := by
  induction fuel generalizing s out with
  | zero => omega
  | succ fuel ih =>
    obtain ⟨left,hleft⟩ : ∃ left, left = len-out.length := ⟨_,rfl⟩
    have hcases := readTurn_cases hspc fd len out
    rw [← hleft] at hcases ⊢
    rcases hcases with ⟨hdone,hturn⟩ | ⟨hwants,hfails,hturn⟩ | ⟨hwants,hok,hturn⟩
    · have hcount := @count_eq_neg_one out.length (by omega)
      rw [readLoop,hturn,returnRead]
      simp only [Outcome.returned.injEq,hcount,served_of_done hdone hpos,no_fault_of_done hdone,
        exists_false,false_or]
      omega
    · rw [readLoop,hturn]
      exact iff_of_true rfl (Or.inl ⟨0,faultAt_zero.mpr ⟨hwants,hfails⟩⟩)
    · have hmoved := @turnState_moved s fd left hok
      have hle := turnCount_le s fd left
      have hn0 := turnCount_pos hwants
      have hlen' : (out++turnPiece s fd left).length = out.length+turnCount s fd left := by
        rw [List.length_append,turnPiece_length]
      have hserved := served_turn hwants hok
      have hfault := fault_turn hwants hok
      cases hended : (turnState s fd left).2 with
      | true =>
        have hcount := @count_eq_neg_one (out++turnPiece s fd left).length (by omega)
        have hempty : left-turnCount s fd left = 0 →
            Served (turnState s fd left).1 fd (left-turnCount s fd left) := by
          intro hzero
          refine (served_of_done ?_ ?_).mpr hzero
          · unfold Wants
            omega
          · rw [hmoved.pos,hmoved.fileSize]
            omega
        rw [readLoop,hturn,if_pos hended,returnRead,hfault,hserved,hended]
        simp only [Outcome.returned.injEq,hcount,Bool.true_eq_false,false_and,false_or]
        constructor
        · intro hfull
          have hzero : left-turnCount s fd left = 0 := by omega
          exact ⟨by omega,hzero,hempty hzero⟩
        · rintro ⟨hfull,hzero,-⟩
          omega
      | false =>
        have hih := @ih (turnState s fd left).1 (hmoved.spc ▸ hspc) (out++turnPiece s fd left)
          (by rw [hmoved.pos,hmoved.fileSize]; omega) (by omega) (by omega)
        have hleft' : len-(out++turnPiece s fd left).length = left-turnCount s fd left := by omega
        rw [hleft'] at hih
        rw [readLoop,hturn,if_neg (by simp [hended]),hfault,hserved,hended]
        simpa using hih

/-- The disk has recovered: from now on every transfer succeeds. -/
def State.recovered (s : State) : State := { s with disk.fails := fun _ => false }

/-- If the call returns -1 the descriptor stands where it stood, and repeated on the
recovered disk the call returns and stores what it would have without the failure. -/
def Retryable (s : State) (fd : ℤ) (buf : Bool) (len : ℕ) : Prop :=
  let t := (fat32Read s fd buf len).1
  (fat32Read s fd buf len).2.1 = .returned (-1) →
    (t.files fd.toNat).pos = (s.files fd.toNat).pos ∧
      (t.files fd.toNat).curCluster = (s.files fd.toNat).curCluster ∧
      (fat32Read t.recovered fd buf len).2 = (fat32Read s.recovered fd buf len).2

/-- The arguments pass the tests of `fat32_read`, and the volume has a cluster size. -/
def Accepted (s : State) (fd : ℤ) (buf : Bool) (len : ℕ) : Prop :=
  ¬ (fd < 0 ∨ fd ≥ maxFiles) ∧ (s.files fd.toNat).active = true ∧ ¬ (buf = false ∨ len = 0) ∧
    s.secPerClus ≠ 0

/-- A transfer behind the first sector fails, or the request is for `2^32 - 1` bytes and is
delivered. -/
def Spoiled (s : State) (fd len : ℕ) : Prop :=
  (∃ k, FaultAt s fd len (k+1)) ∨ (len = 2^32-1 ∧ Served s fd len)

/-- Two states that show the same file to descriptor `fd`, on disks that work. -/
structure Alike (fd : ℕ) (s t : State) : Prop where
  volume : t.volume = s.volume
  file : t.files fd = s.files fd
  works : ∀ n, s.disk.fails n = false
  works' : ∀ n, t.disk.fails n = false

section Alike
variable {s t : State} {fd : ℕ}

theorem Alike.spc (h : Alike fd s t) : t.secPerClus = s.secPerClus := congrArg Volume.secPerClus h.volume

theorem Alike.count (h : Alike fd s t) (left : ℕ) : turnCount t fd left = turnCount s fd left := by
  unfold turnCount
  rw [h.file,h.spc]

theorem Alike.piece (h : Alike fd s t) (left : ℕ) : turnPiece t fd left = turnPiece s fd left := by
  have hsector : t.disk.sector = s.disk.sector := congrArg Volume.sector h.volume
  have hlba : turnLba t fd = turnLba s fd := by
    have hstart : t.dataStart = s.dataStart := congrArg Volume.dataStart h.volume
    simp only [turnLba,clusterToLba,h.file,h.spc,hstart]
  rw [turnPiece,turnPiece,h.count,hlba,hsector,h.file,h.spc]

theorem Alike.turn (h : Alike fd s t) (left : ℕ) :
    Alike fd (turnState s fd left).1 (turnState t fd left).1 ∧
      (turnState t fd left).2 = (turnState s fd left).2 := by
  obtain ⟨hvolume,hfails,-,hfile,hended⟩ := @turnState_spec s fd left (h.works _)
  obtain ⟨hvolume',hfails',-,hfile',hended'⟩ := @turnState_spec t fd left (h.works' _)
  have hcluster : ∀ pos, (t.volume.move t.disk.fails pos (t.here fd)).2 =
      (s.volume.move s.disk.fails pos (s.here fd)).2 := by
    intro pos
    simp only [Volume.move,Volume.fetch,State.here,h.volume,h.file,h.works,h.works']
    split_ifs <;> rfl
  refine ⟨⟨?_,?_,?_,?_⟩,?_⟩
  · rw [hvolume,hvolume',h.volume]
  · rw [hfile,hfile',hcluster,h.count,h.file]
  · rw [hfails]
    exact h.works
  · rw [hfails']
    exact h.works'
  · rw [hended,hended',hcluster,h.count,h.file,h.volume]

/-- On a disk that works, what a call returns and stores depends on nothing but the volume
and the descriptor. -/
theorem Alike.readLoop (h : Alike fd s t) (hspc : s.secPerClus ≠ 0) (len fuel : ℕ) (out : List UInt8) :
    (Fat32.readLoop fd len fuel t out).2 = (Fat32.readLoop fd len fuel s out).2 := by
  induction fuel generalizing s t out with
  | zero => rfl
  | succ fuel ih =>
    have hspct : t.secPerClus ≠ 0 := h.spc ▸ hspc
    have hwants : Wants t fd (len-out.length) ↔ Wants s fd (len-out.length) := by
      unfold Wants
      rw [h.file]
    obtain ⟨hnext,hended⟩ := h.turn (len-out.length)
    rcases readTurn_cases hspc fd len out with ⟨hdone,hturn⟩ | ⟨-,hfails,-⟩ | ⟨hgo,-,hturn⟩
    · rcases readTurn_cases hspct fd len out with ⟨-,hturn'⟩ | ⟨hgo,-⟩ | ⟨hgo,-⟩
      · rw [Fat32.readLoop,Fat32.readLoop,hturn,hturn']
        rfl
      · exact absurd (hwants.mp hgo) hdone
      · exact absurd (hwants.mp hgo) hdone
    · simp [h.works] at hfails
    · rcases readTurn_cases hspct fd len out with ⟨hdone,-⟩ | ⟨-,hfails,-⟩ | ⟨-,-,hturn'⟩
      · exact absurd (hwants.mpr hgo) hdone
      · simp [h.works'] at hfails
      · rw [Fat32.readLoop,Fat32.readLoop,hturn,hturn',hended,h.piece]
        cases (turnState s fd (len-out.length)).2 with
        | true => rfl
        | false =>
          have hmoved := @turnState_moved s fd (len-out.length) (h.works _)
          exact ih hnext (hmoved.spc ▸ hspc) _

end Alike

theorem readLoop_moves {s : State} (hspc : s.secPerClus ≠ 0) {fd len : ℕ} (hwants : Wants s fd len)
    (hok : s.disk.fails s.disk.clock = false) :
    (s.files fd).pos < ((readLoop fd len (len+1) s []).1.files fd).pos := by
  have hn0 := turnCount_pos hwants
  have hle := turnCount_le s fd len
  have hmoved := @turnState_moved s fd len hok
  rcases readTurn_cases hspc fd len [] with ⟨hdone,-⟩ | ⟨-,hfails,-⟩ | ⟨-,-,hturn⟩
  · exact absurd hwants hdone
  · simp [hok] at hfails
  · rw [List.length_nil,Nat.sub_zero,List.nil_append] at hturn
    rw [readLoop,hturn]
    cases hended : (turnState s fd len).2 with
    | true =>
      rw [if_pos rfl,returnRead]
      simp only [hmoved.pos]
      omega
    | false =>
      obtain ⟨t,r,piece,hrun,-,ht,-⟩ := @readLoop_survives (turnState s fd len).1 (hmoved.spc ▸ hspc) fd len
        len (turnPiece s fd len) (by rw [hmoved.pos,hmoved.fileSize]; omega) (by simpa using hle.1)
        (by rw [turnPiece_length]; omega)
      simp only [Bool.false_eq_true,if_false,hrun,ht.pos,hmoved.pos]
      omega

theorem fat32Read_accepted {s : State} {fd : ℤ} {buf : Bool} {len : ℕ} (h : Accepted s fd buf len) :
    fat32Read s fd buf len = readLoop fd.toNat len (len+1) s [] := by
  obtain ⟨hrange,hactive,hargs,-⟩ := h
  simp only [fat32Read,if_neg hrange,hactive,if_neg hargs,Bool.true_eq_false,if_false]

theorem readTurn_zero {s : State} (hspc : s.secPerClus = 0) (fd len : ℕ) :
    ∃ outcome, readTurn fd len s [] = .done s outcome [] := by
  simp only [readTurn,hspc,if_true,returnRead]
  split_ifs
  · exact ⟨_,rfl⟩
  · exact ⟨_,rfl⟩

theorem fat32Read_refused {s : State} {fd : ℤ} {buf : Bool} {len : ℕ} (h : ¬ Accepted s fd buf len) :
    (fat32Read s fd buf len).1 = s := by
  by_cases hrange : fd < 0 ∨ fd ≥ maxFiles
  · simp [fat32Read,hrange]
  · by_cases hactive : (s.files fd.toNat).active = true
    · by_cases hargs : buf = false ∨ len = 0
      · simp [fat32Read,hrange,hactive,hargs]
      · have hspc : s.secPerClus = 0 := by
          by_contra hspc
          exact h ⟨hrange,hactive,hargs,hspc⟩
        obtain ⟨outcome,hturn⟩ := readTurn_zero hspc fd.toNat len
        simp only [fat32Read,if_neg hrange,hactive,if_neg hargs,Bool.true_eq_false,if_false,readLoop,hturn]
    · simp [fat32Read,hrange,hactive]

theorem retryable_of_refused {s : State} {fd : ℤ} {buf : Bool} {len : ℕ}
    (h : ¬ Accepted s fd buf len) : Retryable s fd buf len := by
  intro _
  rw [fat32Read_refused h]
  exact ⟨rfl,rfl,rfl⟩

section Accepted
variable {s : State} {fd : ℤ} {buf : Bool} {len : ℕ}

theorem retryable_of_first_fails (h : Accepted s fd buf len) (hwants : Wants s fd.toNat len)
    (hfails : s.disk.fails s.disk.clock = true) : Retryable s fd buf len := by
  have hspc := h.2.2.2
  have ht : (fat32Read s fd buf len).1 = { s with disk.clock := s.disk.clock+1 } := by
    rw [fat32Read_accepted h,readLoop]
    rcases readTurn_cases hspc fd.toNat len [] with ⟨hdone,-⟩ | ⟨-,-,hturn⟩ | ⟨-,hok,-⟩
    · exact absurd hwants hdone
    · rw [hturn]
    · simp [hok] at hfails
  intro _
  simp only [ht]
  refine ⟨trivial,trivial,?_⟩
  have halike : Alike fd.toNat s.recovered ({ s with disk.clock := s.disk.clock+1 } : State).recovered :=
    ⟨rfl,rfl,fun _ => rfl,fun _ => rfl⟩
  rw [fat32Read_accepted (s := s.recovered) h,
    fat32Read_accepted (s := ({ s with disk.clock := s.disk.clock+1 } : State).recovered) h]
  exact halike.readLoop hspc len (len+1) []

theorem not_spoiled_of_first_fails {fd : ℕ} (hwants : Wants s fd len)
    (hfails : s.disk.fails s.disk.clock = true) : ¬ Spoiled s fd len := by
  have hfirst : s.disk.fails (s.schedule fd 0).1 ≠ false := by
    rw [State.schedule,State.here,hfails]
    exact Bool.noConfusion
  rintro (⟨k,hreach,-⟩ | ⟨-,-,hserved⟩)
  · exact hfirst (hreach.served 0 (Nat.succ_pos k))
  · exact hfirst (hserved 0 (reaches_zero.mpr hwants).touches).2

theorem spoiled_iff (h : Accepted s fd buf len) (hlen : len < 2^32) (hwants : Wants s fd.toNat len)
    (hok : s.disk.fails s.disk.clock = false) :
    Spoiled s fd.toNat len ↔ (fat32Read s fd buf len).2.1 = .returned (-1) := by
  have hneg := @readLoop_neg_iff s h.2.2.2 fd.toNat len (len+1) [] hwants.2.le (Nat.zero_le _) hlen (by simp)
  rw [List.length_nil,Nat.sub_zero,← fat32Read_accepted h] at hneg
  have hfirst : (∃ k, FaultAt s fd.toNat len k) ↔ ∃ k, FaultAt s fd.toNat len (k+1) := by
    constructor
    · rintro ⟨k,hk⟩
      cases k with
      | zero => simp [(faultAt_zero.mp hk).2] at hok
      | succ k => exact ⟨k,hk⟩
    · rintro ⟨k,hk⟩
      exact ⟨k+1,hk⟩
  rw [hneg,Spoiled,hfirst]

end Accepted

/-- A failed call can be repeated, unless it failed behind its first sector, or did not fail
but delivered `2^32 - 1` bytes. -/
theorem retryable_iff (s : State) (fd : ℤ) (buf : Bool) (len : ℕ) (hlen : len < 2^32) :
    Retryable s fd buf len ↔ ¬ (Accepted s fd buf len ∧ Spoiled s fd.toNat len) := by
  by_cases haccepted : Accepted s fd buf len
  · have hrun := fat32Read_accepted haccepted
    have hspc := haccepted.2.2.2
    have hleft : len-([] : List UInt8).length = len := Nat.sub_zero len
    have hcases := readTurn_cases hspc fd.toNat len []
    rw [hleft] at hcases
    rw [and_iff_right haccepted]
    rcases hcases with ⟨hdone,hturn⟩ | ⟨hwants,hfails,-⟩ | ⟨hwants,hok,-⟩
    · -- nothing to copy: the call returns 0
      refine iff_of_true (fun hret => ?_) ?_
      · rw [hrun,readLoop,hturn] at hret
        simp [returnRead] at hret
      · rintro (⟨k,hk⟩ | ⟨hfull,hfits,-⟩)
        · exact no_fault_of_done hdone _ hk
        · unfold Wants at hdone
          omega
    · exact iff_of_true (retryable_of_first_fails haccepted hwants hfails)
        (not_spoiled_of_first_fails hwants hfails)
    · -- the first sector is delivered: the position has moved
      have hmoves := readLoop_moves hspc hwants hok
      rw [spoiled_iff haccepted hlen hwants hok]
      constructor
      · intro hretry hret
        have hpos := (hretry hret).1
        rw [hrun] at hpos
        omega
      · exact fun hret h => absurd h hret
  · exact iff_of_true (retryable_of_refused haccepted) fun h => haccepted h.1

/-- The file `A` of 700 bytes has been opened; the `n`-th transfer fails. -/
def openedDemo (n : ℕ) : State :=
  (fat32Open 1 { demo with disk.fails := fun k => k = n } (some [0x41])).1

theorem retryable_first_sector : Retryable (openedDemo 1) 0 true 600 := by
  refine (retryable_iff (openedDemo 1) 0 true 600 (by decide)).mpr ?_
  rintro ⟨-,⟨k,hreach,-⟩ | ⟨hfull,-⟩⟩
  · exact absurd (hreach.served 0 (Nat.succ_pos k)) (by decide +kernel)
  · exact absurd hfull (by decide)

/-- The second sector of the file fails: the call returns -1, and the descriptor stands
512 bytes further on. -/
theorem failed_read_moves : ¬ Retryable (openedDemo 3) 0 true 600 := by
  intro hretry
  have hpos := (hretry (by decide +kernel)).1
  exact absurd hpos (by decide +kernel)

end Fat32
end ValiantCore
