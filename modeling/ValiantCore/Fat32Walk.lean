import ValiantCore.Fat32Links

/-! The two scans of the root directory. `fat32_ls` and `fat32_open` hold a copy each of
one walk over clusters, sectors and entries. The walk is stated once, with a record of
the sectors it transfers and of the entries it looks at; the scans are instances of it. -/
namespace ValiantCore
namespace Fat32

def attrVolumeId : ℕ := 0x08
def attrDirectory : ℕ := 0x10

/-- A line that `fat32_ls` prints: seven characters, and a name up to its NUL. -/
structure Line where
  tag : String
  name : List UInt8
  deriving DecidableEq, Repr

/-- The characters of `name_buf` up to the first NUL. -/
def DirEntry.fileName (e : DirEntry) : List UInt8 := (name8dot3 e.name e.ext).takeWhile (· ≠ 0)

def DirEntry.line (e : DirEntry) : Line where
  tag := if e.attr &&& attrDirectory ≠ 0 then "[DIR]  " else "       "
  name := e.fileName

/-- The lines printed for a sector, and whether the end of the directory has been met. -/
def lsEntries : List DirEntry → List Line × Bool
  | [] => ([],false)
  | e::es =>
    if e.name.headD 0 = 0x00 then ([],true)
    else if e.name.headD 0 = 0xE5 then lsEntries es
    else if e.attr = attrLfn then lsEntries es
    else if e.attr &&& attrVolumeId ≠ 0 then lsEntries es
    else (e.line::(lsEntries es).1,(lsEntries es).2)

/-- The `n` sectors of a cluster that are left, from `lba` on, and the value of a `return`. -/
def lsSectors : ℕ → State → ℕ → State × List Line × Option ℤ
  | 0, s, _ => (s,[],none)
  | n+1, s, lba =>
    let r := readSector s lba
    if r.2 ≠ 0 then (r.1,[],some (-1))
    else
      let es := lsEntries (entries r.1.sectorBuf)
      if es.2 then (r.1,es.1,some 0)
      else
        let rest := lsSectors n r.1 (lba+1)
        (rest.1,es.1++rest.2.1,rest.2.2)

/-- `while (cluster < FAT32_EOC)`, for at most `fuel` clusters. -/
def lsChain : ℕ → State → ℕ → State × List Line × Outcome
  | 0, s, _ => (s,[],.running)
  | fuel+1, s, cluster =>
    if cluster < eoc then
      match lsSectors s.secPerClus s (clusterToLba s cluster) with
      | (s,lines,some r) => (s,lines,.returned r)
      | (s,lines,none) =>
        let r := readFatEntry s cluster
        let rest := lsChain fuel r.1 r.2
        (rest.1,lines++rest.2.1,rest.2.2)
    else (s,[],.returned 0)

/-- `fat32_ls`: its result, the lines it prints, and its message. Its argument is never
used. -/
def fat32Ls (fuel : ℕ) (s : State) : State × Outcome × List Line × String :=
  if s.initialized = false then (s,.returned (-1),[],"[FAT32] Not initialized\n")
  else
    let r := lsChain fuel s s.rootCluster
    (r.1,r.2.2,r.2.1,"")

inductive Ending
  | next
  | stopped (e : DirEntry)
  | failed
  | ended
  | running

/-- A stretch of the walk: the state behind it, the sectors transferred, the entries
looked at, and its end. -/
structure Walk where
  state : State
  reads : List ℕ
  seen : List DirEntry
  ending : Ending

def upTo (stops : DirEntry → Bool) (es : List DirEntry) : List DirEntry := es.take (es.findIdx stops+1)

def walkSectors (stops : DirEntry → Bool) : ℕ → State → ℕ → Walk
  | 0, s, _ => ⟨s,[],[],.next⟩
  | n+1, s, lba =>
    let r := readSector s lba
    if r.2 ≠ 0 then ⟨r.1,[lba],[],.failed⟩
    else
      let es := entries r.1.sectorBuf
      match es.find? stops with
      | some e => ⟨r.1,[lba],upTo stops es,.stopped e⟩
      | none =>
        let rest := walkSectors stops n r.1 (lba+1)
        ⟨rest.state,lba::rest.reads,es++rest.seen,rest.ending⟩

/-- The sector of the FAT with the link of a cluster. -/
def State.fatLba (s : State) (cluster : ℕ) : ℕ := s.fatStart+cluster*4/sectorSz

def walkChain (stops : DirEntry → Bool) : ℕ → State → ℕ → Walk
  | 0, s, _ => ⟨s,[],[],.running⟩
  | fuel+1, s, cluster =>
    if cluster < eoc then
      let w := walkSectors stops s.secPerClus s (clusterToLba s cluster)
      match w.ending with
      | .next =>
        let r := readFatEntry w.state cluster
        let rest := walkChain stops fuel r.1 r.2
        ⟨rest.state,w.reads++s.fatLba cluster::rest.reads,w.seen++rest.seen,rest.ending⟩
      | _ => w
    else ⟨s,[],[],.ended⟩

def DirEntry.isLast (e : DirEntry) : Bool := e.name.headD 0 = 0x00

def DirEntry.isLive (e : DirEntry) : Bool := e.name.headD 0 ≠ 0xE5 && e.attr ≠ attrLfn

def DirEntry.isVolumeId (e : DirEntry) : Bool := e.attr &&& attrVolumeId ≠ 0

def openStops (path : List UInt8) (e : DirEntry) : Bool :=
  e.isLast || (e.isLive && pathMatches nameLen path (name8dot3 e.name e.ext))

def lsWalk (fuel : ℕ) (s : State) : Walk := walkChain DirEntry.isLast fuel s s.rootCluster

def openWalk (fuel : ℕ) (s : State) (path : List UInt8) : Walk :=
  walkChain (openStops path) fuel s s.rootCluster

section Instances
variable (path : List UInt8)

def Ending.scan : Ending → Scan
  | .next => .next
  | .stopped e => if e.isLast then .notFound else .found e
  | .failed => .failed
  | .ended => .notFound
  | .running => .running

theorem isLast_iff {e : DirEntry} : e.isLast = true ↔ e.name.headD 0 = 0 := decide_eq_true_iff

theorem isLive_iff {e : DirEntry} : e.isLive = true ↔ e.name.headD 0 ≠ 0xE5 ∧ e.attr ≠ attrLfn := by
  simp only [DirEntry.isLive,Bool.and_eq_true,decide_eq_true_eq]

theorem pass_over {A : Type} (e : DirEntry) (pass look : A) :
    (if e.name.headD 0 = 0xE5 then pass else if e.attr = attrLfn then pass else look) =
      if e.isLive then look else pass := by
  by_cases hlive : e.isLive = true
  · obtain ⟨hdel,hlfn⟩ := isLive_iff.mp hlive
    rw [if_neg hdel,if_neg hlfn,if_pos hlive]
  · rw [if_neg hlive]
    by_cases hdel : e.name.headD 0 = 0xE5
    · rw [if_pos hdel]
    · have hlfn : e.attr = attrLfn := by
        by_contra hne
        exact hlive (isLive_iff.mpr ⟨hdel,hne⟩)
      rw [if_neg hdel,if_pos hlfn]

theorem scanEntries_cons {e : DirEntry} (es : List DirEntry) (hlast : e.isLast = false) :
    scanEntries path (e::es) =
      if e.isLive && pathMatches nameLen path (name8dot3 e.name e.ext) then .found e
      else scanEntries path es := by
  have h0 : ¬ e.name.headD 0 = 0 := by
    rw [← isLast_iff,hlast]
    decide
  rw [scanEntries,if_neg h0,pass_over]
  cases e.isLive with
  | true => rfl
  | false => rfl

theorem lsEntries_cons {e : DirEntry} (es : List DirEntry) (hlast : e.isLast = false) :
    lsEntries (e::es) =
      if e.isLive && !e.isVolumeId then (e.line::(lsEntries es).1,(lsEntries es).2)
      else lsEntries es := by
  have h0 : ¬ e.name.headD 0 = 0 := by
    rw [← isLast_iff,hlast]
    decide
  rw [lsEntries,if_neg h0,pass_over]
  cases e.isLive with
  | true =>
    by_cases hvol : e.attr &&& attrVolumeId ≠ 0
    · simp [DirEntry.isVolumeId,hvol]
    · simp [DirEntry.isVolumeId,hvol]
  | false => rfl

theorem scanEntries_eq (es : List DirEntry) :
    scanEntries path es = ((es.find? (openStops path)).elim Ending.next Ending.stopped).scan := by
  induction es with
  | nil => rfl
  | cons e es ih =>
    cases hlast : e.isLast with
    | true =>
      have hstop : openStops path e = true := by rw [openStops,hlast,Bool.true_or]
      rw [scanEntries,if_pos (isLast_iff.mp hlast),List.find?_cons_of_pos hstop]
      simp [Ending.scan,hlast]
    | false =>
      rw [scanEntries_cons path es hlast]
      cases hmatch : e.isLive && pathMatches nameLen path (name8dot3 e.name e.ext) with
      | true =>
        have hstop : openStops path e = true := by rw [openStops,hmatch,Bool.or_true]
        rw [List.find?_cons_of_pos hstop]
        simp [Ending.scan,hlast]
      | false =>
        have hstop : ¬ openStops path e = true := by
          rw [openStops,hlast,hmatch]
          decide
        rw [List.find?_cons_of_neg hstop,← ih]
        rfl

def printed (es : List DirEntry) : List Line :=
  (es.filter fun e => !e.isLast && e.isLive && !e.isVolumeId).map DirEntry.line

theorem printed_append (xs ys : List DirEntry) : printed (xs++ys) = printed xs++printed ys := by
  simp [printed]

theorem upTo_cons_pos {stops : DirEntry → Bool} {e : DirEntry} (h : stops e = true) (es : List DirEntry) :
    upTo stops (e::es) = [e] := by
  simp [upTo,List.findIdx_cons,h]

theorem upTo_cons_neg {stops : DirEntry → Bool} {e : DirEntry} (h : stops e = false) (es : List DirEntry) :
    upTo stops (e::es) = e::upTo stops es := by
  simp [upTo,List.findIdx_cons,h]

theorem lsEntries_eq (es : List DirEntry) :
    lsEntries es = (printed (upTo DirEntry.isLast es),(es.find? DirEntry.isLast).isSome) := by
  induction es with
  | nil => rfl
  | cons e es ih =>
    cases hlast : e.isLast with
    | true =>
      rw [lsEntries,if_pos (isLast_iff.mp hlast),upTo_cons_pos hlast]
      simp [printed,hlast]
    | false =>
      rw [lsEntries_cons es hlast,ih,upTo_cons_neg hlast]
      cases hprint : e.isLive && !e.isVolumeId with
      | true => simp [printed,hlast,hprint]
      | false => simp [printed,hlast,hprint]

theorem upTo_of_none {stops : DirEntry → Bool} {es : List DirEntry} (h : es.find? stops = none) :
    upTo stops es = es := by
  have hall : ∀ e ∈ es, stops e = false := by simpa using h
  rw [upTo,List.findIdx_eq_length.mpr hall]
  exact List.take_of_length_le (Nat.le_succ _)

theorem scanSectors_eq (n : ℕ) (s : State) (lba : ℕ) :
    scanSectors path n s lba =
      ((walkSectors (openStops path) n s lba).state,(walkSectors (openStops path) n s lba).ending.scan) := by
  induction n generalizing s lba with
  | zero => rfl
  | succ n ih =>
    simp only [scanSectors,walkSectors,scanEntries_eq]
    by_cases hread : (readSector s lba).2 = 0
    · simp only [hread,ne_eq,not_true_eq_false,if_false]
      cases hfind : (entries (readSector s lba).1.sectorBuf).find? (openStops path) with
      | none => exact ih _ _
      | some e =>
        cases hlast : e.isLast with
        | true => simp [Ending.scan,hlast]
        | false => simp [Ending.scan,hlast]
    · simp [hread,Ending.scan]

theorem scanChain_eq (fuel : ℕ) (s : State) (cluster : ℕ) :
    scanChain path fuel s cluster =
      ((walkChain (openStops path) fuel s cluster).state,
        (walkChain (openStops path) fuel s cluster).ending.scan) := by
  induction fuel generalizing s cluster with
  | zero => rfl
  | succ fuel ih =>
    simp only [scanChain,walkChain,scanSectors_eq]
    by_cases heoc : cluster < eoc
    · simp only [heoc,if_true]
      cases hend : (walkSectors (openStops path) s.secPerClus s (clusterToLba s cluster)).ending with
      | next => exact ih _ _
      | stopped e =>
        cases hlast : e.isLast with
        | true => simp [Ending.scan,hlast,hend]
        | false => simp [Ending.scan,hlast,hend]
      | _ => simp [Ending.scan,hend]
    · simp [heoc,Ending.scan]

/-- The value that `fat32_ls` returns at such an end, if it returns. -/
def Ending.ret : Ending → Option ℤ
  | .next => none
  | .stopped _ => some 0
  | .failed => some (-1)
  | .ended => some 0
  | .running => none

def Ending.outcome (e : Ending) : Outcome := e.ret.elim .running .returned

theorem walkSectors_ends (stops : DirEntry → Bool) (n : ℕ) (s : State) (lba : ℕ) :
    (walkSectors stops n s lba).ending ≠ .running := by
  induction n generalizing s lba with
  | zero => exact Ending.noConfusion
  | succ n ih =>
    simp only [walkSectors]
    split_ifs
    · exact Ending.noConfusion
    · cases (entries (readSector s lba).1.sectorBuf).find? stops with
      | none => exact ih _ _
      | some e => exact Ending.noConfusion

theorem walkSectors_keeps {R : State → State → Prop} (h : Keeps R) (stops : DirEntry → Bool) (n : ℕ)
    (s : State) (lba : ℕ) : R s (walkSectors stops n s lba).state := by
  induction n generalizing s lba with
  | zero => exact h.refl s
  | succ n ih =>
    have hread := h.read s lba
    simp only [walkSectors]
    split_ifs
    · exact hread
    · cases (entries (readSector s lba).1.sectorBuf).find? stops with
      | none => exact h.trans hread (ih _ _)
      | some e => exact hread

theorem walkChain_keeps {R : State → State → Prop} (h : Keeps R) (stops : DirEntry → Bool) (fuel : ℕ)
    (s : State) (cluster : ℕ) : R s (walkChain stops fuel s cluster).state := by
  induction fuel generalizing s cluster with
  | zero => exact h.refl s
  | succ fuel ih =>
    have hwalk := walkSectors_keeps h stops s.secPerClus s (clusterToLba s cluster)
    simp only [walkChain]
    split_ifs
    · cases (walkSectors stops s.secPerClus s (clusterToLba s cluster)).ending with
      | next => exact h.trans hwalk (h.trans (readFatEntry_keeps h _ cluster) (ih _ _))
      | _ => exact hwalk
    · exact h.refl s

theorem lsSectors_eq (n : ℕ) (s : State) (lba : ℕ) :
    lsSectors n s lba =
      ((walkSectors DirEntry.isLast n s lba).state,printed (walkSectors DirEntry.isLast n s lba).seen,
        (walkSectors DirEntry.isLast n s lba).ending.ret) := by
  induction n generalizing s lba with
  | zero => rfl
  | succ n ih =>
    simp only [lsSectors,walkSectors,lsEntries_eq]
    by_cases hread : (readSector s lba).2 = 0
    · simp only [hread,ne_eq,not_true_eq_false,if_false]
      cases hfind : (entries (readSector s lba).1.sectorBuf).find? DirEntry.isLast with
      | none => simp [ih,printed_append,upTo_of_none hfind]
      | some e => simp [Ending.ret]
    · simp [hread,Ending.ret,printed]

theorem lsChain_eq (fuel : ℕ) (s : State) (cluster : ℕ) :
    lsChain fuel s cluster =
      ((walkChain DirEntry.isLast fuel s cluster).state,
        printed (walkChain DirEntry.isLast fuel s cluster).seen,
        (walkChain DirEntry.isLast fuel s cluster).ending.outcome) := by
  induction fuel generalizing s cluster with
  | zero => rfl
  | succ fuel ih =>
    simp only [lsChain,walkChain,lsSectors_eq]
    by_cases heoc : cluster < eoc
    · simp only [heoc,if_true]
      cases hend : (walkSectors DirEntry.isLast s.secPerClus s (clusterToLba s cluster)).ending with
      | next => simp [Ending.ret,ih,printed_append]
      | running => exact absurd hend (walkSectors_ends _ _ _ _)
      | _ => simp [Ending.ret,Ending.outcome,hend]
    · simp [heoc,Ending.outcome,Ending.ret,printed]

theorem fat32Ls_eq {s : State} (hinit : s.initialized = true) (fuel : ℕ) :
    fat32Ls fuel s = ((lsWalk fuel s).state,(lsWalk fuel s).ending.outcome,printed (lsWalk fuel s).seen,"") := by
  simp [fat32Ls,hinit,lsChain_eq,lsWalk]

theorem fat32Open_eq {s : State} (hinit : s.initialized = true) {fd : ℕ}
    (hslot : Slots.firstSlot maxFiles (fun i => !(s.files i).active) = some fd) (fuel : ℕ) :
    fat32Open fuel s (some path) =
      match (openWalk fuel s path).ending.scan with
      | .found e => ((openWalk fuel s path).state.setFile fd (openedFile e),.returned fd,"")
      | .failed => ((openWalk fuel s path).state,.returned (-1),"")
      | .running => ((openWalk fuel s path).state,.running,"")
      | _ => ((openWalk fuel s path).state,.returned (-1),"[FAT32] File not found\n") := by
  simp only [fat32Open,hinit,Bool.true_eq_false,if_false,hslot,scanChain_eq,openWalk]
  cases (walkChain (openStops path) fuel s s.rootCluster).ending.scan <;> rfl

end Instances

end Fat32
end ValiantCore
