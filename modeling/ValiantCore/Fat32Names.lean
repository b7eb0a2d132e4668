import ValiantCore.Fat32Cover

/-! The names that `fat32_ls` prints and those that `fat32_open` finds. The two scans look
at the same entries, but they do not pass over the same ones, and the comparison in
`fat32_open` is of signed with unsigned characters. -/
namespace ValiantCore
namespace Fat32

def Ascii (path : List UInt8) : Prop := ∀ c ∈ path, c < 0x80

instance (path : List UInt8) : Decidable (Ascii path) := List.decidableBAll (· < 0x80) path

theorem signedChar_eq_iff {c d : UInt8} : signedChar c = d.toNat ↔ c = d ∧ c < 0x80 := by
  have hc := c.toNat_lt
  have hd := d.toNat_lt
  have hsame : c = d ↔ c.toNat = d.toNat := UInt8.toNat_inj.symm
  have hpositive : c < 0x80 ↔ c.toNat < 128 := UInt8.lt_iff_toNat_lt
  have hmod := Int.bmod_def c.toNat 256
  rw [hsame,hpositive]
  unfold signedChar
  split_ifs at hmod with hlow
  · omega
  · omega

theorem pathMatches_iff {n : ℕ} {path name : List UInt8} (hlen : name.length < n) (hnul : 0 ∉ path) :
    pathMatches n path name = true ↔ path = name.takeWhile (· ≠ 0) ∧ Ascii path := by
  induction n generalizing path name with
  | zero => exact absurd hlen (Nat.not_lt_zero _)
  | succ n ih =>
    cases path with
    | nil =>
      cases name with
      | nil => simp [pathMatches,Ascii]
      | cons d name => by_cases hd : d = 0 <;> simp [pathMatches,Ascii,hd]
    | cons c path =>
      have hc : c ≠ 0 := fun h0 => hnul (by simp [h0])
      have hpath : 0 ∉ path := fun h0 => hnul (List.mem_cons_of_mem _ h0)
      cases name with
      | nil =>
        have hsigned := mt (@signedChar_eq_iff c 0).mp (fun h => hc h.1)
        simp only [pathMatches,List.headD_nil,hsigned,decide_false,Bool.false_and,List.takeWhile_nil]
        simp
      | cons d name =>
        have hname : name.length < n := by simpa using hlen
        simp only [pathMatches,List.headD_cons,List.tail_cons,Bool.and_eq_true,decide_eq_true_eq,
          signedChar_eq_iff,hc,decide_false,Bool.false_or,ih hname hpath]
        constructor
        · rintro ⟨⟨rfl,hlt⟩,heq,hascii⟩
          refine ⟨?_,?_⟩
          · rw [List.takeWhile_cons_of_pos (by simpa using hc),← heq]
          · exact List.forall_mem_cons.mpr ⟨hlt,hascii⟩
        · rintro ⟨heq,hascii⟩
          obtain ⟨hlt,hrest⟩ := List.forall_mem_cons.mp hascii
          have hd : d ≠ 0 := by
            rintro rfl
            simp at heq
          rw [List.takeWhile_cons_of_pos (by simpa using hd)] at heq
          obtain ⟨rfl,htail⟩ := List.cons.inj heq
          exact ⟨⟨rfl,hlt⟩,htail,hrest⟩

theorem name8dot3_length (e : DirEntry) : (name8dot3 e.name e.ext).length < nameLen := by
  have hstem : ((e.name.take 8).takeWhile (· ≠ 0x20)).length ≤ 8 :=
    (List.takeWhile_prefix _).length_le.trans (List.length_take_le _ _)
  have hext : ((e.ext.take 3).takeWhile (· ≠ 0x20)).length ≤ 3 :=
    (List.takeWhile_prefix _).length_le.trans (List.length_take_le _ _)
  simp only [name8dot3,nameLen]
  split_ifs
  · rw [List.length_append,List.length_cons]
    omega
  · omega

theorem openStops_iff {path : List UInt8} (hnul : 0 ∉ path) {e : DirEntry} (hlast : e.isLast = false) :
    openStops path e = true ↔ e.isLive = true ∧ e.fileName = path ∧ Ascii path := by
  rw [openStops,hlast,Bool.false_or,Bool.and_eq_true,pathMatches_iff (name8dot3_length e) hnul]
  exact and_congr_right fun _ => and_congr_left fun _ => eq_comm

/-- The walk `w'` has been ended by an entry that `w` has looked at, and that would not
have ended `w`. -/
def Caught (p q : DirEntry → Bool) (w w' : Walk) : Prop :=
  ∃ e ∈ w.seen, p e = false ∧ q e = true ∧ w'.ending = .stopped e

/-- The walks agree, and none of the entries but the last would have ended one of them. -/
def Agreed (p q : DirEntry → Bool) (w w' : Walk) : Prop :=
  w' = w ∧ (∀ e ∈ w.seen, p e = false → q e = false) ∧ ∀ e, w.ending = .stopped e → p e = true

section Both
variable {p q : DirEntry → Bool}

theorem find_both (es : List DirEntry) :
    (∃ e ∈ upTo p es, p e = false ∧ q e = true ∧ es.find? (fun e => p e || q e) = some e) ∨
    (es.find? (fun e => p e || q e) = es.find? p ∧ upTo (fun e => p e || q e) es = upTo p es ∧
      ∀ e ∈ upTo p es, p e = false → q e = false) := by
  induction es with
  | nil => exact Or.inr ⟨rfl,rfl,by simp [upTo]⟩
  | cons x es ih =>
    cases hp : p x with
    | true =>
      have hboth : (fun e => p e || q e) x = true := by simp [hp]
      refine Or.inr ⟨by simp [hp],by rw [upTo_cons_pos hboth,upTo_cons_pos hp],?_⟩
      intro e he hpe
      rw [upTo_cons_pos hp] at he
      rw [List.mem_singleton.mp he,hp] at hpe
      exact Bool.noConfusion hpe
    | false =>
      cases hq : q x with
      | true => exact Or.inl ⟨x,by simp [upTo_cons_neg hp],hp,hq,by simp [hq]⟩
      | false =>
        have hboth : (fun e => p e || q e) x = false := by simp [hp,hq]
        rw [upTo_cons_neg hp,upTo_cons_neg hboth,List.find?_cons_of_neg (by simp [hp,hq]),
          List.find?_cons_of_neg (by simp [hp])]
        rcases ih with ⟨e,he,hrest⟩ | ⟨hfind,hupTo,hnone⟩
        · exact Or.inl ⟨e,List.mem_cons_of_mem _ he,hrest⟩
        · refine Or.inr ⟨hfind,by rw [hupTo],?_⟩
          intro e he hpe
          rcases List.mem_cons.mp he with rfl | he
          · exact hq
          · exact hnone e he hpe

theorem walkSectors_both (n : ℕ) (s : State) (lba : ℕ) :
    Caught p q (walkSectors p n s lba) (walkSectors (fun e => p e || q e) n s lba) ∨
      Agreed p q (walkSectors p n s lba) (walkSectors (fun e => p e || q e) n s lba) := by
  induction n generalizing s lba with
  | zero => exact Or.inr ⟨rfl,by simp [walkSectors],by simp [walkSectors]⟩
  | succ n ih =>
    by_cases hread : (readSector s lba).2 = 0
    · rcases @find_both p q (entries (readSector s lba).1.sectorBuf) with
        ⟨e,he,hp,hq,hfind⟩ | ⟨hfind,hupTo,hnone⟩
      · refine Or.inl ⟨e,?_,hp,hq,by simp [walkSectors,hread,hfind]⟩
        cases hfirst : (entries (readSector s lba).1.sectorBuf).find? p with
        | some x => simpa [walkSectors,hread,hfirst] using he
        | none =>
          rw [upTo_of_none hfirst] at he
          simp [walkSectors,hread,hfirst,he]
      · cases hfirst : (entries (readSector s lba).1.sectorBuf).find? p with
        | some x =>
          rw [hfirst] at hfind
          refine Or.inr ⟨by simp [walkSectors,hread,hfirst,hfind,hupTo],?_,?_⟩
          · simpa [walkSectors,hread,hfirst] using hnone
          · have hx := List.find?_some hfirst
            simpa [walkSectors,hread,hfirst] using hx
        | none =>
          rw [hfirst] at hfind
          rw [upTo_of_none hfirst] at hnone
          have hwalk : ∀ stops : DirEntry → Bool, (entries (readSector s lba).1.sectorBuf).find? stops = none →
              walkSectors stops (n+1) s lba =
                let rest := walkSectors stops n (readSector s lba).1 (lba+1)
                ⟨rest.state,lba::rest.reads,entries (readSector s lba).1.sectorBuf++rest.seen,rest.ending⟩ := by
            intro stops hstops
            simp [walkSectors,hread,hstops]
          rw [hwalk p hfirst,hwalk _ hfind]
          rcases ih (readSector s lba).1 (lba+1) with ⟨e,he,hrest⟩ | ⟨hsame,hrest,hend⟩
          · exact Or.inl ⟨e,List.mem_append_right _ he,hrest⟩
          · refine Or.inr ⟨by rw [hsame],?_,hend⟩
            intro e he
            rcases List.mem_append.mp he with he | he
            · exact hnone e he
            · exact hrest e he
    · refine Or.inr ⟨?_,?_,?_⟩
      all_goals simp [walkSectors,hread]

theorem walkChain_both (fuel : ℕ) (s : State) (cluster : ℕ) :
    Caught p q (walkChain p fuel s cluster) (walkChain (fun e => p e || q e) fuel s cluster) ∨
      Agreed p q (walkChain p fuel s cluster) (walkChain (fun e => p e || q e) fuel s cluster) := by
  induction fuel generalizing s cluster with
  | zero => exact Or.inr ⟨rfl,by simp [walkChain],by simp [walkChain]⟩
  | succ fuel ih =>
    by_cases hlt : cluster < eoc
    · rcases @walkSectors_both p q s.secPerClus s (clusterToLba s cluster) with
        ⟨e,he,hp,hq,hend⟩ | ⟨hsame,hnone,hend⟩
      · refine Or.inl ⟨e,?_,hp,hq,by simp [walkChain,hlt,hend]⟩
        simp only [walkChain,hlt,if_true]
        cases (walkSectors p s.secPerClus s (clusterToLba s cluster)).ending with
        | next => exact List.mem_append_left _ he
        | _ => exact he
      · simp only [walkChain,hlt,if_true,hsame]
        cases hfirst : (walkSectors p s.secPerClus s (clusterToLba s cluster)).ending with
        | next =>
          rcases ih (readFatEntry (walkSectors p s.secPerClus s (clusterToLba s cluster)).state cluster).1
            (readFatEntry (walkSectors p s.secPerClus s (clusterToLba s cluster)).state cluster).2 with
            ⟨e,he,hrest⟩ | ⟨hsame',hrest,hend'⟩
          · exact Or.inl ⟨e,List.mem_append_right _ he,hrest⟩
          · refine Or.inr ⟨by rw [hsame'],?_,hend'⟩
            intro e he
            rcases List.mem_append.mp he with he | he
            · exact hnone e he
            · exact hrest e he
        | _ => exact Or.inr ⟨rfl,hnone,hend⟩
    · refine Or.inr ⟨?_,?_,?_⟩
      all_goals simp [walkChain,hlt]

end Both

def Opens (s : State) (path : List UInt8) : Prop :=
  ∃ fuel fd, 0 ≤ fd ∧ (fat32Open fuel s (some path)).2.1 = .returned fd

def Lists (s : State) (name : List UInt8) : Prop :=
  ∃ fuel, ∃ line ∈ (fat32Ls fuel s).2.2.1, line.name = name

/-- An entry that `fat32_ls` comes to, before the end of the directory, neither deleted nor
a piece of a long name. -/
def Live (s : State) (e : DirEntry) : Prop :=
  e.isLast = false ∧ e.isLive = true ∧ ∃ fuel, e ∈ (lsWalk fuel s).seen

section Names
variable {s : State} {path : List UInt8}

theorem lists_iff (hinit : s.initialized = true) :
    Lists s path ↔ ∃ e, Live s e ∧ e.fileName = path ∧ e.isVolumeId = false := by
  have hline : ∀ fuel, (∃ line ∈ (fat32Ls fuel s).2.2.1, line.name = path) ↔
      ∃ e ∈ (lsWalk fuel s).seen, (e.isLast = false ∧ e.isLive = true ∧ e.isVolumeId = false) ∧ e.fileName = path := by
    intro fuel
    rw [fat32Ls_eq hinit]
    simp [printed,DirEntry.line,and_assoc]
  constructor
  · rintro ⟨fuel,hlisted⟩
    obtain ⟨e,he,⟨hlast,hlive,hvol⟩,hname⟩ := (hline fuel).mp hlisted
    exact ⟨e,⟨hlast,hlive,fuel,he⟩,hname,hvol⟩
  · rintro ⟨e,⟨hlast,hlive,fuel,he⟩,hname,hvol⟩
    exact ⟨fuel,(hline fuel).mpr ⟨e,he,⟨hlast,hlive,hvol⟩,hname⟩⟩

/-- The walk of `fat32_open` ends at an entry that it takes for the file, or it is that of
`fat32_ls`, with no such entry on it. -/
theorem openWalk_cases (fuel : ℕ) (s : State) (path : List UInt8) :
    (∃ e ∈ (lsWalk fuel s).seen, e.isLast = false ∧ openStops path e = true ∧
        (openWalk fuel s path).ending.scan = .found e) ∨
      (openWalk fuel s path = lsWalk fuel s ∧
        (∀ e ∈ (lsWalk fuel s).seen, e.isLast = false → openStops path e = false) ∧
        ∀ e, (lsWalk fuel s).ending = .stopped e → e.isLast = true) := by
  have hboth := @walkChain_both DirEntry.isLast
    (fun e => e.isLive && pathMatches nameLen path (name8dot3 e.name e.ext)) fuel s s.rootCluster
  rcases hboth with ⟨e,he,hlast,hmatch,hend⟩ | ⟨hsame,hnone,hend⟩
  · refine Or.inl ⟨e,he,hlast,by simp [openStops,hlast,hmatch],?_⟩
    rw [show (openWalk fuel s path).ending = .stopped e from hend]
    simp [Ending.scan,hlast]
  · refine Or.inr ⟨hsame,fun e he hlast => ?_,hend⟩
    rw [openStops,hlast,Bool.false_or]
    exact hnone e he hlast

/-- `fat32_open` returns a descriptor just if the walk of `fat32_ls` looks at an entry that
it takes for the file. -/
theorem fat32Open_found_iff (hinit : s.initialized = true) {fd : ℕ}
    (hslot : Slots.firstSlot maxFiles (fun i => !(s.files i).active) = some fd) (fuel : ℕ) :
    (∃ r, 0 ≤ r ∧ (fat32Open fuel s (some path)).2.1 = .returned r) ↔
      ∃ e ∈ (lsWalk fuel s).seen, e.isLast = false ∧ openStops path e = true := by
  rw [fat32Open_eq path hinit hslot]
  rcases openWalk_cases fuel s path with ⟨e,he,hlast,hstops,hscan⟩ | ⟨hwalk,hnone,hend⟩
  · rw [hscan]
    exact iff_of_true ⟨fd,Int.natCast_nonneg fd,rfl⟩ ⟨e,he,hlast,hstops⟩
  · rw [hwalk]
    refine iff_of_false ?_ ?_
    · have hneg : ∀ r : ℤ, 0 ≤ r → Outcome.returned (-1) ≠ .returned r := by
        intro r hr heq
        have hval := Outcome.returned.inj heq
        omega
      rintro ⟨r,hr,hret⟩
      cases hending : (lsWalk fuel s).ending with
      | stopped e =>
        have hlast := hend e hending
        rw [hending] at hret
        simp only [Ending.scan,hlast,if_true] at hret
        exact hneg r hr hret
      | running =>
        rw [hending] at hret
        exact Outcome.noConfusion hret
      | failed =>
        rw [hending] at hret
        exact hneg r hr hret
      | _ =>
        rw [hending] at hret
        exact hneg r hr hret
    · rintro ⟨e,he,hlast,hstops⟩
      exact Bool.noConfusion (hstops.symm.trans (hnone e he hlast))

theorem opens_iff (hinit : s.initialized = true) (hfree : ∃ fd < maxFiles, (s.files fd).active = false)
    (hnul : 0 ∉ path) : Opens s path ↔ Ascii path ∧ ∃ e, Live s e ∧ e.fileName = path := by
  obtain ⟨fd,hslot⟩ : ∃ fd, Slots.firstSlot maxFiles (fun i => !(s.files i).active) = some fd := by
    rw [← Option.ne_none_iff_exists']
    intro hnone
    obtain ⟨fd,hfd,hinactive⟩ := hfree
    simpa [hinactive] using Slots.firstSlot_eq_none.mp hnone fd hfd
  have hfound := @fat32Open_found_iff s path hinit fd hslot
  constructor
  · rintro ⟨fuel,hopen⟩
    obtain ⟨e,he,hlast,hstop⟩ := (hfound fuel).mp hopen
    obtain ⟨hlive,hname,hascii⟩ := (openStops_iff hnul hlast).mp hstop
    exact ⟨hascii,e,⟨hlast,hlive,fuel,he⟩,hname⟩
  · rintro ⟨hascii,e,⟨hlast,hlive,fuel,he⟩,hname⟩
    exact ⟨fuel,(hfound fuel).mpr ⟨e,he,hlast,(openStops_iff hnul hlast).mpr ⟨hlive,hname,hascii⟩⟩⟩

/-- The calls agree on a name just if an entry that is printed under it has seven-bit
characters, and no volume label has it alone. -/
theorem open_iff_listed (s : State) (path : List UInt8) (hinit : s.initialized = true)
    (hfree : ∃ fd < maxFiles, (s.files fd).active = false) (hnul : 0 ∉ path) :
    (Opens s path ↔ Lists s path) ↔
      ∀ e, Live s e → e.fileName = path →
        (e.isVolumeId = false → Ascii path) ∧
          (e.isVolumeId = true → Ascii path →
            ∃ e', Live s e' ∧ e'.fileName = path ∧ e'.isVolumeId = false) := by
  rw [opens_iff hinit hfree hnul,lists_iff hinit]
  constructor
  · intro hagree e hlive hname
    constructor
    · exact fun hfile => (hagree.mpr ⟨e,hlive,hname,hfile⟩).1
    · exact fun _ hascii => hagree.mp ⟨hascii,e,hlive,hname⟩
  · intro h
    constructor
    · rintro ⟨hascii,e,hlive,hname⟩
      cases hvol : e.isVolumeId with
      | true => exact (h e hlive hname).2 hvol hascii
      | false => exact ⟨e,hlive,hname,hvol⟩
    · rintro ⟨e,hlive,hname,hvol⟩
      exact ⟨(h e hlive hname).1 hvol,e,hlive,hname⟩

end Names

theorem open_iff_listed_demo : Opens demo [0x41] ↔ Lists demo [0x41] := by
  refine (open_iff_listed demo [0x41] rfl ⟨0,by decide,rfl⟩ (by decide)).mpr ?_
  intro e _ _
  have hascii : Ascii [0x41] := by decide
  refine ⟨fun _ => hascii,fun _ _ => ⟨readDirEntry (demoSector 2) 0,⟨?_,?_,1,?_⟩,?_,?_⟩⟩
  · decide +kernel
  · decide +kernel
  · rw [show (lsWalk 1 demo).seen = [readDirEntry (demoSector 2) 0,readDirEntry (demoSector 2) 1] from by rfl]
    simp
  · decide +kernel
  · decide +kernel

/-- The root directory of `demo`, with a volume label `A` instead of the file. -/
def labelSector (lba : ℕ) : Sector where
  get i := if lba = 2 ∧ i.val = 11 then 0x08 else (demoSector lba).get i

def labelled : State := (init (unmounted demo.bpb labelSector fun _ => false)).1

/-- The label is opened as a file, and is not printed. -/
theorem label_opens : labelled.initialized = true ∧ Opens labelled [0x41] ∧ ¬ Lists labelled [0x41] := by
  have hinit : labelled.initialized = true := by decide +kernel
  refine ⟨hinit,⟨1,0,le_rfl,by decide +kernel⟩,?_⟩
  rintro ⟨fuel,line,hline,-⟩
  have hempty : printed (lsWalk fuel labelled).seen = [] := by
    cases fuel with
    | zero => rfl
    | succ fuel =>
      have hended : (lsWalk 1 labelled).ending.outcome = .returned 0 := by decide +kernel
      have hsame : lsWalk (1+fuel) labelled = lsWalk 1 labelled := by
        apply walkChain_mono
        intro hrunning
        rw [lsWalk,hrunning] at hended
        exact Outcome.noConfusion hended
      rw [Nat.add_comm,hsame]
      decide +kernel
  rw [fat32Ls_eq hinit,hempty] at hline
  exact absurd hline List.not_mem_nil

end Fat32
end ValiantCore
