import ValiantCore.Fat32Walk

/-! How far the scans of the root directory go. The only link that ends a walk is
`FAT32_EOC` or a larger one; a chain that does not come to it, an entry that ends the
scan or a transfer that fails is followed forever, or beyond the directory. -/
namespace ValiantCore
namespace Fat32

def Volume.entriesAt (v : Volume) (cluster j : ℕ) : List DirEntry := entries (v.sector (v.lba cluster+j))

/-- `t` is `s` after `n` transfers that have changed nothing on the way. -/
structure Later (n : ℕ) (s t : State) : Prop where
  volume : t.volume = s.volume
  fails : t.disk.fails = s.disk.fails
  clock : t.disk.clock = s.disk.clock+n

theorem Later.trans {m n : ℕ} {s t u : State} (h : Later m s t) (h' : Later n t u) : Later (m+n) s u :=
  ⟨h'.volume.trans h.volume,h'.fails.trans h.fails,by rw [h'.clock,h.clock,Nat.add_assoc]⟩

theorem Later.spc {n : ℕ} {s t : State} (h : Later n s t) : t.secPerClus = s.secPerClus :=
  congrArg Volume.secPerClus h.volume

theorem Later.sector {n : ℕ} {s t : State} (h : Later n s t) : t.disk.sector = s.disk.sector :=
  congrArg Volume.sector h.volume

theorem Later.fatLba {n : ℕ} {s t : State} (h : Later n s t) (cluster : ℕ) :
    t.fatLba cluster = s.fatLba cluster :=
  congrArg (fun v : Volume => v.fatStart+cluster*4/sectorSz) h.volume

theorem readSector_later (s : State) (lba : ℕ) : Later 1 s (readSector s lba).1 := by
  cases hfails : s.disk.fails s.disk.clock with
  | true => simp only [readSector,hfails,if_true]; exact ⟨rfl,rfl,rfl⟩
  | false => simp only [readSector,hfails,Bool.false_eq_true,if_false]; exact ⟨rfl,rfl,rfl⟩

theorem readFatEntry_later (s : State) (cluster : ℕ) : Later 1 s (readFatEntry s cluster).1 := by
  have hfat := @readFatEntry_elsewhere 0 s cluster
  exact ⟨hfat.volume,hfat.fails,readFatEntry_clock s cluster⟩

section Sectors
variable {stops : DirEntry → Bool}

/-- The walk passes over `n` sectors from `lba` on: they can be transferred, and no entry
in them ends it. -/
def Passes (stops : DirEntry → Bool) (s : State) (n lba : ℕ) : Prop :=
  ∀ j < n, s.disk.fails (s.disk.clock+j) = false ∧
    ∀ e ∈ entries (s.disk.sector (lba+j)), stops e = false

theorem passes_succ {s : State} {n lba : ℕ} :
    Passes stops s (n+1) lba ↔
      (s.disk.fails s.disk.clock = false ∧ ∀ e ∈ entries (s.disk.sector lba), stops e = false) ∧
        Passes stops (readSector s lba).1 n (lba+1) := by
  have hread := readSector_later s lba
  unfold Passes
  rw [hread.fails,hread.clock,hread.sector]
  constructor
  · intro h
    refine ⟨h 0 (Nat.succ_pos n),fun j hj => ?_⟩
    have hnext := h (j+1) (by omega)
    rwa [Nat.add_comm j 1,← Nat.add_assoc,← Nat.add_assoc] at hnext
  · rintro ⟨hfirst,hrest⟩ j hj
    cases j with
    | zero => exact hfirst
    | succ j =>
      have hnext := hrest j (by omega)
      rwa [Nat.add_comm j 1,← Nat.add_assoc,← Nat.add_assoc]

theorem walkSectors_passes {s : State} {n lba : ℕ} (h : Passes stops s n lba) :
    (walkSectors stops n s lba).ending = .next ∧ Later n s (walkSectors stops n s lba).state ∧
      (walkSectors stops n s lba).reads = (List.range n).map (lba+·) ∧
      (walkSectors stops n s lba).seen =
        (List.range n).flatMap fun j => entries (s.disk.sector (lba+j)) := by
  induction n generalizing s lba with
  | zero => exact ⟨rfl,⟨rfl,rfl,rfl⟩,rfl,rfl⟩
  | succ n ih =>
    obtain ⟨⟨hok,hnone⟩,hrest⟩ := passes_succ.mp h
    have hread := readSector_later s lba
    have hbuf : (readSector s lba).2 = 0 ∧ (readSector s lba).1.sectorBuf = s.disk.sector lba := by
      simp [readSector,hok]
    have hfind : (entries (s.disk.sector lba)).find? stops = none := by
      simpa using hnone
    obtain ⟨hend,hlater,hreads,hseen⟩ := ih hrest
    rw [hread.sector] at hseen
    simp only [walkSectors,hbuf,ne_eq,not_true_eq_false,if_false,hfind]
    refine ⟨hend,?_,?_,?_⟩
    · rw [Nat.add_comm n 1]
      exact hread.trans hlater
    · rw [hreads,List.range_succ_eq_map,List.map_cons,List.map_map,Nat.add_zero]
      congr 1
      apply List.map_congr_left
      intro j _
      simp only [Function.comp_apply]
      omega
    · rw [hseen,Chunks.flatMap_range_succ (fun i => entries (s.disk.sector i))]

theorem walkSectors_stops {s : State} {n lba : ℕ} (h : ¬ Passes stops s n lba) :
    (walkSectors stops n s lba).ending ≠ .next := by
  induction n generalizing s lba with
  | zero => exact absurd (fun j hj => absurd hj (Nat.not_lt_zero j)) h
  | succ n ih =>
    simp only [walkSectors]
    split_ifs with hread
    · exact Ending.noConfusion
    · have hok : s.disk.fails s.disk.clock = false := by
        by_contra hfails
        rw [Bool.not_eq_false] at hfails
        simp [readSector,hfails] at hread
      have hbuf : (readSector s lba).1.sectorBuf = s.disk.sector lba := by simp [readSector,hok]
      cases hfind : (entries (readSector s lba).1.sectorBuf).find? stops with
      | some e => exact Ending.noConfusion
      | none =>
        refine ih fun hrest => h (passes_succ.mpr ⟨⟨hok,?_⟩,hrest⟩)
        rw [hbuf] at hfind
        simpa using hfind

theorem walkChain_passes {s : State} {cluster : ℕ} (hlt : cluster < eoc)
    (h : Passes stops s s.secPerClus (s.volume.lba cluster)) :
    ∃ t, Later (s.secPerClus+1) s t ∧ ∀ fuel,
      let rest := walkChain stops fuel t
        (s.volume.fetch s.disk.fails (s.disk.clock+s.secPerClus) cluster)
      walkChain stops (fuel+1) s cluster =
        ⟨rest.state,(List.range s.secPerClus).map (s.volume.lba cluster+·)++s.fatLba cluster::rest.reads,
          (List.range s.secPerClus).flatMap (s.volume.entriesAt cluster)++rest.seen,rest.ending⟩ := by
  obtain ⟨hend,hlater,hreads,hseen⟩ := walkSectors_passes h
  have hlink := readFatEntry_eq (walkSectors stops s.secPerClus s (s.volume.lba cluster)).state cluster
  rw [hlater.volume,hlater.fails,hlater.clock] at hlink
  refine ⟨_,hlater.trans (readFatEntry_later _ cluster),fun fuel => ?_⟩
  have hlba : clusterToLba s cluster = s.volume.lba cluster := rfl
  simp only [walkChain,hlt,if_true,hlba,hend,hlink,hreads,hseen]
  rfl

theorem walkChain_stops {s : State} {cluster : ℕ} (hlt : cluster < eoc)
    (h : ¬ Passes stops s s.secPerClus (s.volume.lba cluster)) (fuel : ℕ) :
    walkChain stops (fuel+1) s cluster = walkSectors stops s.secPerClus s (s.volume.lba cluster) := by
  have hend := walkSectors_stops h
  have hlba : clusterToLba s cluster = s.volume.lba cluster := rfl
  simp only [walkChain,hlt,if_true,hlba]

end Sectors

/-- The cluster that a walk from `cluster` on comes to after `i` links, each fetched behind
the sectors of its cluster. -/
def State.clusterAt (s : State) (cluster : ℕ) : ℕ → ℕ
  | 0 => cluster
  | i+1 => s.volume.fetch s.disk.fails (s.disk.clock+i*(s.secPerClus+1)+s.secPerClus) (s.clusterAt cluster i)

/-- The walk ends in its `i`-th cluster: it is an end mark, one of its sectors cannot be
transferred, or one of its entries ends the scan. -/
def EndsAt (stops : DirEntry → Bool) (s : State) (cluster i : ℕ) : Prop :=
  eoc ≤ s.clusterAt cluster i ∨
    ∃ j < s.secPerClus, s.disk.fails (s.disk.clock+i*(s.secPerClus+1)+j) = true ∨
      ∃ e ∈ s.volume.entriesAt (s.clusterAt cluster i) j, stops e = true

section Ends
variable {stops : DirEntry → Bool} {s t : State} {cluster : ℕ}

theorem clusterAt_later (h : Later (s.secPerClus+1) s t) (i : ℕ) :
    t.clusterAt (s.volume.fetch s.disk.fails (s.disk.clock+s.secPerClus) cluster) i =
      s.clusterAt cluster (i+1) := by
  induction i with
  | zero => rw [State.clusterAt,State.clusterAt,Nat.zero_mul,Nat.add_zero]; rfl
  | succ i ih =>
    rw [State.clusterAt,ih,h.volume,h.fails,h.clock,h.spc,State.clusterAt]
    congr 1
    rw [Nat.succ_mul]
    omega

theorem endsAt_later (h : Later (s.secPerClus+1) s t) (i : ℕ) :
    EndsAt stops t (s.volume.fetch s.disk.fails (s.disk.clock+s.secPerClus) cluster) i ↔
      EndsAt stops s cluster (i+1) := by
  have hclock : ∀ j, t.disk.clock+i*(s.secPerClus+1)+j = s.disk.clock+(i+1)*(s.secPerClus+1)+j := by
    intro j
    rw [h.clock,Nat.succ_mul]
    omega
  simp only [EndsAt,clusterAt_later h,h.volume,h.fails,h.spc,hclock]

theorem endsAt_zero :
    EndsAt stops s cluster 0 ↔ eoc ≤ cluster ∨ ¬ Passes stops s s.secPerClus (s.volume.lba cluster) := by
  simp only [EndsAt,State.clusterAt,Nat.zero_mul,Nat.add_zero,Passes,Volume.entriesAt]
  constructor
  · rintro (heoc | ⟨j,hj,hend⟩)
    · exact Or.inl heoc
    · refine Or.inr fun hpass => ?_
      obtain ⟨hok,hnone⟩ := hpass j hj
      rcases hend with hfails | ⟨e,he,hstop⟩
      · simp [hok] at hfails
      · simp [hnone e he] at hstop
  · rintro (heoc | hpass)
    · exact Or.inl heoc
    · refine Or.inr ?_
      by_contra hno
      push Not at hno
      refine hpass fun j hj => ?_
      obtain ⟨hok,hnone⟩ := hno j hj
      exact ⟨by simpa using hok,fun e he => by simpa using hnone e he⟩

theorem walkChain_ends_iff (fuel : ℕ) :
    (walkChain stops fuel s cluster).ending ≠ .running ↔ ∃ i < fuel, EndsAt stops s cluster i := by
  induction fuel generalizing s cluster with
  | zero => simp [walkChain]
  | succ fuel ih =>
    by_cases hlt : cluster < eoc
    · by_cases hpass : Passes stops s s.secPerClus (s.volume.lba cluster)
      · obtain ⟨t,hlater,hwalk⟩ := walkChain_passes hlt hpass
        have hfirst : ¬ EndsAt stops s cluster 0 := by
          rw [endsAt_zero]
          simp [hlt,hpass]
        rw [hwalk,ih]
        simp only [endsAt_later hlater]
        constructor
        · rintro ⟨i,hi,hend⟩
          exact ⟨i+1,by omega,hend⟩
        · rintro ⟨i,hi,hend⟩
          cases i with
          | zero => exact absurd hend hfirst
          | succ i => exact ⟨i,by omega,hend⟩
      · rw [walkChain_stops hlt hpass]
        exact iff_of_true (walkSectors_ends _ _ _ _) ⟨0,Nat.succ_pos _,endsAt_zero.mpr (Or.inr hpass)⟩
    · rw [walkChain,if_neg hlt]
      exact iff_of_true Ending.noConfusion ⟨0,Nat.succ_pos _,endsAt_zero.mpr (Or.inl (not_lt.mp hlt))⟩

end Ends

/-- The scan of `fat32_open` and that of `fat32_ls` come to an end: with enough fuel the
calls return. -/
def OpenReturns (s : State) (path : Option (List UInt8)) : Prop :=
  ∃ fuel, (fat32Open fuel s path).2.1 ≠ .running

def LsReturns (s : State) : Prop := ∃ fuel, (fat32Ls fuel s).2.1 ≠ .running

theorem outcome_running_iff {e : Ending} (h : e ≠ .next) : e.outcome = .running ↔ e = .running := by
  cases e with
  | next => exact absurd rfl h
  | running => exact iff_of_true rfl rfl
  | _ => exact iff_of_false Outcome.noConfusion Ending.noConfusion

theorem walkChain_not_next (stops : DirEntry → Bool) (fuel : ℕ) (s : State) (cluster : ℕ) :
    (walkChain stops fuel s cluster).ending ≠ .next := by
  induction fuel generalizing s cluster with
  | zero => exact Ending.noConfusion
  | succ fuel ih =>
    by_cases hlt : cluster < eoc
    · by_cases hpass : Passes stops s s.secPerClus (s.volume.lba cluster)
      · obtain ⟨t,-,hwalk⟩ := walkChain_passes hlt hpass
        rw [hwalk]
        exact ih _ _
      · rw [walkChain_stops hlt hpass]
        exact walkSectors_stops hpass
    · rw [walkChain,if_neg hlt]
      exact Ending.noConfusion

theorem exists_fuel_iff {P E : ℕ → Prop} (h : ∀ fuel, P fuel ↔ ∃ i < fuel, E i) :
    (∃ fuel, P fuel) ↔ ∃ i, E i := by
  constructor
  · rintro ⟨fuel,hP⟩
    obtain ⟨i,-,hE⟩ := (h fuel).mp hP
    exact ⟨i,hE⟩
  · rintro ⟨i,hE⟩
    exact ⟨i+1,(h (i+1)).mpr ⟨i,Nat.lt_succ_self i,hE⟩⟩

theorem lsReturns_iff {s : State} (hinit : s.initialized = true) :
    LsReturns s ↔ ∃ i, EndsAt DirEntry.isLast s s.rootCluster i := by
  have hfuel : ∀ fuel, (fat32Ls fuel s).2.1 ≠ .running ↔ ∃ i < fuel, EndsAt DirEntry.isLast s s.rootCluster i := by
    intro fuel
    rw [fat32Ls_eq hinit,← walkChain_ends_iff]
    exact not_congr (outcome_running_iff (walkChain_not_next _ _ _ _))
  exact exists_fuel_iff hfuel

theorem openReturns_iff {s : State} (hinit : s.initialized = true) {fd : ℕ}
    (hslot : Slots.firstSlot maxFiles (fun i => !(s.files i).active) = some fd) (path : List UInt8) :
    OpenReturns s (some path) ↔ ∃ i, EndsAt (openStops path) s s.rootCluster i := by
  have hfuel : ∀ fuel, (fat32Open fuel s (some path)).2.1 ≠ .running ↔
      ∃ i < fuel, EndsAt (openStops path) s s.rootCluster i := by
    intro fuel
    have hnext := walkChain_not_next (openStops path) fuel s s.rootCluster
    rw [fat32Open_eq path hinit hslot,← walkChain_ends_iff,openWalk]
    cases hend : (walkChain (openStops path) fuel s s.rootCluster).ending with
    | next => exact absurd hend hnext
    | stopped e =>
      refine iff_of_true ?_ Ending.noConfusion
      cases hlast : e.isLast with
      | true => simp [Ending.scan,hlast]
      | false => simp [Ending.scan,hlast]
    | failed => simp [Ending.scan]
    | ended => simp [Ending.scan]
    | running => simp [Ending.scan]
  exact exists_fuel_iff hfuel

/-- If `fat32_open` comes to its scan, the scan ends. -/
def OpenEnds (s : State) (path : Option (List UInt8)) : Prop :=
  ∀ p, path = some p → s.initialized = true → (∃ fd < maxFiles, (s.files fd).active = false) →
    ∃ i, EndsAt (openStops p) s s.rootCluster i

def LsEnds (s : State) : Prop := s.initialized = true → ∃ i, EndsAt DirEntry.isLast s s.rootCluster i

/-- The calls return just if their scans come to a cluster where they end; whether the
links before it form a cycle is never looked at. -/
theorem scans_return_iff (s : State) (path : Option (List UInt8)) :
    (OpenReturns s path ↔ OpenEnds s path) ∧ (LsReturns s ↔ LsEnds s) := by
  constructor
  · cases path with
    | none => exact iff_of_true ⟨0,Outcome.noConfusion⟩ fun p hp => by simp at hp
    | some path =>
      by_cases hinit : s.initialized = true
      · cases hslot : Slots.firstSlot maxFiles (fun i => !(s.files i).active) with
        | none =>
          have hall := Slots.firstSlot_eq_none.mp hslot
          refine iff_of_true ⟨0,by simp [fat32Open,hinit,hslot]⟩ ?_
          rintro p - - ⟨fd,hfd,hfree⟩
          simpa [hfree] using hall fd hfd
        | some fd =>
          obtain ⟨hfd,hfree,-⟩ := Slots.firstSlot_eq_some.mp hslot
          rw [openReturns_iff hinit hslot]
          constructor
          · rintro hends p hp - -
            obtain rfl := Option.some.inj hp
            exact hends
          · exact fun h => h path rfl hinit ⟨fd,hfd,by simpa using hfree⟩
      · refine iff_of_true ⟨0,by simp [fat32Open,hinit]⟩ ?_
        exact fun p _ h => absurd h hinit
  · by_cases hinit : s.initialized = true
    · rw [lsReturns_iff hinit]
      exact ⟨fun h _ => h,fun h => h hinit⟩
    · exact iff_of_true ⟨0,by simp [fat32Ls,hinit]⟩ fun h => absurd h hinit

/-- A root directory in the cluster 2, which is linked to itself and holds no entry whose
name starts with 0. -/
def cyclicSector (lba : ℕ) : Sector where
  get i := if lba = 1 then (if i.val = 8 then 2 else 0) else 0x41

def cyclic : State := (init (unmounted demo.bpb cyclicSector fun _ => false)).1

theorem cyclic_clusterAt (i : ℕ) : cyclic.clusterAt cyclic.rootCluster i = 2 := by
  induction i with
  | zero => decide +kernel
  | succ i ih =>
    have hworks : ∀ n, cyclic.disk.fails n = false := fun _ => rfl
    rw [State.clusterAt,ih,Volume.fetch,hworks,if_neg (by decide)]
    decide +kernel

theorem cyclic_not_endsAt {stops : DirEntry → Bool}
    (h : ∀ e ∈ cyclic.volume.entriesAt 2 0, stops e = false) (i : ℕ) :
    ¬ EndsAt stops cyclic cyclic.rootCluster i := by
  rw [EndsAt,cyclic_clusterAt]
  rintro (heoc | ⟨j,hj,hfails | ⟨e,he,hstop⟩⟩)
  · exact absurd heoc (by decide)
  · exact Bool.noConfusion hfails
  · rw [show cyclic.secPerClus = 1 from by decide +kernel] at hj
    obtain rfl : j = 0 := by omega
    simp [h e he] at hstop

/-- Both calls follow the links of a cyclic root directory forever. -/
theorem cyclic_never_ends :
    (init (unmounted demo.bpb cyclicSector fun _ => false)).2.1 = 0 ∧
      ¬ OpenReturns cyclic (some [0x42]) ∧ ¬ LsReturns cyclic := by
  have hinit : cyclic.initialized = true := by decide +kernel
  refine ⟨by decide +kernel,fun hopen => ?_,fun hls => ?_⟩
  · have hslot : Slots.firstSlot maxFiles (fun i => !(cyclic.files i).active) = some 0 := by decide +kernel
    obtain ⟨i,hend⟩ := (openReturns_iff hinit hslot [0x42]).mp hopen
    exact cyclic_not_endsAt (by decide +kernel) i hend
  · obtain ⟨i,hend⟩ := (lsReturns_iff hinit).mp hls
    exact cyclic_not_endsAt (by decide +kernel) i hend

end Fat32
end ValiantCore
