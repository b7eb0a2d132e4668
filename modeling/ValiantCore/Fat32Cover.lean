import ValiantCore.Fat32Scans

/-! What the scans of the root directory look at, on a disk that works: the entries of
the root chain in their order, and, unless an entry ends the scan, also the sectors of an
end mark other than `FAT32_EOC`. -/
namespace ValiantCore
namespace Fat32

/-- A root chain: data clusters, linked one to the next, and an end mark in the last link;
on a mounted volume whose sectors can all be read. -/
structure RootChain (s : State) (chain : List ℕ) (mark : ℕ) : Prop where
  initialized : s.initialized = true
  works : ∀ n, s.disk.fails n = false
  spc : 0 < s.secPerClus
  layout : s.fatStart ≤ s.dataStart
  head : chain.head? = some s.rootCluster
  links : chain.IsChain fun c d => s.volume.link c = d
  last : ∀ c ∈ chain.getLast?, s.volume.link c = mark
  data : ∀ c ∈ chain, Data c
  mark_ge : 0x0FFFFFF8 ≤ mark
  mark_le : mark ≤ eoc

def Volume.clusterEntries (v : Volume) (cluster : ℕ) : List DirEntry :=
  (List.range v.secPerClus).flatMap (v.entriesAt cluster)

def Volume.chainEntries (v : Volume) (chain : List ℕ) : List DirEntry := chain.flatMap v.clusterEntries

/-- A sector of one of the clusters, or the sector of the FAT with its link. -/
def InChain (s : State) (chain : List ℕ) (lba : ℕ) : Prop :=
  ∃ c ∈ chain, (s.volume.lba c ≤ lba ∧ lba < s.volume.lba c+s.secPerClus) ∨ lba = s.fatLba c

/-- The walk ends, looks at the entries of the chain up to the first one that ends it, and
transfers no sector beside the chain. -/
def Covers (s : State) (chain : List ℕ) (stops : DirEntry → Bool) : Prop :=
  ∃ fuel, let w := walkChain stops fuel s s.rootCluster
    w.ending ≠ .running ∧ w.seen = upTo stops (s.volume.chainEntries chain) ∧
      ∀ lba ∈ w.reads, InChain s chain lba

section Entries
variable {stops : DirEntry → Bool}

theorem upTo_append (xs ys : List DirEntry) :
    upTo stops (xs++ys) = if (xs.find? stops).isSome then upTo stops xs else xs++upTo stops ys := by
  induction xs with
  | nil => rfl
  | cons x xs ih =>
    cases hx : stops x with
    | true => simp [upTo_cons_pos hx,hx]
    | false =>
      rw [List.cons_append,upTo_cons_neg hx,ih,List.find?_cons_of_neg (by simp [hx]),upTo_cons_neg hx]
      split_ifs <;> rfl

/-- On a disk that works the walk over sectors looks at all entries up to the one that
ends it, and transfers none but these sectors, the first one always. -/
theorem walkSectors_seen {s : State} (hworks : ∀ n, s.disk.fails n = false) (n lba : ℕ) :
    (walkSectors stops n s lba).seen =
        upTo stops ((List.range n).flatMap fun j => entries (s.disk.sector (lba+j))) ∧
      (∀ r ∈ (walkSectors stops n s lba).reads, ∃ j < n, r = lba+j) ∧
      (0 < n → lba ∈ (walkSectors stops n s lba).reads) := by
  induction n generalizing s lba with
  | zero => exact ⟨rfl,by simp [walkSectors],fun h => absurd h (lt_irrefl 0)⟩
  | succ n ih =>
    have hread := readSector_later s lba
    obtain ⟨hret,hbuf,-⟩ := readSector_ok hworks lba
    obtain ⟨hseen,hreads,-⟩ := @ih (readSector s lba).1 (hread.fails ▸ hworks) (lba+1)
    rw [hread.sector] at hseen
    rw [Chunks.flatMap_range_succ (fun i => entries (s.disk.sector i)),upTo_append]
    simp only [walkSectors,hret,hbuf,ne_eq,not_true_eq_false,if_false,State.volume]
    cases hfind : (entries (s.disk.sector lba)).find? stops with
    | some e =>
      refine ⟨rfl,?_,by simp⟩
      intro r hr
      exact ⟨0,Nat.succ_pos n,by simpa using hr⟩
    | none =>
      refine ⟨by rw [hseen]; rfl,?_,by simp⟩
      intro r hr
      rcases List.mem_cons.mp hr with rfl | hr
      · exact ⟨0,Nat.succ_pos n,rfl⟩
      · obtain ⟨j,hj,rfl⟩ := hreads r hr
        exact ⟨j+1,by omega,by omega⟩

theorem walkChain_mono (fuel k : ℕ) (s : State) (cluster : ℕ)
    (h : (walkChain stops fuel s cluster).ending ≠ .running) :
    walkChain stops (fuel+k) s cluster = walkChain stops fuel s cluster := by
  induction fuel generalizing s cluster with
  | zero => exact absurd rfl h
  | succ fuel ih =>
    rw [Nat.succ_add]
    by_cases hlt : cluster < eoc
    · by_cases hpass : Passes stops s s.secPerClus (s.volume.lba cluster)
      · obtain ⟨t,-,hwalk⟩ := walkChain_passes hlt hpass
        rw [hwalk] at h ⊢
        rw [hwalk,ih _ _ h]
      · rw [walkChain_stops hlt hpass,walkChain_stops hlt hpass]
    · rw [walkChain,if_neg hlt,walkChain,if_neg hlt]

end Entries

def State.clusterReads (s : State) (cluster : ℕ) : List ℕ :=
  (List.range s.secPerClus).map (s.volume.lba cluster+·)++[s.fatLba cluster]

section Chain
variable {stops : DirEntry → Bool} {s : State} {mark : ℕ}

theorem passes_iff (hworks : ∀ n, s.disk.fails n = false) (cluster : ℕ) :
    Passes stops s s.secPerClus (s.volume.lba cluster) ↔
      ∀ e ∈ s.volume.clusterEntries cluster, stops e = false := by
  simp only [Passes,hworks,true_and,Volume.clusterEntries,List.mem_flatMap,List.mem_range]
  constructor
  · rintro h e ⟨j,hj,he⟩
    exact h j hj e he
  · exact fun h j hj e he => h e ⟨j,hj,he⟩

theorem data_lt_eoc {cluster : ℕ} (h : Data cluster) : cluster < eoc :=
  h.2.trans (by decide)

theorem walkChain_cluster (hworks : ∀ n, s.disk.fails n = false) {cluster : ℕ} (hdata : Data cluster)
    (hnone : ∀ e ∈ s.volume.clusterEntries cluster, stops e = false) :
    ∃ t, Later (s.secPerClus+1) s t ∧ ∀ fuel,
      let rest := walkChain stops fuel t (s.volume.link cluster)
      walkChain stops (fuel+1) s cluster = ⟨rest.state,s.clusterReads cluster++rest.reads,
        s.volume.clusterEntries cluster++rest.seen,rest.ending⟩ := by
  obtain ⟨t,hlater,hwalk⟩ := walkChain_passes (data_lt_eoc hdata) ((passes_iff hworks cluster).mpr hnone)
  refine ⟨t,hlater,fun fuel => ?_⟩
  rw [hwalk,Volume.fetch,hworks,if_neg (by decide)]
  simp [State.clusterReads,Volume.clusterEntries,State.volume]

/-- A chain without an entry that ends the walk is walked over, up to its mark. -/
theorem walkChain_through {c : ℕ} {cs : List ℕ} (hworks : ∀ n, s.disk.fails n = false)
    (hlinks : (c::cs).IsChain fun c d => s.volume.link c = d)
    (hlast : ∀ d ∈ (c::cs).getLast?, s.volume.link d = mark) (hdata : ∀ d ∈ c::cs, Data d)
    (hnone : ∀ e ∈ s.volume.chainEntries (c::cs), stops e = false) :
    ∃ t n, Later n s t ∧ ∀ fuel,
      let rest := walkChain stops fuel t mark
      walkChain stops (fuel+(c::cs).length) s c = ⟨rest.state,(c::cs).flatMap s.clusterReads++rest.reads,
        s.volume.chainEntries (c::cs)++rest.seen,rest.ending⟩ := by
  induction cs generalizing s c with
  | nil =>
    obtain ⟨t,hlater,hwalk⟩ := walkChain_cluster hworks (hdata c (by simp)) (by simpa [Volume.chainEntries] using hnone)
    rw [hlast c (by simp)] at hwalk
    refine ⟨t,_,hlater,fun fuel => ?_⟩
    rw [List.length_singleton,hwalk]
    simp [Volume.chainEntries]
  | cons d cs ih =>
    obtain ⟨hnext,hrest⟩ := List.isChain_cons_cons.mp hlinks
    rw [Volume.chainEntries,List.flatMap_cons] at hnone
    obtain ⟨t,hlater,hwalk⟩ := walkChain_cluster hworks (hdata c (by simp))
      fun e he => hnone e (List.mem_append_left _ he)
    rw [hnext] at hwalk
    have hreads : t.clusterReads = s.clusterReads := by
      funext k
      rw [State.clusterReads,State.clusterReads,hlater.spc,hlater.volume,hlater.fatLba]
    obtain ⟨u,n,hu,hrun⟩ := @ih t d (hlater.fails ▸ hworks) (by rwa [hlater.volume])
      (by rw [hlater.volume]; simpa using hlast) (fun k hk => hdata k (List.mem_cons_of_mem _ hk))
      (by rw [hlater.volume]; exact fun e he => hnone e (List.mem_append_right _ he))
    refine ⟨u,_,hlater.trans hu,fun fuel => ?_⟩
    rw [List.length_cons,← Nat.add_assoc,hwalk,hrun,hlater.volume,hreads]
    simp [Volume.chainEntries,List.append_assoc]

theorem inChain_of_clusterReads {chain : List ℕ} {c lba : ℕ} (hc : c ∈ chain)
    (h : lba ∈ s.clusterReads c) : InChain s chain lba := by
  simp only [State.clusterReads,List.mem_append,List.mem_map,List.mem_range,List.mem_singleton] at h
  rcases h with ⟨j,hj,rfl⟩ | rfl
  · exact ⟨c,hc,Or.inl ⟨Nat.le_add_right _ _,Nat.add_lt_add_left hj _⟩⟩
  · exact ⟨c,hc,Or.inr rfl⟩

theorem walkChain_first {c : ℕ} (hworks : ∀ n, s.disk.fails n = false) (hdata : Data c)
    (hstop : ∃ e ∈ s.volume.clusterEntries c, stops e = true) (cs : List ℕ) :
    let w := walkChain stops (c::cs).length s c
    w.ending ≠ .running ∧ w.seen = upTo stops (s.volume.clusterEntries c) ∧
      ∀ lba ∈ w.reads, InChain s (c::cs) lba := by
  have hpass : ¬ Passes stops s s.secPerClus (s.volume.lba c) := by
    rw [passes_iff hworks]
    obtain ⟨e,he,hstops⟩ := hstop
    intro hnone
    simp [hnone e he] at hstops
  obtain ⟨hseen,hreads,-⟩ := @walkSectors_seen stops s hworks s.secPerClus (s.volume.lba c)
  rw [List.length_cons,walkChain_stops (data_lt_eoc hdata) hpass]
  refine ⟨walkSectors_ends _ _ _ _,hseen,fun lba hlba => ?_⟩
  obtain ⟨j,hj,rfl⟩ := hreads lba hlba
  exact ⟨c,by simp,Or.inl ⟨Nat.le_add_right _ _,Nat.add_lt_add_left hj _⟩⟩

/-- A chain with an entry that ends the walk is walked up to it. -/
theorem walkChain_within {c : ℕ} {cs : List ℕ} (hworks : ∀ n, s.disk.fails n = false)
    (hlinks : (c::cs).IsChain fun c d => s.volume.link c = d) (hdata : ∀ d ∈ c::cs, Data d)
    (hstop : ∃ e ∈ s.volume.chainEntries (c::cs), stops e = true) :
    let w := walkChain stops (c::cs).length s c
    w.ending ≠ .running ∧ w.seen = upTo stops (s.volume.chainEntries (c::cs)) ∧
      ∀ lba ∈ w.reads, InChain s (c::cs) lba := by
  induction cs generalizing s c with
  | nil =>
    simp only [Volume.chainEntries,List.flatMap_singleton] at hstop ⊢
    exact walkChain_first hworks (hdata c (by simp)) hstop []
  | cons d cs ih =>
    have hentries : s.volume.chainEntries (c::d::cs) =
        s.volume.clusterEntries c++s.volume.chainEntries (d::cs) := List.flatMap_cons
    rw [hentries] at hstop ⊢
    by_cases hfirst : ∃ e ∈ s.volume.clusterEntries c, stops e = true
    · have hfind : ((s.volume.clusterEntries c).find? stops).isSome = true := by
        simpa using hfirst
      rw [upTo_append,if_pos hfind]
      exact walkChain_first hworks (hdata c (by simp)) hfirst (d::cs)
    · have hnone : ∀ e ∈ s.volume.clusterEntries c, stops e = false := by
        intro e he
        by_contra hstops
        exact hfirst ⟨e,he,by simpa using hstops⟩
      have hfind : (s.volume.clusterEntries c).find? stops = none := by
        simpa using hnone
      obtain ⟨hnext,hrest⟩ := List.isChain_cons_cons.mp hlinks
      obtain ⟨t,hlater,hwalk⟩ := walkChain_cluster hworks (hdata c (by simp)) hnone
      rw [hnext] at hwalk
      have hin : ∀ lba, InChain t (d::cs) lba → InChain s (c::d::cs) lba := by
        rintro lba ⟨k,hk,h⟩
        refine ⟨k,List.mem_cons_of_mem _ hk,?_⟩
        rwa [hlater.volume,hlater.spc,hlater.fatLba] at h
      obtain ⟨hend,hseen,hreads⟩ := @ih t d (hlater.fails ▸ hworks) (by rwa [hlater.volume])
        (fun k hk => hdata k (List.mem_cons_of_mem _ hk)) (by
          rw [hlater.volume]
          obtain ⟨e,he,hstops⟩ := hstop
          rcases List.mem_append.mp he with he | he
          · exact absurd ⟨e,he,hstops⟩ hfirst
          · exact ⟨e,he,hstops⟩)
      rw [List.length_cons,hwalk,upTo_append,hfind,if_neg (by decide)]
      refine ⟨hend,by rw [hseen,hlater.volume],?_⟩
      intro lba hlba
      rcases List.mem_append.mp hlba with hhere | hrest
      · exact inChain_of_clusterReads (by simp) hhere
      · exact hin lba (hreads lba hrest)

end Chain

section Cover
variable {s : State} {chain : List ℕ} {mark : ℕ}

/-- The first sector of an end mark lies behind all data clusters. -/
theorem mark_outside (h : RootChain s chain mark) : ¬ InChain s chain (s.volume.lba mark) := by
  have hmark := h.mark_ge
  have hlayout := h.layout
  have hspc := h.spc
  have hlba : ∀ c, 2 ≤ c → s.volume.lba c = s.dataStart+(c-2)*s.secPerClus := by
    intro c hc
    exact if_neg (by omega)
  rintro ⟨c,hc,⟨-,hlt⟩ | hfat⟩
  · obtain ⟨h2,hbad⟩ := h.data c hc
    have hnext : (c-2+1)*s.secPerClus ≤ (mark-2)*s.secPerClus :=
      Nat.mul_le_mul_right _ (by unfold bad at hbad; omega)
    rw [hlba c h2,hlba mark (by omega)] at hlt
    rw [Nat.succ_mul] at hnext
    omega
  · have hbad := (h.data c hc).2
    have hwide : mark-2 ≤ (mark-2)*s.secPerClus := Nat.le_mul_of_pos_right _ hspc
    rw [hlba mark (by omega),State.fatLba] at hfat
    unfold bad at hbad
    unfold sectorSz at hfat
    omega

theorem walkChain_reads_first {stops : DirEntry → Bool} {t : State} (hworks : ∀ n, t.disk.fails n = false)
    (hspc : 0 < t.secPerClus) {cluster : ℕ} (hlt : cluster < eoc) (fuel : ℕ) :
    t.volume.lba cluster ∈ (walkChain stops (fuel+1) t cluster).reads := by
  have hfirst := (@walkSectors_seen stops t hworks t.secPerClus (t.volume.lba cluster)).2.2 hspc
  by_cases hpass : Passes stops t t.secPerClus (t.volume.lba cluster)
  · obtain ⟨u,-,hwalk⟩ := walkChain_passes hlt hpass
    rw [hwalk]
    apply List.mem_append_left
    exact List.mem_map.mpr ⟨0,List.mem_range.mpr hspc,rfl⟩
  · rwa [walkChain_stops hlt hpass]

theorem covers_iff (h : RootChain s chain mark) (stops : DirEntry → Bool) :
    Covers s chain stops ↔ mark = eoc ∨ ∃ e ∈ s.volume.chainEntries chain, stops e = true := by
  obtain ⟨c,cs,rfl⟩ : ∃ c cs, chain = c::cs := by
    cases chain with
    | nil => simpa using h.head
    | cons c cs => exact ⟨c,cs,rfl⟩
  obtain rfl : c = s.rootCluster := by simpa using h.head
  by_cases hstop : ∃ e ∈ s.volume.chainEntries (s.rootCluster::cs), stops e = true
  · exact iff_of_true ⟨_,walkChain_within h.works h.links h.data hstop⟩ (Or.inr hstop)
  · have hnone : ∀ e ∈ s.volume.chainEntries (s.rootCluster::cs), stops e = false := by
      simpa using hstop
    obtain ⟨t,n,hlater,hwalk⟩ := walkChain_through h.works h.links h.last h.data hnone
    rw [or_iff_left hstop]
    constructor
    · rintro ⟨fuel,hend,-,hreads⟩
      by_contra hne
      -- with more fuel the walk transfers the first sector of the mark
      have hlong := walkChain_mono fuel (1+(s.rootCluster::cs).length) s s.rootCluster hend
      rw [← Nat.add_assoc,hwalk] at hlong
      have hlt : mark < eoc := lt_of_le_of_ne h.mark_le hne
      have hfirst := @walkChain_reads_first stops t (hlater.fails ▸ h.works) (hlater.spc ▸ h.spc) mark hlt fuel
      rw [hlater.volume] at hfirst
      refine mark_outside h (hreads _ ?_)
      rw [← hlong]
      exact List.mem_append_right _ hfirst
    · rintro rfl
      refine ⟨1+(s.rootCluster::cs).length,?_⟩
      rw [hwalk,walkChain,if_neg (lt_irrefl _)]
      refine ⟨Ending.noConfusion,?_,?_⟩
      · rw [upTo_of_none (by simpa using hnone)]
        exact List.append_nil _
      · intro lba hlba
        rw [List.append_nil] at hlba
        obtain ⟨c,hc,hread⟩ := List.mem_flatMap.mp hlba
        exact inChain_of_clusterReads hc hread

/-- On every volume with a readable root chain both scans cover just the chain, if its last
link is `FAT32_EOC` or one of its entries ends the scan, and only then. -/
theorem scans_cover_iff (s : State) (chain : List ℕ) (mark : ℕ) (h : RootChain s chain mark)
    (path : List UInt8) :
    (Covers s chain DirEntry.isLast ↔
      mark = eoc ∨ ∃ e ∈ s.volume.chainEntries chain, e.isLast = true) ∧
    (Covers s chain (openStops path) ↔
      mark = eoc ∨ ∃ e ∈ s.volume.chainEntries chain, openStops path e = true) :=
  ⟨covers_iff h _,covers_iff h _⟩

end Cover

theorem demo_rootChain : RootChain demo [2] eoc := by
  refine ⟨rfl,fun _ => rfl,by decide,by decide,rfl,.singleton _,?_,by decide,by decide,le_rfl⟩
  decide +kernel

theorem scans_cover_demo : Covers demo [2] DirEntry.isLast ∧ Covers demo [2] (openStops [0x41]) :=
  ⟨(scans_cover_iff demo [2] eoc demo_rootChain [0x41]).1.mpr (Or.inl rfl),
    (scans_cover_iff demo [2] eoc demo_rootChain [0x41]).2.mpr (Or.inl rfl)⟩

/-- A root directory in the cluster 2, full of entries, with the end mark `0x0FFFFFF8`. -/
def markedSector (lba : ℕ) : Sector where
  get i :=
    if lba = 1 then
      if i.val = 8 then 0xF8
      else if i.val = 9 ∨ i.val = 10 then 0xFF
      else if i.val = 11 then 0x0F
      else 0
    else 0x41

def marked : State := (init (unmounted demo.bpb markedSector fun _ => false)).1

/-- Both scans go on in the cluster `0x0FFFFFF8`. -/
theorem mark_scanned : RootChain marked [2] 0x0FFFFFF8 ∧ ¬ Covers marked [2] DirEntry.isLast ∧
    ¬ Covers marked [2] (openStops [0x42]) := by
  have h : RootChain marked [2] 0x0FFFFFF8 := by
    refine ⟨by decide +kernel,fun _ => rfl,by decide +kernel,by decide +kernel,by decide +kernel,
      .singleton _,?_,by decide,le_rfl,by decide⟩
    decide +kernel
  refine ⟨h,?_,?_⟩
  · rw [covers_iff h]
    decide +kernel
  · rw [covers_iff h]
    decide +kernel

end Fat32
end ValiantCore
