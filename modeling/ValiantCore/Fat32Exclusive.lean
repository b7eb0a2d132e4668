import ValiantCore.Fat32Alloc
import ValiantCore.Fat32Turns

/-! Which clusters `fat32_alloc_cluster` gives away. The entry of the cluster is read once
more and written, and the call does not look at how that ends: where one of the two
transfers is lost, the entry stays free and the next call finds the same cluster. -/
namespace ValiantCore
namespace Fat32

open Bytes

theorem leBytes_eq_map (w n : ℕ) :
    leBytes w n = (List.range w).map fun k => UInt8.ofNat (n/256^k) := by
  induction w generalizing n with
  | zero => rfl
  | succ w ih =>
    rw [leBytes,ih,List.range_succ_eq_map,List.map_cons,List.map_map]
    simp [Function.comp_def,Nat.div_div_eq_div_mul,pow_succ,Nat.mul_comm]

section Patch
variable (sec : Sector) {off w n : ℕ}

theorem patch_byte_inside {k : ℕ} (hoff : off+w ≤ 512) (hk : k < w) :
    (sec.patch off w n).byte (off+k) = UInt8.ofNat (n/256^k) := by
  have hlt : off+k < 512 := by omega
  have hin : off ≤ off+k ∧ off+k < off+w := by omega
  simp only [Sector.byte,Sector.patch,dif_pos hlt,if_pos hin,Nat.add_sub_cancel_left]

theorem patch_byte_outside {i : ℕ} (hi : i < off ∨ off+w ≤ i) :
    (sec.patch off w n).byte i = sec.byte i := by
  have hout : ¬ (off ≤ i ∧ i < off+w) := by omega
  simp only [Sector.byte,Sector.patch,if_neg hout]

theorem patch_field (hoff : off+w ≤ 512) : field (sec.patch off w n).byte off w = n%256^w := by
  refine Holds.field ?_
  rw [Holds,leBytes_length,bytesAt_eq_map,leBytes_eq_map]
  exact List.map_congr_left fun k hk => patch_byte_inside sec hoff (List.mem_range.mp hk)

theorem patch_field_beside {o t : ℕ} (h : o+t ≤ off ∨ off+w ≤ o) :
    field (sec.patch off w n).byte o t = field sec.byte o t := by
  rw [field_eq_iff]
  intro k hk
  exact patch_byte_outside sec (by omega)

end Patch

def Volume.withLink (v : Volume) (cluster value : ℕ) : Volume :=
  let lba := v.fatStart+cluster*4/sectorSz
  let sec := (v.sector lba).patch (cluster*4%sectorSz) 4 (value &&& 0x0FFFFFFF)
  { v with sector := Function.update v.sector lba sec }

/-- The written link is read back, and no other link changes: the entries are four bytes
wide, and none lies across the end of a sector. -/
theorem withLink_link (v : Volume) (cluster value other : ℕ) :
    (v.withLink cluster value).link other =
      if other = cluster then value &&& 0x0FFFFFFF else v.link other := by
  have hmod : cluster*4%sectorSz+4 ≤ 512 := by
    unfold sectorSz
    omega
  by_cases hsame : other = cluster
  · have hmask : (value &&& 0x0FFFFFFF) < 256^4 :=
      lt_of_le_of_lt Nat.and_le_right (by decide)
    subst hsame
    rw [if_pos rfl]
    simp only [Volume.link,Volume.withLink,Function.update_self]
    rw [patch_field _ hmod,Nat.mod_eq_of_lt hmask,Nat.and_assoc,Nat.and_self]
  · rw [if_neg hsame]
    simp only [Volume.link,Volume.withLink]
    by_cases hlba : v.fatStart+other*4/sectorSz = v.fatStart+cluster*4/sectorSz
    · rw [hlba,Function.update_self,patch_field_beside]
      unfold sectorSz at hlba ⊢
      omega
    · rw [Function.update_of_ne hlba]

theorem writeFatEntry_volume (s : State) (cluster value : ℕ) :
    (writeFatEntry s cluster value).1.volume =
      if s.disk.fails s.disk.clock ∨ s.disk.fails (s.disk.clock+1) then s.volume
      else s.volume.withLink cluster value := by
  cases hread : s.disk.fails s.disk.clock with
  | true => simp [writeFatEntry,readSector,hread,State.volume]
  | false =>
    cases hwrite : s.disk.fails (s.disk.clock+1) with
    | true => simp [writeFatEntry,writeSector,readSector,hread,hwrite,State.volume]
    | false => simp [writeFatEntry,writeSector,readSector,hread,hwrite,State.volume,Volume.withLink]

/-- The write of an entry that succeeds stores the value for its cluster, and leaves alone
what the other entries read as and every other sector. -/
structure StoresEntry (s t : State) (cluster value : ℕ) : Prop where
  stored : t.disk.fails t.disk.clock = false → (readFatEntry t cluster).2 = value%2^28
  others : ∀ other ≠ cluster, t.disk.fails t.disk.clock = false →
    (readFatEntry t other).2 = (readFatEntry s other).2
  elsewhere : ∀ lba ≠ s.fatStart+cluster*4/sectorSz, t.disk.sector lba = s.disk.sector lba

theorem writeFatEntry_eq_zero_iff (s : State) (cluster value : ℕ) :
    (writeFatEntry s cluster value).2 = 0 ↔
      s.disk.fails s.disk.clock = false ∧ s.disk.fails (s.disk.clock+1) = false := by
  cases hread : s.disk.fails s.disk.clock with
  | true => simp [writeFatEntry,readSector,hread]
  | false =>
    cases hwrite : s.disk.fails (s.disk.clock+1) with
    | true => simp [writeFatEntry,writeSector,readSector,hread,hwrite]
    | false => simp [writeFatEntry,writeSector,readSector,hread,hwrite]

theorem and_linkMask (value : ℕ) : value &&& 0x0FFFFFFF = value%2^28 :=
  Nat.and_two_pow_sub_one_eq_mod value 28

/-- The table is an array of links. -/
theorem writeFatEntry_stores {s : State} {cluster value : ℕ}
    (hwritten : (writeFatEntry s cluster value).2 = 0) :
    StoresEntry s (writeFatEntry s cluster value).1 cluster value := by
  obtain ⟨hread,hwrite⟩ := (writeFatEntry_eq_zero_iff s cluster value).mp hwritten
  have hvol := writeFatEntry_volume s cluster value
  rw [hread,hwrite,if_neg (by simp)] at hvol
  have hlink : ∀ other, (writeFatEntry s cluster value).1.disk.fails
      (writeFatEntry s cluster value).1.disk.clock = false →
      (readFatEntry (writeFatEntry s cluster value).1 other).2 =
        if other = cluster then value%2^28 else s.volume.link other := by
    intro other hfails
    rw [readFatEntry_eq,Volume.fetch,hfails,hvol,withLink_link,and_linkMask]
    rfl
  refine ⟨fun hfails => ?_,fun other hne hfails => ?_,fun lba hlba => ?_⟩
  · rw [hlink cluster hfails,if_pos rfl]
  · rw [hlink other hfails,if_neg hne,readFatEntry_eq,Volume.fetch,hread]
    rfl
  · have hsector := congrFun (congrArg Volume.sector hvol) lba
    exact hsector.trans (Function.update_of_ne hlba _ _)

theorem writeFatEntry_stores_demo : StoresEntry demo (writeFatEntry demo 3 0xF0000005).1 3 0xF0000005 :=
  writeFatEntry_stores (by decide +kernel)

/-- `t` is `s` after `n` more transfers, with the same disk. -/
structure Scanned (n : ℕ) (s t : State) : Prop where
  volume : t.volume = s.volume
  fails : t.disk.fails = s.disk.fails
  clock : t.disk.clock = s.disk.clock+n

theorem readFatEntry_scanned (s : State) (cluster : ℕ) : Scanned 1 s (readFatEntry s cluster).1 where
  volume := (@readFatEntry_elsewhere 0 s cluster).volume
  fails := (@readFatEntry_elsewhere 0 s cluster).fails
  clock := readFatEntry_clock s cluster

theorem Scanned.trans {m n : ℕ} {s t u : State} (h : Scanned m s t) (h' : Scanned n t u) :
    Scanned (m+n) s u where
  volume := h'.volume.trans h.volume
  fails := h'.fails.trans h.fails
  clock := by rw [h'.clock,h.clock,Nat.add_assoc]

/-- The `j`-th entry behind entry `i` is read as free, when the scan begins at entry `i`. -/
def State.readsFree (s : State) (i j : ℕ) : Prop :=
  s.volume.fetch s.disk.fails (s.disk.clock+j) (i+j) = free

theorem readsFree_iff (s : State) (i j : ℕ) :
    s.readsFree i j ↔ s.disk.fails (s.disk.clock+j) = false ∧ s.volume.link (i+j) = free := by
  unfold State.readsFree Volume.fetch
  cases s.disk.fails (s.disk.clock+j) with
  | true => simp [bad,free]
  | false => simp

theorem readsFree_succ {s t : State} (h : Scanned 1 s t) (i j : ℕ) :
    t.readsFree (i+1) j ↔ s.readsFree i (j+1) := by
  rw [State.readsFree,State.readsFree,h.volume,h.fails,h.clock,Nat.add_assoc,Nat.add_assoc,Nat.add_comm 1 j]

/-- The scan takes the first entry that it reads as free, or reads all of them. -/
theorem allocLoop_cases (n : ℕ) (s : State) (i : ℕ) :
    (∃ j t, j < n ∧ s.readsFree i j ∧ (∀ k < j, ¬ s.readsFree i k) ∧ Scanned (j+1) s t ∧
      allocLoop n s i = ((writeFatEntry t (i+j) eoc).1,i+j)) ∨
    ((∀ k < n, ¬ s.readsFree i k) ∧ ∃ t, Scanned n s t ∧ allocLoop n s i = (t,0)) := by
  induction n generalizing s i with
  | zero => exact Or.inr ⟨fun k hk => absurd hk (Nat.not_lt_zero k),s,⟨rfl,rfl,rfl⟩,rfl⟩
  | succ n ih =>
    have hscanned := readFatEntry_scanned s i
    have hvalue : (readFatEntry s i).2 = free ↔ s.readsFree i 0 := by
      rw [readFatEntry_eq]
      rfl
    by_cases hfree : s.readsFree i 0
    · refine Or.inl ⟨0,_,Nat.succ_pos n,hfree,fun k hk => absurd hk (Nat.not_lt_zero k),hscanned,?_⟩
      simp only [allocLoop,if_pos (hvalue.mpr hfree),Nat.add_zero]
    · have hgo : allocLoop (n+1) s i = allocLoop n (readFatEntry s i).1 (i+1) := by
        simp only [allocLoop,if_neg (mt hvalue.mp hfree)]
      have hearlier : ∀ m, (∀ k < m, ¬ (readFatEntry s i).1.readsFree (i+1) k) →
          ∀ k < m+1, ¬ s.readsFree i k := by
        intro m hm k hk
        cases k with
        | zero => exact hfree
        | succ k => exact mt (readsFree_succ hscanned i k).mpr (hm k (Nat.lt_of_succ_lt_succ hk))
      rw [hgo]
      rcases ih (readFatEntry s i).1 (i+1) with ⟨j,t,hj,hhit,hfirst,ht,hloop⟩ | ⟨hnone,t,ht,hloop⟩
      · refine Or.inl ⟨j+1,t,Nat.succ_lt_succ hj,(readsFree_succ hscanned i j).mp hhit,hearlier j hfirst,?_,?_⟩
        · exact Nat.add_comm 1 (j+1) ▸ hscanned.trans ht
        · rw [hloop,Nat.add_assoc,Nat.add_comm 1 j]
      · exact Or.inr ⟨hearlier n hnone,t,Nat.add_comm 1 n ▸ hscanned.trans ht,hloop⟩

/-- The entry of cluster `2+j` is the first one on the volume that can be read and is free. -/
structure FirstFree (s : State) (j : ℕ) : Prop where
  inTable : j < u32 (s.totalClusters+2)-2
  free : s.readsFree 2 j
  first : ∀ k < j, ¬ s.readsFree 2 k

theorem FirstFree.unique {s : State} {j k : ℕ} (hj : FirstFree s j) (hk : FirstFree s k) : j = k := by
  rcases Nat.lt_trichotomy j k with hlt | heq | hlt
  · exact absurd hj.free (hk.first j hlt)
  · exact heq
  · exact absurd hk.free (hj.first k hlt)

/-- One of the two transfers that are to mark the first free entry fails. -/
def WriteLost (s : State) : Prop :=
  ∃ j, FirstFree s j ∧ (s.disk.fails (s.disk.clock+j+1) ∨ s.disk.fails (s.disk.clock+j+2))

/-- What the call does to the volume: nothing, if no entry is read as free; else the entry
is marked, unless the write is lost. -/
theorem fat32AllocCluster_cases {s : State} (hspc : s.secPerClus ≠ 0) :
    (¬ WriteLost s ∧ (fat32AllocCluster s).2 = .returned 0 ∧
      (fat32AllocCluster s).1.volume = s.volume) ∨
    (∃ j, FirstFree s j ∧ (fat32AllocCluster s).2 = .returned (2+j : ℕ) ∧
      ((WriteLost s ∧ (fat32AllocCluster s).1.volume = s.volume) ∨
        (¬ WriteLost s ∧ (fat32AllocCluster s).1.volume = s.volume.withLink (2+j) eoc))) := by
  simp only [fat32AllocCluster,if_neg hspc]
  rcases allocLoop_cases (u32 (s.totalClusters+2)-2) s 2 with
    ⟨j,t,hj,hhit,hfirst,ht,hloop⟩ | ⟨hnone,t,ht,hloop⟩
  · have hfree : FirstFree s j := ⟨hj,hhit,hfirst⟩
    have hlost : WriteLost s ↔ t.disk.fails t.disk.clock ∨ t.disk.fails (t.disk.clock+1) := by
      rw [ht.fails,ht.clock]
      constructor
      · rintro ⟨k,hk,hfails⟩
        rwa [hk.unique hfree] at hfails
      · exact fun hfails => ⟨j,hfree,hfails⟩
    have hvol := writeFatEntry_volume t (2+j) eoc
    rw [hloop]
    refine Or.inr ⟨j,hfree,rfl,?_⟩
    by_cases h : WriteLost s
    · rw [if_pos (hlost.mp h)] at hvol
      exact Or.inl ⟨h,hvol.trans ht.volume⟩
    · rw [if_neg (mt hlost.mpr h),ht.volume] at hvol
      exact Or.inr ⟨h,hvol⟩
  · have hkept : ¬ WriteLost s := by
      rintro ⟨j,hj,-⟩
      exact hnone j hj.inTable hj.free
    rw [hloop]
    exact Or.inl ⟨hkept,rfl,ht.volume⟩

/-- What the caller of an allocation relies on. -/
structure Exclusive (s : State) (c : ℕ) : Prop where
  lower : 2 ≤ c
  upper : c ≤ s.totalClusters+1
  wasFree : s.volume.link c = free
  nowTaken : (fat32AllocCluster s).1.volume.link c = eoc

/-- If the call allocates, a result that is not zero is given away exclusively. -/
def Allocates (s : State) (call : Call) : Prop :=
  call = .fat32AllocCluster → ∀ c : ℕ, (callStep s call).2 = .returned c → c ≠ 0 → Exclusive s c

theorem allocates_iff (s : State) : Allocates s .fat32AllocCluster ↔ ¬ WriteLost s := by
  by_cases hspc : s.secPerClus = 0
  · have hlost : ¬ WriteLost s := by
      rintro ⟨j,hj,-⟩
      have hlt := hj.inTable
      simp [State.totalClusters,hspc,u32] at hlt
    refine iff_of_true (fun _ c hc => ?_) hlost
    simp [callStep,fat32AllocCluster,hspc] at hc
  · rcases fat32AllocCluster_cases hspc with ⟨hlost,hres,-⟩ | ⟨j,hj,hres,hvol⟩
    · refine iff_of_true (fun _ c hc hne => ?_) hlost
      have hzero : (0 : ℤ) = c := Outcome.returned.inj (hres.symm.trans hc)
      omega
    · have hfree := ((readsFree_iff s 2 j).mp hj.free).2
      constructor
      · intro h hlost
        have htaken := (h rfl (2+j) hres (by omega)).nowTaken
        rcases hvol with ⟨-,hsame⟩ | ⟨hkept,-⟩
        · rw [hsame,hfree] at htaken
          exact absurd htaken (by decide)
        · exact hkept hlost
      · intro hkept _ c hc _
        obtain rfl : 2+j = c := by
          have hcast : ((2+j : ℕ) : ℤ) = c := Outcome.returned.inj (hres.symm.trans hc)
          omega
        rcases hvol with ⟨hlost,-⟩ | ⟨-,hwritten⟩
        · exact absurd hlost hkept
        · refine ⟨Nat.le_add_right 2 j,?_,hfree,?_⟩
          · have hlt := hj.inTable
            unfold u32 at hlt
            omega
          · rw [hwritten,withLink_link,if_pos rfl]
            decide

def handed (e : Runs.Event State Call Outcome) : Option ℕ :=
  match e.op, e.out with
  | .fat32AllocCluster, .returned c => if 0 < c then some c.toNat else none
  | _, _ => none

def allocations (s : State) (calls : List Call) : List ℕ :=
  (Runs.trace callStep s calls).filterMap handed

theorem of_handed {e : Runs.Event State Call Outcome} {c : ℕ} (h : handed e = some c) :
    e.op = .fat32AllocCluster ∧ e.out = .returned c ∧ c ≠ 0 := by
  obtain ⟨s,op,out⟩ := e
  cases op with
  | file op => cases h
  | fat32Ls fuel => cases h
  | fat32AllocCluster =>
    cases out with
    | returned r =>
      by_cases hr : 0 < r
      · simp only [handed,if_pos hr,Option.some.injEq] at h
        have hcast : r = (c : ℤ) := by omega
        exact ⟨rfl,congrArg _ hcast,by omega⟩
      · simp [handed,hr] at h
    | divideError => cases h
    | running => cases h

theorem sameVolume_keeps : Keeps fun s t => t.volume = s.volume where
  refl _ := rfl
  trans h h' := h'.trans h
  read s lba := (@readSector_elsewhere 0 s lba).volume

theorem callStep_link {s : State} {c : ℕ} (h : s.volume.link c ≠ free) (call : Call) :
    (callStep s call).1.volume.link c ≠ free := by
  cases call with
  | file op =>
    have hsame : (callStep s (.file op)).1.volume = s.volume :=
      step_keeps (fun _ _ _ => rfl) sameVolume_keeps s op
    rwa [hsame]
  | fat32Ls fuel =>
    have hsame : (callStep s (.fat32Ls fuel)).1.volume = s.volume := fat32Ls_keeps sameVolume_keeps fuel s
    rwa [hsame]
  | fat32AllocCluster =>
    by_cases hspc : s.secPerClus = 0
    · simpa [callStep,fat32AllocCluster,hspc] using h
    · simp only [callStep]
      rcases fat32AllocCluster_cases hspc with ⟨-,-,hsame⟩ | ⟨j,-,-,⟨-,hsame⟩ | ⟨-,hwritten⟩⟩
      · rwa [hsame]
      · rwa [hsame]
      · rw [hwritten,withLink_link]
        split_ifs
        · decide
        · exact h

/-- What has been handed out is taken, and has been handed out once. -/
structure HandedOut (s : State) (calls : List Call) : Prop where
  taken : ∀ c ∈ allocations s calls, (Runs.exec callStep s calls).volume.link c ≠ free
  once : (allocations s calls).Nodup

theorem handedOut_concat {s : State} {pre : List Call} {call : Call} (h : HandedOut s pre)
    (hcall : Allocates (Runs.exec callStep s pre) call) : HandedOut s (pre++[call]) := by
  have hkept : ∀ c ∈ allocations s pre, (Runs.exec callStep s (pre++[call])).volume.link c ≠ free := by
    intro c hc
    rw [Runs.exec_concat]
    exact callStep_link (h.taken c hc) call
  cases hhanded : handed ⟨Runs.exec callStep s pre,call,(callStep (Runs.exec callStep s pre) call).2⟩ with
  | none =>
    have hsame : allocations s (pre++[call]) = allocations s pre := by
      simp [allocations,Runs.trace_concat,hhanded]
    exact ⟨by rwa [hsame],by rw [hsame]; exact h.once⟩
  | some c =>
    have hnew : allocations s (pre++[call]) = allocations s pre++[c] := by
      simp [allocations,Runs.trace_concat,hhanded]
    obtain ⟨halloc,hres,hne⟩ := of_handed hhanded
    have hexcl := hcall halloc c hres hne
    have hfresh : c ∉ allocations s pre := fun hmem => h.taken c hmem hexcl.wasFree
    constructor
    · intro d hd
      rw [hnew,List.mem_append,List.mem_singleton] at hd
      rcases hd with hd | rfl
      · exact hkept d hd
      · rw [Runs.exec_concat,show call = .fat32AllocCluster from halloc]
        simp only [callStep,hexcl.nowTaken]
        decide
    · rw [hnew]
      exact List.concat_eq_append ▸ h.once.concat hfresh

/-- In every run of calls, each allocation is exclusive and no cluster is handed out twice,
just if no allocation loses the write that marks its cluster. -/
theorem allocations_exclusive_iff (s : State) (calls : List Call) :
    (Runs.EveryStep (fun pre call => Allocates (Runs.exec callStep s pre) call) calls ∧
      (allocations s calls).Nodup) ↔
    Runs.EveryStep (fun pre call =>
      call = .fat32AllocCluster → ¬ WriteLost (Runs.exec callStep s pre)) calls := by
  have hstep : ∀ pre call, Allocates (Runs.exec callStep s pre) call ↔
      (call = .fat32AllocCluster → ¬ WriteLost (Runs.exec callStep s pre)) := by
    intro pre call
    constructor
    · rintro h rfl
      exact (allocates_iff _).mp h
    · exact fun h halloc => (halloc ▸ (allocates_iff _).mpr (h halloc)) halloc
  simp only [← hstep]
  constructor
  · exact And.left
  · intro h
    have hout : Runs.Always (HandedOut s) calls :=
      Runs.always_of_everyStep ⟨by simp [allocations],by simp [allocations]⟩
        (fun pre call => handedOut_concat) h
    exact ⟨h,(hout calls (List.prefix_refl _)).once⟩

/-- The volume of the examples, whose first free cluster is cluster 5: the write behind its
sixth transfer is lost, and a second call hands out the cluster again. -/
theorem cluster_handed_out_twice :
    ¬ (Runs.EveryStep (fun pre call => Allocates (Runs.exec callStep
          { demo with disk.fails := fun n => n = 5 } pre) call)
        [.fat32AllocCluster,.fat32AllocCluster] ∧
      (allocations { demo with disk.fails := fun n => n = 5 }
        [.fat32AllocCluster,.fat32AllocCluster]).Nodup) :=
  fun h => absurd h.2 (by decide +kernel)

end Fat32
end ValiantCore
