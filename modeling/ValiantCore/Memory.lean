import ValiantCore.Bytes
import Mathlib.Data.Set.Lattice
import Mathlib.Order.CompletePartialOrder

/-! A 64-bit memory of bytes with little-endian doublewords. An access covers the span of
its bytes, modulo the size of the address space; what lies outside keeps its value. -/
namespace ValiantCore
namespace Memory

abbrev Word := BitVec 64
abbrev Mem := Word → UInt8

def span (a : Word) (n : ℕ) : Set Word := {b | (b-a).toNat < n}

theorem mem_span {a b : Word} {n : ℕ} : b ∈ span a n ↔ (b-a).toNat < n := Iff.rfl

theorem offset_self (a k : Word) : a+k-a = k := by
  bv_omega

theorem mem_span_add {a : Word} {i n : ℕ} (hi : i < n) (hn : n ≤ 2^64) :
    a+BitVec.ofNat 64 i ∈ span a n := by
  have hlt : i < 2^64 := hi.trans_le hn
  rwa [mem_span,offset_self,BitVec.toNat_ofNat,Nat.mod_eq_of_lt hlt]

theorem span_subset {a b : Word} {n l : ℕ} (h : (b-a).toNat+n ≤ l) : span b n ⊆ span a l := by
  intro c hc
  rw [mem_span] at hc ⊢
  bv_omega

theorem span_disjoint {a b : Word} {n l : ℕ} (hn : n ≤ (b-a).toNat) (hl : l ≤ (a-b).toNat) :
    Disjoint (span a n) (span b l) := by
  rw [Set.disjoint_left]
  intro c hc hc'
  rw [mem_span] at hc hc'
  bv_omega

def load64 (m : Mem) (a : Word) : Word :=
  BitVec.ofNat 64 (Bytes.leNat ((List.range 8).map fun i => m (a+BitVec.ofNat 64 i)))

def store64 (m : Mem) (a v : Word) : Mem :=
  fun b => if (b-a).toNat < 8 then (Bytes.leBytes 8 v.toNat).getD (b-a).toNat 0 else m b

theorem store64_of_notMem {m : Mem} {a v b : Word} (h : b ∉ span a 8) : store64 m a v b = m b :=
  if_neg h

theorem store64_zero {m : Mem} {a b : Word} (h : b ∈ span a 8) : store64 m a 0 b = 0 := by
  have hbytes : Bytes.leBytes 8 (0 : Word).toNat = List.replicate 8 0 := rfl
  rw [mem_span] at h
  rw [store64,if_pos h,hbytes,List.getD_eq_getElem?_getD,List.getElem?_replicate,if_pos h]
  rfl

theorem load64_congr {m m' : Mem} {a : Word} (h : ∀ b ∈ span a 8, m b = m' b) :
    load64 m a = load64 m' a := by
  unfold load64
  congr 2
  apply List.map_congr_left
  intro i hi
  exact h _ (mem_span_add (List.mem_range.mp hi) (by decide))

theorem load64_store64 (m : Mem) (a v : Word) : load64 (store64 m a v) a = v := by
  have hbytes : ((List.range 8).map fun i => store64 m a v (a+BitVec.ofNat 64 i)) =
      Bytes.leBytes 8 v.toNat := by
    apply List.ext_getElem
    · simp
    · intro i hi _
      have hlt : i < 8 := by simpa using hi
      have hmod : i%2^64 = i := Nat.mod_eq_of_lt (by omega)
      have hoff : (BitVec.ofNat 64 i).toNat = i := by rw [BitVec.toNat_ofNat,hmod]
      simp only [List.getElem_map,List.getElem_range,store64,offset_self,hoff,if_pos hlt]
      rw [List.getD_eq_getElem?_getD,List.getElem?_eq_getElem (by simpa using hlt),Option.getD_some]
  rw [load64,hbytes,Bytes.leNat_leBytes,Nat.mod_eq_of_lt (show v.toNat < 256^8 from v.isLt)]
  simp

theorem load64_store64_of_disjoint {m : Mem} {a c v : Word} (h : Disjoint (span a 8) (span c 8)) :
    load64 (store64 m c v) a = load64 m a :=
  load64_congr fun _ hb => store64_of_notMem (Set.disjoint_left.mp h hb)

/-- The doublewords `ws` lie in memory one after the other from `a` on. -/
def Holds (m : Mem) : Word → List Word → Prop
  | _, [] => True
  | a, w::ws => load64 m a = w ∧ Holds m (a+8) ws

theorem Holds.congr {m m' : Mem} {a : Word} {ws : List Word} (hlen : 8*ws.length ≤ 2^64)
    (h : ∀ b ∈ span a (8*ws.length), m b = m' b) (hm : Holds m a ws) : Holds m' a ws := by
  induction ws generalizing a with
  | nil => trivial
  | cons w ws ih =>
    rw [List.length_cons] at hlen h
    refine ⟨?_,ih (by omega) (fun b hb => h b (span_subset (by bv_omega) hb)) hm.2⟩
    rw [← hm.1]
    exact (load64_congr fun b hb => h b (span_subset (by bv_omega) hb)).symm

theorem Holds.push {m : Mem} {a v w : Word} {ws : List Word} (hlen : 8*ws.length+16 ≤ 2^64)
    (hm : Holds m (a+16) ws) :
    Holds (store64 (store64 m a v) (a+8) w) a (v::w::ws) := by
  have hkeep : ∀ b ∈ span (a+16) (8*ws.length), m b = store64 (store64 m a v) (a+8) w b := by
    intro b hb
    have hhigh : b ∉ span (a+8) 8 :=
      Set.disjoint_right.mp (span_disjoint (by bv_omega) (by bv_omega)) hb
    have hlow : b ∉ span a 8 :=
      Set.disjoint_right.mp (span_disjoint (by bv_omega) (by bv_omega)) hb
    rw [store64_of_notMem hhigh,store64_of_notMem hlow]
  refine ⟨?_,load64_store64 _ _ _,?_⟩
  · rw [load64_store64_of_disjoint (span_disjoint (by bv_omega) (by bv_omega)),load64_store64]
  · rw [BitVec.add_assoc]
    exact hm.congr (by omega) hkeep

/-- The doublewords `ws`, stored one after the other from `a` on. -/
def storeAll (m : Mem) (a : Word) : List Word → Mem
  | [] => m
  | w::ws => storeAll (store64 m a w) (a+8) ws

section StoreAll
variable {m : Mem} {a b : Word} {ws : List Word}

theorem storeAll_of_notMem (hlen : 8*ws.length ≤ 2^64) (hb : b ∉ span a (8*ws.length)) :
    storeAll m a ws b = m b := by
  induction ws generalizing m a with
  | nil => rfl
  | cons w ws ih =>
    rw [List.length_cons] at hlen hb
    have hfirst : b ∉ span a 8 := fun h => hb (span_subset (by bv_omega) h)
    have hrest : b ∉ span (a+8) (8*ws.length) := by
      intro h
      cases ws with
      | nil => exact absurd h (by simp [mem_span])
      | cons v vs =>
        rw [List.length_cons] at h hlen hb
        exact hb (span_subset (by bv_omega) h)
    rw [storeAll,ih (by omega) hrest,store64_of_notMem hfirst]

theorem storeAll_holds (hlen : 8*ws.length ≤ 2^64) : Holds (storeAll m a ws) a ws := by
  induction ws generalizing m a with
  | nil => trivial
  | cons w ws ih =>
    rw [List.length_cons] at hlen
    refine ⟨?_,ih (by omega)⟩
    have hfirst : load64 (storeAll (store64 m a w) (a+8) ws) a = load64 (store64 m a w) a := by
      apply load64_congr
      intro b hb
      apply storeAll_of_notMem (by omega)
      exact Set.disjoint_left.mp (span_disjoint (by bv_omega) (by bv_omega)) hb
    rw [storeAll,hfirst,load64_store64]

theorem storeAll_zeros {n : ℕ} (hlen : 8*n ≤ 2^64) (hb : b ∈ span a (8*n)) :
    storeAll m a (List.replicate n 0) b = 0 := by
  induction n generalizing m a with
  | zero => exact absurd hb (by simp [mem_span])
  | succ n ih =>
    rw [List.replicate_succ,storeAll]
    by_cases hrest : b ∈ span (a+8) (8*n)
    · exact ih (by omega) hrest
    · have hfirst : (b-a).toNat < 8 := by
        rw [mem_span] at hb hrest
        bv_omega
      rw [storeAll_of_notMem (by rw [List.length_replicate]; omega) (by rwa [List.length_replicate])]
      exact store64_zero hfirst

theorem storeAll_append (vs : List Word) :
    storeAll m a (ws++vs) = storeAll (storeAll m a ws) (a+BitVec.ofNat 64 (8*ws.length)) vs := by
  induction ws generalizing m a with
  | nil => simp [storeAll]
  | cons w ws ih =>
    rw [List.cons_append,storeAll,storeAll,ih,List.length_cons]
    congr 1
    bv_omega

end StoreAll

theorem Holds.push_one {m : Mem} {a v : Word} {ws : List Word} (hlen : 8*ws.length+8 ≤ 2^64)
    (hm : Holds m (a+8) ws) : Holds (store64 m a v) a (v::ws) := by
  refine ⟨load64_store64 _ _ _,hm.congr (by omega) ?_⟩
  intro b hb
  exact (store64_of_notMem (Set.disjoint_right.mp (span_disjoint (by bv_omega) (by bv_omega)) hb)).symm

theorem Holds.append_left {m : Mem} {a : Word} {ws vs : List Word} (hm : Holds m a (ws++vs)) :
    Holds m a ws := by
  induction ws generalizing a with
  | nil => trivial
  | cons w ws ih => exact ⟨hm.1,ih hm.2⟩

theorem Holds.append_right {m : Mem} {a : Word} {ws vs : List Word} (hm : Holds m a (ws++vs)) :
    Holds m (a+BitVec.ofNat 64 (8*ws.length)) vs := by
  induction ws generalizing a with
  | nil => simpa using hm
  | cons w ws ih =>
    have hnext := ih hm.2
    rw [List.length_cons]
    convert hnext using 1
    bv_omega

end Memory
end ValiantCore
