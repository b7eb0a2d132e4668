import Mathlib.Data.List.Induction
import Mathlib.Data.List.Range
import Mathlib.Data.Nat.Count
import Mathlib.Logic.Function.Basic
import Mathlib.Tactic.Cases

/-! Fixed arrays of slots, as C programs keep them: a table with an extent, a linear scan for
the first slot that fits, and a view that tells what a slot holds. An array is a function on
indices; its extent stands in the loops over it. Of two levels, a directory names the frame
that holds the table of each of its entries; as long as no two entries share a frame, such a
table behaves like one map from pairs of indices. -/
namespace ValiantCore
namespace Slots

/-- The first index below `n` at which the test succeeds. -/
def firstSlot (n : ℕ) (p : ℕ → Bool) : Option ℕ := (List.range n).find? p

theorem firstSlot_eq_some {n i : ℕ} {p : ℕ → Bool} :
    firstSlot n p = some i ↔ i < n ∧ p i = true ∧ ∀ j < i, p j = false := by
  simp only [firstSlot,List.find?_range_eq_some,List.mem_range,Bool.not_eq_true']
  tauto

theorem firstSlot_eq_none {n : ℕ} {p : ℕ → Bool} :
    firstSlot n p = none ↔ ∀ i < n, p i = false := by
  simp [firstSlot,List.find?_eq_none]

/-- The turns `i`, `i+1`, … of a loop with `n` turns left: the turn at which it breaks, and
what the turns leave. -/
def scan {B : Type} (breaks : ℕ → Bool) (leaves : ℕ → List B) : ℕ → ℕ → Option ℕ × List B
  | 0, _ => (none,[])
  | n+1, i =>
    if breaks i then (some i,leaves i)
    else
      let r := scan breaks leaves n (i+1)
      (r.1,leaves i++r.2)

section Scan
variable {B : Type} {breaks : ℕ → Bool} {leaves : ℕ → List B}

theorem scan_breaks (n i : ℕ) : (scan breaks leaves n i).1 = (List.range' i n).find? breaks := by
  induction n generalizing i with
  | zero => rfl
  | succ n ih =>
    rw [scan,List.range'_succ,List.find?_cons]
    cases breaks i with
    | true => rfl
    | false => exact ih (i+1)

theorem mem_scan {n i : ℕ} {b : B} :
    b ∈ (scan breaks leaves n i).2 ↔
      ∃ k < n, (∀ l < k, breaks (i+l) = false) ∧ b ∈ leaves (i+k) := by
  induction n generalizing i with
  | zero => simp [scan]
  | succ n ih =>
    have hnone : ∀ l < 0, breaks (i+l) = false := fun l hl => absurd hl (Nat.not_lt_zero l)
    rw [scan]
    cases hbreaks : breaks i with
    | true =>
      rw [if_pos rfl]
      constructor
      · exact fun hb => ⟨0,Nat.succ_pos n,hnone,hb⟩
      · rintro ⟨k,-,hgo,hb⟩
        cases k with
        | zero => exact hb
        | succ k =>
          have hfirst := hgo 0 (Nat.succ_pos k)
          rw [Nat.add_zero,hbreaks] at hfirst
          exact Bool.noConfusion hfirst
    | false =>
      have hshift : ∀ l, i+1+l = i+(l+1) := fun l => by omega
      simp only [Bool.false_eq_true,if_false,List.mem_append,ih,hshift]
      constructor
      · rintro (hb | ⟨k,hk,hgo,hb⟩)
        · exact ⟨0,Nat.succ_pos n,hnone,hb⟩
        · refine ⟨k+1,Nat.succ_lt_succ hk,fun l hl => ?_,hb⟩
          cases l with
          | zero => exact hbreaks
          | succ l => exact hgo l (Nat.lt_of_succ_lt_succ hl)
      · rintro ⟨k,hk,hgo,hb⟩
        cases k with
        | zero => exact Or.inl hb
        | succ k =>
          exact Or.inr ⟨k,Nat.lt_of_succ_lt_succ hk,fun l hl => hgo (l+1) (Nat.succ_lt_succ hl),hb⟩

end Scan

/-- A loop over a list, each turn of which covers the items that `f` gives for it, covers
the items of all its turns in their order. -/
theorem foldl_covers {A B S : Type} {P : List B → S → Prop} {turn : S → A → S} {f : A → List B} {xs : List A}
    (hturn : ∀ x ∈ xs, ∀ covered s, P covered s → P (covered++f x) (turn s x)) {covered : List B} {s : S}
    (hs : P covered s) : P (covered++xs.flatMap f) (xs.foldl turn s) := by
  induction xs generalizing covered s with
  | nil => simpa using hs
  | cons x xs ih =>
    have hnext := hturn x List.mem_cons_self covered s hs
    rw [List.flatMap_cons,← List.append_assoc]
    exact ih (fun y hy => hturn y (List.mem_cons_of_mem x hy)) hnext

theorem count_congr {p q : ℕ → Prop} [DecidablePred p] [DecidablePred q] {n : ℕ}
    (h : ∀ j < n, (q j ↔ p j)) : Nat.count q n = Nat.count p n := by
  induction n with
  | zero => simp
  | succ n ih => simp [Nat.count_succ,ih (fun j hj => h j (by omega)),h n (by omega)]

theorem count_change {p q : ℕ → Prop} [DecidablePred p] [DecidablePred q] {i n : ℕ} (hi : i < n)
    (h : ∀ j < n, j ≠ i → (q j ↔ p j)) :
    Nat.count q n + (if p i then 1 else 0) = Nat.count p n + (if q i then 1 else 0) := by
  induction n with
  | zero => omega
  | succ n ih =>
    rcases Nat.lt_succ_iff_lt_or_eq.mp hi with hlt | rfl
    · have hq := h n (by omega) (by omega)
      have hh := ih hlt (fun j hj => h j (by omega))
      simp only [Nat.count_succ,hq]
      omega
    · rw [Nat.count_succ,Nat.count_succ,count_congr fun j hj => h j (by omega) (by omega)]
      omega

section Contents
variable {σ α : Type} (view : σ → Option α)

/-- What the first `n` slots hold, in index order. -/
def contents (n : ℕ) (a : ℕ → σ) : List α := (List.range n).filterMap fun i => view (a i)

theorem contents_succ (n : ℕ) (a : ℕ → σ) :
    contents view (n+1) a = contents view n a ++ (view (a n)).toList := by
  rw [contents,List.range_succ,List.filterMap_append]
  cases h : view (a n) <;> simp [contents,h]

theorem contents_congr {n : ℕ} {a b : ℕ → σ} (h : ∀ i < n, view (a i) = view (b i)) :
    contents view n a = contents view n b := by
  apply List.filterMap_congr
  intro i hi
  exact h i (List.mem_range.mp hi)

theorem mem_contents {n : ℕ} {a : ℕ → σ} {m : α} :
    m ∈ contents view n a ↔ ∃ i < n, view (a i) = some m := by
  simp [contents,List.mem_filterMap]

theorem contents_update {i n : ℕ} (hi : i < n) (a : ℕ → σ) :
    ∃ above : List α, (∀ m ∈ above, ∃ j, i < j ∧ j < n ∧ view (a j) = some m) ∧
      ∀ x, contents view n (Function.update a i x) =
        contents view i a ++ (view x).toList ++ above := by
  induction n with
  | zero => omega
  | succ n ih =>
    rcases Nat.lt_succ_iff_lt_or_eq.mp hi with h | rfl
    · obtain ⟨above,hmem,heq⟩ := ih h
      have hne : n ≠ i := by omega
      refine ⟨above ++ (view (a n)).toList,?_,?_⟩
      · intro m hm
        rcases List.mem_append.mp hm with hm | hm
        · obtain ⟨j,hj⟩ := hmem m hm
          exact ⟨j,hj.1,by omega,hj.2.2⟩
        · exact ⟨n,by omega,by omega,Option.mem_toList.mp hm⟩
      · intro x
        rw [contents_succ,heq,Function.update_of_ne hne,List.append_assoc]
    · refine ⟨[],by simp,fun x => ?_⟩
      rw [contents_succ,Function.update_self,List.append_nil]
      congr 1
      apply contents_congr
      intro j hj
      rw [Function.update_of_ne (by omega)]

end Contents

section Writes
variable {C E K : Type} [DecidableEq K]

def lastWrite (num : C → K) (cs : List C) (v : K) : Option C :=
  cs.reverse.find? fun c => num c == v

theorem lastWrite_append (num : C → K) (cs ds : List C) (v : K) :
    lastWrite num (cs++ds) v = (lastWrite num ds v).or (lastWrite num cs v) := by
  rw [lastWrite,List.reverse_append,List.find?_append]
  rfl

theorem lastWrite_concat (num : C → K) (cs : List C) (c : C) (v : K) :
    lastWrite num (cs++[c]) v = if num c = v then some c else lastWrite num cs v := by
  rw [lastWrite,List.reverse_append,List.reverse_singleton,List.singleton_append,List.find?_cons]
  by_cases hv : num c = v
  · rw [beq_iff_eq.mpr hv,if_pos hv]
  · rw [beq_false_of_ne hv,if_neg hv]
    rfl

theorem lastWrite_isSome {num : C → K} {cs : List C} {v : K} :
    (lastWrite num cs v).isSome ↔ v ∈ cs.map num := by
  rw [lastWrite,List.find?_isSome]
  simp

theorem lastWrite_mem {num : C → K} {cs : List C} {v : K} {c : C} (h : lastWrite num cs v = some c) :
    c ∈ cs ∧ num c = v := by
  rw [lastWrite,List.find?_eq_some_iff_append] at h
  obtain ⟨hnum,as,bs,hsplit,-⟩ := h
  have hmem : c ∈ cs.reverse := by
    rw [hsplit]
    simp
  exact ⟨List.mem_reverse.mp hmem,beq_iff_eq.mp hnum⟩

theorem foldl_update (num : C → K) (entry : C → E) (t : K → E) (cs : List C) (v : K) :
    (cs.foldl (fun t c => Function.update t (num c) (entry c)) t) v =
      ((lastWrite num cs v).map entry).getD (t v) := by
  induction cs using List.reverseRecOn with
  | nil => rfl
  | append_singleton cs c ih =>
    rw [List.foldl_append,lastWrite_concat,List.foldl_cons,List.foldl_nil]
    by_cases hv : num c = v
    · rw [if_pos hv,hv,Function.update_self]
      rfl
    · rw [if_neg hv,Function.update_of_ne (Ne.symm hv),ih]

end Writes

end Slots

/-- A directory, and what is stored in the frames its tables may lie in. -/
structure TwoLevel (D T F V : Type) where
  dir : D → Option F
  cell : F → T → Option V

namespace TwoLevel
variable {D T F V : Type}

def lookup (s : TwoLevel D T F V) (i : D × T) : Option V :=
  (s.dir i.1).bind fun f => s.cell f i.2

/-- No frame serves two directory entries. -/
def Separate (s : TwoLevel D T F V) : Prop :=
  ∀ d e f, s.dir d = some f → s.dir e = some f → d = e

variable [DecidableEq D] {s s' : TwoLevel D T F V} {d : D} {f : F}

theorem lookup_install (hd : s.dir d = none) (hdir : s'.dir = Function.update s.dir d (some f))
    (hblank : ∀ t, s'.cell f t = none)
    (hcell : ∀ e g, s.dir e = some g → ∀ t, s'.cell g t = s.cell g t) : s'.lookup = s.lookup := by
  funext ⟨e,t⟩
  by_cases he : e = d
  · subst he
    simp [lookup,hdir,hblank,hd]
  · cases hg : s.dir e with
    | none => simp [lookup,hdir,he,hg]
    | some g => simp [lookup,hdir,he,hg,hcell e g hg]

theorem separate_install (hs : s.Separate) (hdir : s'.dir = Function.update s.dir d (some f))
    (hfresh : ∀ e, s.dir e ≠ some f) : s'.Separate := by
  intro a b g ha hb
  rw [hdir] at ha hb
  by_cases had : a = d <;> by_cases hbd : b = d
  · rw [had,hbd]
  · subst had
    obtain rfl : f = g := by simpa using ha
    exact absurd (by simpa [hbd] using hb) (hfresh b)
  · subst hbd
    obtain rfl : f = g := by simpa using hb
    exact absurd (by simpa [had] using ha) (hfresh a)
  · exact hs a b g (by simpa [had] using ha) (by simpa [hbd] using hb)

theorem lookup_write [DecidableEq T] (hs : s.Separate) (hd : s.dir d = some f) (hdir : s'.dir = s.dir)
    {t : T} {v : Option V} (hnew : s'.cell f t = v)
    (hcell : ∀ e g u, s.dir e = some g → (g,u) ≠ (f,t) → s'.cell g u = s.cell g u) :
    s'.lookup = Function.update s.lookup (d,t) v := by
  funext ⟨e,u⟩
  by_cases hi : (e,u) = (d,t)
  · obtain ⟨rfl,rfl⟩ := Prod.mk.inj hi
    simp [lookup,hdir,hd,hnew]
  · rw [Function.update_of_ne hi]
    cases hg : s.dir e with
    | none => simp [lookup,hdir,hg]
    | some g =>
      have hne : (g,u) ≠ (f,t) := by
        intro h
        obtain ⟨rfl,rfl⟩ := Prod.mk.inj h
        exact hi (by rw [hs e d g hg hd])
      simp [lookup,hdir,hg,hcell e g u hg hne]

end TwoLevel

end ValiantCore
