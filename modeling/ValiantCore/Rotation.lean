import Mathlib.Data.Nat.Count
import Mathlib.Data.List.GetD
import Mathlib.Data.List.Sort
import Mathlib.Tactic.Ring
import Mathlib.Tactic.Cases

/-! Going around in a circle: the gap between two of `n` places, the next one of a
sorted list of places, and how often a rotation comes to each of its members. -/
namespace ValiantCore
namespace Rotation

/-- The places passed on the way around from place `c` to place `i`. -/
def gap (n c i : ℕ) : ℕ := (i+n-(c+1)) % n

section Gap
variable {n c i : ℕ}

theorem gap_lt (hi : i < n) : gap n c i < n := Nat.mod_lt _ (Nat.zero_lt_of_lt hi)

theorem gap_of_lt (hci : c < i) (hi : i < n) : gap n c i = i-(c+1) := by
  have hsplit : i+n-(c+1) = i-(c+1)+n := by omega
  rw [gap,hsplit,Nat.add_mod_right,Nat.mod_eq_of_lt (by omega)]

theorem gap_of_le (hic : i ≤ c) (hc : c < n) : gap n c i = i+n-(c+1) := by
  rw [gap,Nat.mod_eq_of_lt (by omega)]

theorem turn_gap (hc : c < n) (hi : i < n) : (c+1+gap n c i) % n = i := by
  rcases lt_or_ge c i with hlt | hge
  · have hsum : c+1+(i-(c+1)) = i := by omega
    rw [gap_of_lt hlt hi,hsum,Nat.mod_eq_of_lt hi]
  · have hsum : c+1+(i+n-(c+1)) = i+n := by omega
    rw [gap_of_le hge hc,hsum,Nat.add_mod_right,Nat.mod_eq_of_lt hi]

theorem gap_turn {k : ℕ} (hc : c < n) (hk : k < n) : gap n c ((c+1+k) % n) = k := by
  rcases lt_or_ge (c+1+k) n with hlt | hge
  · rw [Nat.mod_eq_of_lt hlt,gap_of_lt (by omega) hlt]
    omega
  · have hover : (c+1+k) % n = c+1+k-n := by
      rw [Nat.mod_eq_sub_mod hge,Nat.mod_eq_of_lt (by omega)]
    rw [hover,gap_of_le (by omega) hc]
    omega

end Gap

theorem gap_next_le {n : ℕ} {l : List ℕ} (hsorted : l.Pairwise (· < ·)) (hlt : ∀ x ∈ l, x < n)
    {a b : ℕ} (ha : a < l.length) (hb : b < l.length) (hnext : (a+1) % l.length < l.length) :
    gap n l[a] l[(a+1) % l.length] ≤ gap n l[a] l[b] := by
  have hmono {i j : ℕ} (hi : i < l.length) (hj : j < l.length) (hij : i < j) : l[i] < l[j] :=
    List.pairwise_iff_getElem.mp hsorted i j hi hj hij
  have hbound {i : ℕ} (hi : i < l.length) : l[i] < n := hlt _ (List.getElem_mem hi)
  have hle {i j : ℕ} (hi : i < l.length) (hj : j < l.length) (hij : i ≤ j) : l[i] ≤ l[j] := by
    rcases hij.lt_or_eq with h | rfl
    · exact (hmono hi hj h).le
    · exact le_rfl
  have hgapb : b ≤ a → gap n l[a] l[b] = l[b]+n-(l[a]+1) := fun h => gap_of_le (hle hb ha h) (hbound ha)
  rcases Nat.lt_or_ge (a+1) l.length with hin | hend
  · have hstep : (a+1) % l.length = a+1 := Nat.mod_eq_of_lt hin
    have hgap : gap n l[a] l[(a+1) % l.length] = l[a+1]-(l[a]+1) := by
      simp only [hstep]
      exact gap_of_lt (hmono ha hin (by omega)) (hbound hin)
    rw [hgap]
    rcases Nat.lt_or_ge a b with hab | hba
    · rw [gap_of_lt (hmono ha hb hab) (hbound hb)]
      have := hle hin hb hab
      omega
    · rw [hgapb hba]
      have := hbound hin
      omega
  · -- the last place is followed by the first
    have hstep : (a+1) % l.length = 0 := by
      rw [show a+1 = l.length by omega,Nat.mod_self]
    have hgap : gap n l[a] l[(a+1) % l.length] = l[0]+n-(l[a]+1) := by
      simp only [hstep]
      exact gap_of_le (hle (by omega) ha (Nat.zero_le a)) (hbound ha)
    rw [hgap,hgapb (by omega)]
    have := hle (i := 0) (by omega) hb (Nat.zero_le b)
    omega

theorem count_div (p : ℕ → Prop) [DecidablePred p] {t : ℕ} (ht : 0 < t) (m : ℕ) :
    Nat.count (fun n => p (n/t)) (m*t) = t*Nat.count p m := by
  have hturn (m : ℕ) : ∀ k ≤ t, Nat.count (fun n => p ((m*t+n)/t)) k = if p m then k else 0 := by
    intro k hk
    induction k with
    | zero => simp
    | succ k ih =>
      have hdiv : (m*t+k)/t = m := by
        rw [Nat.mul_comm,Nat.mul_add_div ht,Nat.div_eq_of_lt (by omega),Nat.add_zero]
      rw [Nat.count_succ,ih (by omega),hdiv]
      split_ifs <;> rfl
  induction m with
  | zero => simp
  | succ m ih =>
    rw [Nat.succ_mul,Nat.count_add,ih,hturn m t le_rfl,Nat.count_succ]
    split_ifs <;> ring

/-- In one round from anywhere, each member has its turn once. -/
theorem count_rotation {q j m : ℕ} (hq : q < m) (hj : j < m) :
    Nat.count (fun k => (q+k) % m = j) m = 1 := by
  have hturn {k : ℕ} (hk : k < m) : (q+k) % m = j ↔ k = if q ≤ j then j-q else j+m-q := by
    rcases Nat.lt_or_ge (q+k) m with hlt | hge
    · rw [Nat.mod_eq_of_lt hlt]
      split_ifs <;> omega
    · rw [Nat.mod_eq_sub_mod hge,Nat.mod_eq_of_lt (by omega)]
      split_ifs <;> omega
  rw [Nat.count_eq_card_filter_range,Finset.card_eq_one]
  refine ⟨if q ≤ j then j-q else j+m-q,?_⟩
  ext k
  rw [Finset.mem_filter,Finset.mem_range,Finset.mem_singleton]
  constructor
  · rintro ⟨hk,heq⟩
    exact (hturn hk).mp heq
  · intro heq
    have hk : k < m := by
      rw [heq]
      split_ifs <;> omega
    exact ⟨hk,(hturn hk).mpr heq⟩

/-- The `k`-th successor of `c`. -/
def around (l : List ℕ) (c k : ℕ) : ℕ := l.getD ((l.idxOf c+k) % l.length) 0

section Around
variable {l : List ℕ} {c i : ℕ}

theorem around_eq {k : ℕ} (hk : (l.idxOf c+k) % l.length < l.length) :
    around l c k = l[(l.idxOf c+k) % l.length] :=
  List.getD_eq_getElem _ _ hk

theorem position_lt (hc : c ∈ l) (k : ℕ) : (l.idxOf c+k) % l.length < l.length :=
  Nat.mod_lt _ (List.length_pos_of_mem hc)

theorem around_mem (hc : c ∈ l) (k : ℕ) : around l c k ∈ l := by
  rw [around_eq (position_lt hc k)]
  exact List.getElem_mem _

theorem around_zero (hc : c ∈ l) : around l c 0 = c := by
  have hlt : l.idxOf c < l.length := List.idxOf_lt_length_of_mem hc
  rw [around_eq (position_lt hc 0)]
  simp only [Nat.add_zero,Nat.mod_eq_of_lt hlt,List.getElem_idxOf]

theorem gap_around_le {n : ℕ} (hsorted : l.Pairwise (· < ·)) (hlt : ∀ x ∈ l, x < n) (hc : c ∈ l)
    (hi : i ∈ l) (k : ℕ) :
    gap n (around l c k) (around l c (k+1)) ≤ gap n (around l c k) i := by
  obtain ⟨b,hb,rfl⟩ := List.mem_iff_getElem.mp hi
  have hstep : ((l.idxOf c+k) % l.length+1) % l.length = (l.idxOf c+(k+1)) % l.length := by
    rw [Nat.mod_add_mod,Nat.add_assoc]
  have hle := gap_next_le hsorted hlt (position_lt hc k) hb (hstep ▸ position_lt hc (k+1))
  simp only [hstep] at hle
  rw [around_eq (position_lt hc k),around_eq (position_lt hc (k+1))]
  exact hle

theorem around_succ_ne {n : ℕ} (hsorted : l.Pairwise (· < ·)) (hlt : ∀ x ∈ l, x < n) (hc : c ∈ l)
    (hi : i ∈ l) {k : ℕ} (hne : i ≠ around l c k) : around l c (k+1) ≠ around l c k := by
  intro hsame
  have hcur : around l c k < n := hlt _ (around_mem hc k)
  have hle := gap_around_le hsorted hlt hc hi k
  rw [hsame,gap_of_le le_rfl hcur] at hle
  -- only the place itself is that far away
  have hgap : gap n (around l c k) i = gap n (around l c k) (around l c k) := by
    have hfar : gap n (around l c k) i < n := gap_lt (hlt i hi)
    rw [gap_of_le le_rfl hcur]
    omega
  apply hne
  rw [← turn_gap hcur (hlt i hi),hgap,turn_gap hcur hcur]

theorem around_eq_iff (hnodup : l.Nodup) (hc : c ∈ l) (hi : i ∈ l) (k : ℕ) :
    around l c k = i ↔ (l.idxOf c+k) % l.length = l.idxOf i := by
  have hlt : l.idxOf i < l.length := List.idxOf_lt_length_of_mem hi
  have hself : l[l.idxOf i] = i := List.getElem_idxOf hlt
  rw [around_eq (position_lt hc k)]
  constructor
  · intro heq
    exact hnodup.getElem_inj_iff.mp (heq.trans hself.symm)
  · intro heq
    simp only [heq]
    exact hself

theorem count_around (hnodup : l.Nodup) (hc : c ∈ l) (hi : i ∈ l) {t : ℕ} (ht : 0 < t) (r : ℕ) :
    Nat.count (fun n => around l c ((r*(l.length*t)+n)/t) = i) (l.length*t) = t := by
  have hround (n : ℕ) : around l c ((r*(l.length*t)+n)/t) = i ↔
      (l.idxOf c+n/t) % l.length = l.idxOf i := by
    have hdiv : (r*(l.length*t)+n)/t = n/t+l.length*r := by
      rw [show r*(l.length*t)+n = n+t*(l.length*r) by ring,Nat.add_mul_div_left _ _ ht]
    rw [around_eq_iff hnodup hc hi,hdiv,← Nat.add_assoc,Nat.add_mul_mod_self_left]
  simp only [hround]
  rw [count_div (fun k => (l.idxOf c+k) % l.length = l.idxOf i) ht,
    count_rotation (List.idxOf_lt_length_of_mem hc) (List.idxOf_lt_length_of_mem hi),Nat.mul_one]

end Around

end Rotation
end ValiantCore
