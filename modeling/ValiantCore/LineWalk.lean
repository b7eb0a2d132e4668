import Mathlib.Data.Int.GCD
import Mathlib.Algebra.Order.Ring.Int
import Mathlib.Tactic.Linarith
import Mathlib.Tactic.LinearCombination
import Mathlib.Tactic.Ring

/-! A straight line on a grid, by the step of its longer side: after `k` of `M` steps the
shorter side `m` has gone `k*m/M`, rounded to the nearest number, halves upwards. The error
term says where the next step of the shorter side is due; its extremes are known exactly. -/
namespace ValiantCore
namespace LineWalk

def minor (M m k : ℤ) : ℤ := (2*k*m+M)/(2*M)

def err (M m k : ℤ) : ℤ := (minor M m k+1)*M-(k+1)*m

def maxErr (M m : ℤ) : ℤ := (Int.gcd M m : ℤ)*(3*(M/(Int.gcd M m : ℤ))/2)-m

@[simp] theorem minor_flat (M k : ℤ) (hM : 0 ≤ M) : minor M 0 k = 0 := by
  rcases hM.eq_or_lt with rfl | hM
  · simp [minor]
  · rw [minor,mul_zero,zero_add]
    exact Int.ediv_eq_zero_of_lt hM.le (by omega)

theorem maxErr_flat {M : ℤ} (hM : 0 ≤ M) : maxErr M 0 = M := by
  have hgcd : (Int.gcd M 0 : ℤ) = M := by rw [Int.gcd_zero_right,Int.natAbs_of_nonneg hM]
  rw [maxErr,hgcd,sub_zero]
  rcases hM.eq_or_lt with rfl | hpos
  · rfl
  · rw [Int.ediv_self hpos.ne']
    omega

section Walk
variable {M m : ℤ} (hM : 0 < M)
include hM

theorem minor_bounds (m k : ℤ) : 2*M*minor M m k ≤ 2*k*m+M ∧ 2*k*m+M < 2*M*(minor M m k+1) := by
  have hpos : 0 < 2*M := by omega
  have hmod := Int.emod_nonneg (2*k*m+M) hpos.ne'
  have hlt := Int.emod_lt_of_pos (2*k*m+M) hpos
  have hdiv := Int.mul_ediv_add_emod (2*k*m+M) (2*M)
  unfold minor
  constructor
  · linarith
  · linarith

theorem minor_unique {k q : ℤ} (hlow : 2*M*q ≤ 2*k*m+M) (hhigh : 2*k*m+M < 2*M*(q+1)) : minor M m k = q := by
  obtain ⟨hmin,hmax⟩ := minor_bounds hM m k
  have h1 : minor M m k < q+1 := lt_of_mul_lt_mul_left (hmin.trans_lt hhigh) (by omega)
  have h2 : q < minor M m k+1 := lt_of_mul_lt_mul_left (hlow.trans_lt hmax) (by omega)
  omega

theorem minor_zero (m : ℤ) : minor M m 0 = 0 :=
  minor_unique hM (by linarith) (by linarith)

theorem minor_last (m : ℤ) : minor M m M = m :=
  minor_unique hM (by linarith) (by linarith)

theorem err_zero (m : ℤ) : err M m 0 = M-m := by
  rw [err,minor_zero hM]
  ring

theorem err_bounds (m k : ℤ) : M < 2*err M m k+2*m ∧ 2*err M m k+2*m ≤ 3*M := by
  obtain ⟨hmin,hmax⟩ := minor_bounds hM m k
  unfold err
  constructor
  · linarith
  · linarith

theorem minor_mem (hm : 0 ≤ m) {k : ℤ} (h0 : 0 ≤ k) (hk : k ≤ M) : 0 ≤ minor M m k ∧ minor M m k ≤ m := by
  obtain ⟨hmin,hmax⟩ := minor_bounds hM m k
  constructor
  · have hpos : 0 < 2*M*(minor M m k+1) := by nlinarith
    have hnext := (mul_pos_iff_of_pos_left (by omega : 0 < 2*M)).mp hpos
    omega
  · have hlt : 2*M*minor M m k < 2*M*(m+1) := by nlinarith
    have hnext := lt_of_mul_lt_mul_left hlt (by omega)
    omega

section Slope
variable (hm : 0 ≤ m) (hmM : m ≤ M)
include hm hmM

theorem minor_succ (k : ℤ) : minor M m (k+1) = minor M m k+(if 2*err M m k ≤ M then 1 else 0) := by
  obtain ⟨hmin,hmax⟩ := minor_bounds hM m k
  apply minor_unique hM
  · split_ifs with hstep
    · unfold err at hstep
      linarith
    · linarith
  · split_ifs with hstep
    · linarith
    · unfold err at hstep
      linarith

theorem err_succ (k : ℤ) : err M m (k+1) = err M m k-m+(if 2*err M m k ≤ M then M else 0) := by
  rw [err,minor_succ hM hm hmM]
  split_ifs
  · unfold err
    ring
  · unfold err
    ring

theorem minor_mono {k : ℤ} : minor M m k ≤ minor M m (k+1) ∧ minor M m (k+1) ≤ minor M m k+1 := by
  rw [minor_succ hM hm hmM]
  split_ifs
  · omega
  · omega

end Slope

/-! The extremes of the error term: it is a multiple of the greatest common divisor of the two
sides, less the shorter one, and it runs through all of these in an interval. -/

theorem exists_coprime_sides (m : ℤ) : ∃ g d e : ℤ, (Int.gcd M m : ℤ) = g ∧ 0 < g ∧ M = g*d ∧ m = g*e ∧ M/g = d := by
  have hg : 0 < (Int.gcd M m : ℤ) := by exact_mod_cast Int.gcd_pos_of_ne_zero_left m hM.ne'
  obtain ⟨d,hd⟩ := Int.gcd_dvd_left M m
  obtain ⟨e,he⟩ := Int.gcd_dvd_right M m
  exact ⟨_,d,e,rfl,hg,hd,he,Int.ediv_eq_of_eq_mul_right hg.ne' hd⟩

theorem err_le (m k : ℤ) : err M m k ≤ maxErr M m := by
  obtain ⟨g,d,e,hgcd,hg,hd,he,hquot⟩ := exists_coprime_sides hM m
  obtain ⟨-,hmax⟩ := err_bounds hM m k
  have hform : err M m k+m = g*((minor M m k+1)*d-k*e) := by
    unfold err
    rw [← sub_eq_zero]
    linear_combination (minor M m k+1)*hd-k*he
  have htimes : 2*((minor M m k+1)*d-k*e) ≤ 3*d := by
    have hscaled : g*(2*((minor M m k+1)*d-k*e)) ≤ g*(3*d) := by linarith
    exact le_of_mul_le_mul_left hscaled hg
  have hround : (minor M m k+1)*d-k*e ≤ 3*d/2 := by omega
  rw [maxErr,hgcd,hquot]
  have hscaled := mul_le_mul_of_nonneg_left hround hg.le
  linarith

theorem exists_maxErr (m : ℤ) : ∃ k, 0 ≤ k ∧ k < M ∧ err M m k = maxErr M m := by
  obtain ⟨g,d,e,hgcd,hg,hd,he,hquot⟩ := exists_coprime_sides hM m
  have hbezout := Int.gcd_eq_gcd_ab M m
  rw [hgcd] at hbezout
  -- the step that leaves the residue of the largest multiple
  let k := (-(Int.gcdB M m)*(3*d/2))%M
  refine ⟨k,Int.emod_nonneg _ hM.ne',Int.emod_lt_of_pos _ hM,?_⟩
  obtain ⟨hmin,hmax⟩ := err_bounds hM m k
  have hk : k = -(Int.gcdB M m)*(3*d/2)-M*(-(Int.gcdB M m)*(3*d/2)/M) := by
    have hdiv := Int.mul_ediv_add_emod (-(Int.gcdB M m)*(3*d/2)) M
    linarith
  have hdpos : 0 < d := by
    by_contra hneg
    have hside : g*d ≤ 0 := mul_nonpos_of_nonneg_of_nonpos hg.le (by omega)
    omega
  have htop : M < 2*(g*(3*d/2)) ∧ 2*(g*(3*d/2)) ≤ 3*M := by
    have h1 : 2*(3*d/2) ≤ 3*d := by omega
    have h2 : 3*d-1 ≤ 2*(3*d/2) := by omega
    have h3 := mul_le_mul_of_nonneg_left h1 hg.le
    have h4 := mul_le_mul_of_nonneg_left h2 hg.le
    have h5 := mul_le_mul_of_nonneg_left (by omega : 1 ≤ d) hg.le
    constructor
    · linarith
    · linarith
  have hsame : M ∣ err M m k+m-g*(3*d/2) := by
    refine ⟨minor M m k+1+m*(-(Int.gcdB M m)*(3*d/2)/M)-Int.gcdA M m*(3*d/2),?_⟩
    unfold err
    have hkm : k*m = (-(Int.gcdB M m)*(3*d/2)-M*(-(Int.gcdB M m)*(3*d/2)/M))*m := by rw [← hk]
    linear_combination (-1)*hkm-(3*d/2)*hbezout
  have hzero := Int.eq_zero_of_abs_lt_dvd hsame (abs_lt.mpr ⟨by linarith,by linarith⟩)
  rw [maxErr,hgcd,hquot]
  linarith

end Walk

def sides (D E k : ℤ) : ℤ × ℤ := if E ≤ D then (k,minor D E k) else (minor E D k,k)

theorem sides_flat {D E : ℤ} (h : E ≤ D) (k : ℤ) : sides D E k = (k,minor D E k) := if_pos h

theorem sides_steep {D E : ℤ} (h : D < E) (k : ℤ) : sides D E k = (minor E D k,k) := if_neg (not_le.mpr h)

section Sides
variable {D E : ℤ} (hD : 0 ≤ D) (hE : 0 ≤ E)
include hD hE

theorem sides_zero : sides D E 0 = (0,0) := by
  rcases lt_or_ge D E with hlt | hle
  · rw [sides_steep hlt,minor_zero (by omega)]
  · rw [sides_flat hle]
    rcases hD.eq_or_lt with rfl | hpos
    · obtain rfl : E = 0 := le_antisymm hle hE
      rw [minor_flat 0 0 le_rfl]
    · rw [minor_zero hpos]

theorem err_start : (if E ≤ D then err D E 0 else -err E D 0) = D-E := by
  split_ifs with hle
  · rcases hD.eq_or_lt with rfl | hpos
    · obtain rfl : E = 0 := le_antisymm hle hE
      simp [err]
    · exact err_zero hpos E
  · rw [err_zero (by omega : 0 < E) D,neg_sub]

theorem sides_last : sides D E (max D E) = (D,E) := by
  rcases lt_or_ge D E with hlt | hle
  · rw [max_eq_right hlt.le,sides_steep hlt,minor_last (by omega)]
  · rw [max_eq_left hle,sides_flat hle]
    rcases hD.eq_or_lt with rfl | hpos
    · obtain rfl : E = 0 := le_antisymm hle hE
      rw [minor_flat 0 0 le_rfl]
    · rw [minor_last hpos]

theorem sides_mem {k : ℤ} (h0 : 0 ≤ k) (hk : k ≤ max D E) :
    (0 ≤ (sides D E k).1 ∧ (sides D E k).1 ≤ D) ∧ 0 ≤ (sides D E k).2 ∧ (sides D E k).2 ≤ E := by
  rcases lt_or_ge D E with hlt | hle
  · rw [max_eq_right hlt.le] at hk
    rw [sides_steep hlt]
    exact ⟨minor_mem (by omega) hD h0 hk,h0,hk⟩
  · rw [max_eq_left hle] at hk
    rw [sides_flat hle]
    refine ⟨⟨h0,hk⟩,?_⟩
    rcases hD.eq_or_lt with rfl | hpos
    · obtain rfl : E = 0 := le_antisymm hle hE
      rw [minor_flat 0 k le_rfl]
      exact ⟨le_rfl,le_rfl⟩
    · exact minor_mem hpos hE h0 hk

theorem sides_succ {k : ℤ} (h0 : 0 ≤ k) (hk : k < max D E) :
    ((sides D E k).1 ≤ (sides D E (k+1)).1 ∧ (sides D E (k+1)).1 ≤ (sides D E k).1+1) ∧
      ((sides D E k).2 ≤ (sides D E (k+1)).2 ∧ (sides D E (k+1)).2 ≤ (sides D E k).2+1) ∧
      ((sides D E (k+1)).1 = (sides D E k).1+1 ∨ (sides D E (k+1)).2 = (sides D E k).2+1) := by
  rcases lt_or_ge D E with hlt | hle
  · rw [sides_steep hlt,sides_steep hlt]
    exact ⟨minor_mono (by omega) hD hlt.le,⟨by omega,le_rfl⟩,Or.inr rfl⟩
  · rw [max_eq_left hle] at hk
    rw [sides_flat hle,sides_flat hle]
    exact ⟨⟨by omega,le_rfl⟩,minor_mono (by omega) hE hle,Or.inl rfl⟩

end Sides

end LineWalk
end ValiantCore
