import ValiantCore.SafeDisk
import Mathlib.Data.Nat.Bitwise
import Mathlib.Data.Set.Function

/-! The checksum of `safe_disk.rs` as a fold. Each of its steps is injective both in the
sum and in the word, so that a word that has been changed shows at the end of any tail. -/
namespace ValiantCore
namespace SafeDisk

section Folds
variable {S A : Type} {f : S → A → S} {I : Set S} (hkeeps : ∀ a, Set.MapsTo (fun s => f s a) I I)
  (hstate : ∀ a, Set.InjOn (fun s => f s a) I)
include hkeeps hstate

theorem foldl_injOn (as : List A) : Set.InjOn (fun s => as.foldl f s) I := by
  induction as with
  | nil => exact Set.injOn_id I
  | cons a as ih => exact ih.comp (hstate a) (hkeeps a)

theorem foldl_set_ne (hletter : ∀ s ∈ I, Function.Injective (f s)) {s : S} (hs : s ∈ I) {as : List A}
    {i : ℕ} {a : A} (hi : i < as.length) (ha : a ≠ as[i]) : (as.set i a).foldl f s ≠ as.foldl f s := by
  induction as generalizing s i with
  | nil => exact absurd hi (Nat.not_lt_zero i)
  | cons b as ih =>
    cases i with
    | zero =>
      intro heq
      have hsame : f s a = f s b := foldl_injOn hkeeps hstate as (hkeeps a hs) (hkeeps b hs) heq
      exact ha (hletter s hs hsame)
    | succ i => exact ih (hkeeps b hs) (Nat.lt_of_succ_lt_succ hi) ha

end Folds

/-- `sum = sum.wrapping_add(word as u32); sum ^= XOR_KEY as u32` -/
def mix (sum : ℕ) (word : UInt16) : ℕ := (sum+word.toNat)%2^32 ^^^ xorKey

def sums : Set ℕ := { sum | sum < 2^32 }

theorem checksum_eq_foldl (data : List UInt16) : checksum data = data.foldl mix 0 := rfl

theorem mix_eq_iff {s t : ℕ} {v w : UInt16} :
    mix s v = mix t w ↔ (s+v.toNat)%2^32 = (t+w.toNat)%2^32 :=
  Nat.xor_left_inj

theorem mix_mapsTo (word : UInt16) : Set.MapsTo (fun sum => mix sum word) sums sums :=
  fun _ _ => Nat.xor_lt_two_pow (Nat.mod_lt _ (by decide)) (by decide)

theorem mix_injOn (word : UInt16) : Set.InjOn (fun sum => mix sum word) sums := by
  intro s hs t ht heq
  have hmod := mix_eq_iff.mp heq
  simp only [sums,Set.mem_ofPred_eq] at hs ht
  omega

theorem mix_injective (sum : ℕ) : Function.Injective (mix sum) := by
  intro v w heq
  have hmod := mix_eq_iff.mp heq
  have hv := v.toNat_lt
  have hw := w.toNat_lt
  exact UInt16.toNat_inj.mp (by omega)

/-- A word that has been replaced by another one changes the checksum. -/
theorem checksum_set_ne {data : List UInt16} {i : ℕ} {word : UInt16} (hi : i < data.length)
    (hword : word ≠ data[i]) : checksum (data.set i word) ≠ checksum data :=
  foldl_set_ne mix_mapsTo mix_injOn (fun sum _ => mix_injective sum) (show 0 < 2^32 from by decide) hi hword

theorem checksum_set_demo :
    checksum ([0xFFFF,0x00A5,3].set 1 0) ≠ checksum [0xFFFF,0x00A5,3] :=
  checksum_set_ne (show 1 < [(0xFFFF : UInt16),0x00A5,3].length from by decide) (by decide)

end SafeDisk
end ValiantCore
