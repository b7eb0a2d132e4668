import Mathlib.Data.Nat.Digits.Lemmas
import Mathlib.Tactic.Ring

/-! Positional numerals as strings of bytes: the digits `0`…`9`, `a`, `b` and so on, and a
reader for them. What is written from the digits of a number is read back as the number. -/
namespace ValiantCore
namespace Numerals

def digitValue (base : ℕ) (c : UInt8) : Option ℕ :=
  if 48 ≤ c.toNat ∧ c.toNat ≤ 57 ∧ c.toNat-48 < base then some (c.toNat-48)
  else if 97 ≤ c.toNat ∧ c.toNat ≤ 122 ∧ c.toNat-87 < base then some (c.toNat-87)
  else none

def readFrom (base : ℕ) : ℕ → List UInt8 → Option ℕ
  | value, [] => some value
  | value, c::cs => (digitValue base c).bind fun d => readFrom base (value*base+d) cs

/-- One digit or more, the first of them the highest. -/
def readNat (base : ℕ) : List UInt8 → Option ℕ
  | [] => none
  | c::cs => readFrom base 0 (c::cs)

def readInt (base : ℕ) : List UInt8 → Option ℤ
  | [] => none
  | c::cs => if c = 45 then (readNat base cs).map fun n => -(n : ℤ) else (readNat base (c::cs)).map Nat.cast

def digitByte (d : ℕ) : UInt8 := UInt8.ofNat (if 9 < d then d+87 else d+48)

theorem digitByte_toNat {d : ℕ} (h : d < 36) : (digitByte d).toNat = if 9 < d then d+87 else d+48 := by
  unfold digitByte
  rw [UInt8.toNat_ofNat']
  split_ifs
  · omega
  · omega

theorem digitValue_digitByte {base d : ℕ} (hd : d < base) (hbase : base ≤ 36) :
    digitValue base (digitByte d) = some d := by
  unfold digitValue
  rw [digitByte_toNat (by omega)]
  by_cases h : 9 < d
  · rw [if_pos h,if_neg (by omega),if_pos (by omega)]
    simp
  · rw [if_neg h,if_pos (by omega)]
    simp

theorem readFrom_append (base value : ℕ) (xs ys : List UInt8) :
    readFrom base value (xs++ys) = (readFrom base value xs).bind fun v => readFrom base v ys := by
  induction xs generalizing value with
  | nil => rfl
  | cons x xs ih =>
    simp only [List.cons_append,readFrom,Option.bind_assoc]
    congr 1
    funext d
    exact ih _

theorem readFrom_digits {base : ℕ} (hbase : base ≤ 36) (value : ℕ) (ds : List ℕ) (hds : ∀ d ∈ ds, d < base) :
    readFrom base value (ds.map digitByte).reverse = some (value*base^ds.length+Nat.ofDigits base ds) := by
  induction ds with
  | nil => simp [readFrom]
  | cons d ds ih =>
    rw [List.map_cons,List.reverse_cons,readFrom_append,ih fun e he => hds e (List.mem_cons_of_mem d he)]
    simp only [Option.bind_some,readFrom,digitValue_digitByte (hds d List.mem_cons_self) hbase]
    rw [List.length_cons,Nat.ofDigits_cons,pow_succ]
    congr 1
    ring

theorem readNat_append {base v : ℕ} {xs : List UInt8} (hne : xs ≠ []) (h : readFrom base 0 xs = some v) :
    readNat base xs = some v := by
  cases xs with
  | nil => exact absurd rfl hne
  | cons x xs => exact h

section Digits
variable {base n : ℕ}

theorem reverse_digits_ne_nil (hn : n ≠ 0) (f : ℕ → UInt8) : ((Nat.digits base n).map f).reverse ≠ [] := by
  simpa using Nat.digits_ne_nil_iff_ne_zero.mpr hn

theorem readNat_digits (h : 1 < base) (hbase : base ≤ 36) (hn : n ≠ 0) :
    readNat base ((Nat.digits base n).map digitByte).reverse = some n := by
  apply readNat_append (reverse_digits_ne_nil hn digitByte)
  rw [readFrom_digits hbase 0 _ fun d hd => Nat.digits_lt_base h hd,Nat.ofDigits_digits]
  simp

theorem head_digits (base : ℕ) (f : ℕ → UInt8) (hn : n ≠ 0) :
    ∃ rest, ((Nat.digits base n).map f).reverse =
      f ((Nat.digits base n).getLast (Nat.digits_ne_nil_iff_ne_zero.mpr hn))::rest := by
  have hne := Nat.digits_ne_nil_iff_ne_zero (b := base).mpr hn
  refine ⟨((Nat.digits base n).dropLast.map f).reverse,?_⟩
  conv_lhs => rw [← List.dropLast_append_getLast hne]
  simp

theorem readInt_digits (h : 1 < base) (hbase : base ≤ 36) (hn : n ≠ 0) :
    readInt base ((Nat.digits base n).map digitByte).reverse = some (n : ℤ) := by
  have hread := readNat_digits h hbase hn
  obtain ⟨rest,hhead⟩ := head_digits base digitByte hn
  rw [hhead] at hread ⊢
  have hdigit := Nat.digits_lt_base h (List.getLast_mem (Nat.digits_ne_nil_iff_ne_zero.mpr hn))
  rw [readInt,if_neg,hread]
  · rfl
  · intro hminus
    have hval := congrArg UInt8.toNat hminus
    rw [digitByte_toNat (by omega)] at hval
    split_ifs at hval
    · simp at hval
    · simp at hval

theorem readInt_minus (h : 1 < base) (hbase : base ≤ 36) (hn : n ≠ 0) :
    readInt base (45::((Nat.digits base n).map digitByte).reverse) = some (-(n : ℤ)) := by
  rw [readInt,if_pos rfl,readNat_digits h hbase hn]
  rfl

theorem readNat_of_head {c : UInt8} {cs : List UInt8} (h : digitValue base c = none) :
    readNat base (c::cs) = none := by
  rw [readNat,readFrom,h]
  rfl

end Digits

section Fixed
def fixedDigits (base n value : ℕ) : List ℕ := (List.range n).map fun i => value/base^(n-1-i)%base

def readDigits (base : ℕ) (ds : List ℕ) : ℕ := ds.foldl (fun value d => value*base+d) 0

theorem fixedDigits_succ (base n value : ℕ) :
    fixedDigits base (n+1) value = fixedDigits base n (value/base)++[value%base] := by
  rw [fixedDigits,List.range_succ,List.map_append,fixedDigits]
  congr 1
  · refine List.map_congr_left fun i hi => ?_
    have hlt := List.mem_range.mp hi
    have hpow : n+1-1-i = n-1-i+1 := by omega
    rw [hpow,pow_succ',Nat.div_div_eq_div_mul]
  · simp

theorem readDigits_fixedDigits (base n value : ℕ) : readDigits base (fixedDigits base n value) = value%base^n := by
  induction n generalizing value with
  | zero => simp [readDigits,fixedDigits,Nat.mod_one]
  | succ n ih =>
    have hread := ih (value/base)
    rw [readDigits] at hread ⊢
    rw [fixedDigits_succ,List.foldl_append,hread,pow_succ',Nat.mod_mul]
    simp only [List.foldl_cons,List.foldl_nil]
    ring

end Fixed

end Numerals
end ValiantCore
