import ValiantCore.Numerals
import Mathlib.Data.List.GetD

/-! The formatted output of `bin/stdio.h`. A string is the list of its bytes up to the NUL;
an `int` and an `unsigned int` are words of 32 bits, and how wide a `long` is depends on
the target. -/
namespace ValiantCore
namespace Stdio

open Numerals

inductive Target
  | i386 | x86_64 | aarch64
  deriving DecidableEq, Repr

def Target.longBits : Target → ℕ
  | .i386 => 32
  | .x86_64 => 64
  | .aarch64 => 64

/-- `(rem > 9) ? (rem - 10) + 'a' : rem + '0'`, as a `char`. -/
def itoaChar (rem : ℤ) : UInt8 := UInt8.ofInt (if rem > 9 then rem-10+97 else rem+48)

theorem natAbs_tdiv_lt {base : ℕ} (hbase : 1 < base) {num : ℤ} (h : num ≠ 0) :
    (num.tdiv base).natAbs < num.natAbs := by
  rw [Int.natAbs_tdiv,Int.natAbs_natCast]
  exact Nat.div_lt_self (Int.natAbs_pos.mpr h) hbase

/-- The digits of a `long`, the lowest first: `/` and `%` round towards 0. -/
def digitLoop (base : ℕ) (hbase : 1 < base) (num : ℤ) : List UInt8 :=
  if num = 0 then [] else itoaChar (num.tmod base)::digitLoop base hbase (num.tdiv base)
termination_by num.natAbs
decreasing_by exact natAbs_tdiv_lt hbase (by assumption)

/-- The exchanges from the two ends on. -/
def swapLoop (str : List UInt8) (start stop : ℕ) : List UInt8 :=
  if start < stop then
    swapLoop ((str.set start (str.getD stop 0)).set stop (str.getD start 0)) (start+1) (stop-1)
  else str
termination_by stop-start

def finish (str : List UInt8) : List UInt8 := swapLoop (str++[0]) 0 (str.length-1)

/-- What is written to the buffer, the NUL included. There is no `-num` for the lowest
`long`. -/
def valiantItoa (t : Target) (base : ℕ) (hbase : 1 < base) (num : ℤ) : Option (List UInt8) :=
  if num = 0 then some [48,0]
  else if num < 0 ∧ base = 10 then
    if num = -2^(t.longBits-1) then none else some (finish (digitLoop base hbase (-num)++[45]))
  else some (finish (digitLoop base hbase num))

/-- An argument takes a word, or it is the address of a string or NULL. -/
inductive Arg
  | word (w : UInt32)
  | str (s : Option (List UInt8))
  deriving DecidableEq, Repr

def asInt (w : UInt32) : ℤ := if w.toNat < 2^31 then w.toNat else w.toNat-2^32

/-- The `long` that an `unsigned int` becomes for `valiant_itoa`. -/
def asLong (t : Target) (w : UInt32) : ℤ := (w.toNat : ℤ).bmod (2^t.longBits)

def decimalBuffer (t : Target) (w : UInt32) : Option (List UInt8) := valiantItoa t 10 (by decide) (asInt w)
def hexBuffer (t : Target) (w : UInt32) : Option (List UInt8) := valiantItoa t 16 (by decide) (asLong t w)

def upToNul (buf : List UInt8) : List UInt8 := buf.takeWhile (· ≠ 0)

def percent : UInt8 := 37
def conversionC : UInt8 := 99
def conversionD : UInt8 := 100
def conversionS : UInt8 := 115
def conversionX : UInt8 := 120

def nullString : List UInt8 := [40,110,117,108,108,41]

/-- What a conversion prints, and the arguments that it leaves; a letter that is none prints
nothing. -/
def convert (t : Target) (letter : UInt8) (args : List Arg) : Option (List UInt8 × List Arg) :=
  if letter = conversionC then
    match args with
    | .word w::args => some ([w.toUInt8],args)
    | _ => none
  else if letter = conversionS then
    match args with
    | .str s::args => some (s.getD nullString,args)
    | _ => none
  else if letter = conversionD then
    match args with
    | .word w::args => (decimalBuffer t w).map fun buf => (upToNul buf,args)
    | _ => none
  else if letter = conversionX then
    match args with
    | .word w::args => (hexBuffer t w).map fun buf => (upToNul buf,args)
    | _ => none
  else some ([],args)

/-- The bytes in front of what is printed for the rest of the format. -/
def emit (out : List UInt8) (r : List UInt8 × ℕ) : List UInt8 × ℕ := (out++r.1,out.length+r.2)

/-- What is printed, and how many bytes are counted. -/
def printf (t : Target) : List UInt8 → List Arg → Option (List UInt8 × ℕ)
  | [], _ => some ([],0)
  | [c], _ => some ([c],1)
  | c::letter::format, args =>
    if c = percent then
      match convert t letter args with
      | none => none
      | some (out,args) => (printf t format args).map (emit out)
    else (printf t (letter::format) args).map (emit [c])

/-- Wherever the conversion stands in a format, and whatever arguments follow, the string is
what is printed for the word. -/
def Prints (t : Target) (letter : UInt8) (w : UInt32) (out : List UInt8) : Prop :=
  ∀ format args, printf t (percent::letter::format) (.word w::args) = (printf t format args).map (emit out)

/-- The numbers are printed as numerals that are read back, and no buffer is exceeded. -/
structure NumbersRight (t : Target) (d u : UInt32) : Prop where
  decimal : ∃ out, Prints t conversionD d out ∧ readInt 10 out = some (asInt d)
  hex : ∃ out, Prints t conversionX u out ∧ readNat 16 out = some u.toNat
  decimalFits : ∀ buf, decimalBuffer t d = some buf → buf.length ≤ 32
  hexFits : ∀ buf, hexBuffer t u = some buf → buf.length ≤ 32

@[simp] theorem swapLoop_length (str : List UInt8) (start stop : ℕ) :
    (swapLoop str start stop).length = str.length := by
  fun_induction swapLoop str start stop with
  | case1 str start stop h ih => simpa using ih
  | case2 str start stop h => rfl

theorem swapLoop_getElem? (str : List UInt8) (start stop i : ℕ) (hstop : stop < str.length) :
    (swapLoop str start stop)[i]? = if start ≤ i ∧ i ≤ stop then str[start+stop-i]? else str[i]? := by
  fun_induction swapLoop str start stop with
  | case1 str start stop h ih =>
    have hstart : start < str.length := h.trans hstop
    rw [ih (by simp; omega)]
    have hswap : ∀ j, ((str.set start (str.getD stop 0)).set stop (str.getD start 0))[j]? =
        if j = stop then str[start]? else if j = start then str[stop]? else str[j]? := by
      intro j
      rw [List.getElem?_set,List.getElem?_set,List.length_set,List.getD_eq_getElem str 0 hstart,
        List.getD_eq_getElem str 0 hstop,List.getElem?_eq_getElem hstart,List.getElem?_eq_getElem hstop]
      by_cases hlast : stop = j
      · rw [if_pos hlast,if_pos hstop,if_pos hlast.symm]
      · by_cases hfirst : start = j
        · rw [if_neg hlast,if_pos hfirst,if_pos hstart,if_neg (Ne.symm hlast),if_pos hfirst.symm]
        · rw [if_neg hlast,if_neg hfirst,if_neg (Ne.symm hlast),if_neg (Ne.symm hfirst)]
    simp only [hswap]
    by_cases hin : start ≤ i ∧ i ≤ stop
    · rw [if_pos hin]
      split_ifs
      · omega
      · omega
      · congr 1
        omega
      · congr 1
        omega
      · congr 1
        omega
      · omega
    · rw [if_neg hin]
      split_ifs
      all_goals first | rfl | omega
  | case2 str start stop h =>
    split_ifs with hin
    · congr 1
      omega
    · rfl

theorem finish_eq {str : List UInt8} (h : str ≠ []) : finish str = str.reverse++[0] := by
  have hpos := List.length_pos_iff.mpr h
  apply List.ext_getElem?
  intro i
  rw [finish,swapLoop_getElem? _ _ _ _ (by simp)]
  by_cases hin : i < str.length
  · rw [if_pos (by omega),List.getElem?_append_left (by omega),List.getElem?_append_left (by simpa using hin),
      List.getElem?_reverse hin]
    congr 1
    rw [Nat.zero_add]
  · rw [if_neg (by omega),List.getElem?_append_right (by omega),List.getElem?_append_right (by simpa using hin),
      List.length_reverse]

theorem itoaChar_natCast {d : ℕ} (hd : d < 36) : itoaChar d = digitByte d := by
  have hall : ∀ d < 36, itoaChar ((d : ℕ) : ℤ) = digitByte d := by decide
  exact hall d hd

theorem itoaChar_neg {d : ℕ} (h0 : 0 < d) (hd : d < 16) :
    itoaChar (-(d : ℤ)) ≠ 0 ∧ digitValue 16 (itoaChar (-(d : ℤ))) = none := by
  have hall : ∀ d < 16, 0 < d → itoaChar (-((d : ℕ) : ℤ)) ≠ 0 ∧ digitValue 16 (itoaChar (-((d : ℕ) : ℤ))) = none := by
    decide
  exact hall d hd h0

section Digits
variable {base : ℕ}

theorem digitLoop_mul (hbase : 1 < base) {sign : ℤ} (hsign : sign = 1 ∨ sign = -1) (n : ℕ) :
    digitLoop base hbase (sign*n) = (Nat.digits base n).map fun d : ℕ => itoaChar (sign*d) := by
  induction n using Nat.strongRecOn with
  | ind n ih =>
    have hne : sign ≠ 0 := by rcases hsign with h | h <;> simp [h]
    rw [digitLoop]
    rcases Nat.eq_zero_or_pos n with rfl | hn
    · simp
    · have hmod : (sign*n).tmod base = sign*(n%base : ℕ) := by
        rcases hsign with rfl | rfl
        · rw [one_mul,one_mul,Int.ofNat_tmod]
        · rw [neg_one_mul,neg_one_mul,Int.neg_tmod,Int.ofNat_tmod]
      have hdiv : (sign*n).tdiv base = sign*(n/base : ℕ) := by
        rcases hsign with rfl | rfl
        · rw [one_mul,one_mul,Int.ofNat_tdiv]
        · rw [neg_one_mul,neg_one_mul,Int.neg_tdiv,Int.ofNat_tdiv]
      rw [if_neg (mul_ne_zero hne (by exact_mod_cast hn.ne')),hmod,hdiv,ih _ (Nat.div_lt_self hn hbase),
        Nat.digits_def' hbase hn,List.map_cons]

theorem digitLoop_natCast (hbase : 1 < base) (hdigits : base ≤ 36) (n : ℕ) :
    digitLoop base hbase n = (Nat.digits base n).map digitByte := by
  have hloop := digitLoop_mul hbase (Or.inl rfl) n
  rw [one_mul] at hloop
  rw [hloop]
  refine List.map_congr_left fun d hd => ?_
  have hlt := Nat.digits_lt_base hbase hd
  rw [one_mul]
  exact itoaChar_natCast (by omega)

theorem digitLoop_length (hbase : 1 < base) {num : ℤ} {k : ℕ} (h : num.natAbs < base^k) :
    (digitLoop base hbase num).length ≤ k := by
  have hlen := (Nat.digits_length_le_iff hbase num.natAbs).mpr h
  rcases Int.natAbs_eq num with hnum | hnum
  · have hloop := digitLoop_mul hbase (Or.inl rfl) num.natAbs
    rw [one_mul,← hnum] at hloop
    rw [hloop,List.length_map]
    exact hlen
  · have hloop := digitLoop_mul hbase (Or.inr rfl) num.natAbs
    rw [neg_one_mul,← hnum] at hloop
    rw [hloop,List.length_map]
    exact hlen

end Digits

theorem finish_length (str : List UInt8) : (finish str).length = str.length+1 := by simp [finish]

theorem upToNul_finish {str : List UInt8} (hne : str ≠ []) (h : ∀ c ∈ str, c ≠ 0) :
    upToNul (finish str) = str.reverse := by
  rw [upToNul,finish_eq hne,List.takeWhile_append_of_pos]
  · simp
  · intro c hc
    simpa using h c (List.mem_reverse.mp hc)

theorem digitByte_ne_zero {d : ℕ} (h : d < 36) : digitByte d ≠ 0 := by
  intro h0
  have hval := congrArg UInt8.toNat h0
  rw [digitByte_toNat h,UInt8.toNat_zero] at hval
  split_ifs at hval

theorem digits_ne_zero {base n : ℕ} (hbase : 1 < base) (hdigits : base ≤ 36) :
    ∀ c ∈ (Nat.digits base n).map digitByte, c ≠ 0 := by
  intro c hc
  obtain ⟨d,hd,rfl⟩ := List.mem_map.mp hc
  have hlt := Nat.digits_lt_base hbase hd
  exact digitByte_ne_zero (by omega)

theorem map_digits_ne_nil {base n : ℕ} (hn : n ≠ 0) (f : ℕ → UInt8) : (Nat.digits base n).map f ≠ [] := by
  simpa using Nat.digits_ne_nil_iff_ne_zero.mpr hn

theorem upToNul_digitLoop {base n : ℕ} (hbase : 1 < base) (hdigits : base ≤ 36) (hn : n ≠ 0) :
    upToNul (finish (digitLoop base hbase n)) = ((Nat.digits base n).map digitByte).reverse := by
  rw [digitLoop_natCast hbase hdigits,
    upToNul_finish (map_digits_ne_nil hn digitByte) (digits_ne_zero hbase hdigits)]

theorem upToNul_digitLoop_minus (n : ℕ) :
    upToNul (finish (digitLoop 10 (by decide) n++[45])) = 45::((Nat.digits 10 n).map digitByte).reverse := by
  rw [digitLoop_natCast (by decide) (by decide),upToNul_finish (by simp)]
  · simp
  · intro c hc
    rcases List.mem_append.mp hc with hc | hc
    · exact digits_ne_zero (by decide) (by decide) c hc
    · rw [List.mem_singleton.mp hc]
      decide

theorem valiantItoa_decimal {t : Target} {num : ℤ} (h : num ≠ -2^(t.longBits-1)) :
    ∃ buf, valiantItoa t 10 (by decide) num = some buf ∧ readInt 10 (upToNul buf) = some num := by
  rcases lt_trichotomy num 0 with hneg | rfl | hpos
  · obtain ⟨n,hn⟩ := Int.eq_ofNat_of_zero_le (neg_nonneg.mpr hneg.le)
    obtain rfl : num = -(n : ℤ) := by omega
    refine ⟨finish (digitLoop 10 (by decide) n++[45]),?_,?_⟩
    · rw [valiantItoa,if_neg hneg.ne,if_pos ⟨hneg,rfl⟩,if_neg h,neg_neg]
    · rw [upToNul_digitLoop_minus]
      exact readInt_minus (by decide) (by decide) (by omega)
  · exact ⟨[48,0],rfl,by decide⟩
  · obtain ⟨n,rfl⟩ := Int.eq_ofNat_of_zero_le hpos.le
    refine ⟨finish (digitLoop 10 (by decide) n),?_,?_⟩
    · rw [valiantItoa,if_neg hpos.ne',if_neg fun hneg => absurd hneg.1 hpos.not_gt]
    · rw [upToNul_digitLoop (by decide) (by decide) (by omega)]
      exact readInt_digits (by decide) (by decide) (by omega)

theorem valiantItoa_natCast {t : Target} {base : ℕ} (hbase : 1 < base) (hdigits : base ≤ 36) (n : ℕ) :
    ∃ buf, valiantItoa t base hbase n = some buf ∧ readNat base (upToNul buf) = some n := by
  rcases Nat.eq_zero_or_pos n with rfl | hn
  · refine ⟨[48,0],rfl,?_⟩
    change readFrom base 0 [digitByte 0] = some 0
    simp [readFrom,digitValue_digitByte (by omega : 0 < base) hdigits]
  · refine ⟨finish (digitLoop base hbase n),?_,?_⟩
    · rw [valiantItoa,if_neg (by omega),if_neg (by omega)]
    · rw [upToNul_digitLoop hbase hdigits hn.ne',readNat_digits hbase hdigits hn.ne']

theorem valiantItoa_hex_neg {t : Target} {num : ℤ} (hneg : num < 0) :
    ∃ buf, valiantItoa t 16 (by decide) num = some buf ∧ readNat 16 (upToNul buf) = none := by
  obtain ⟨n,hn⟩ := Int.eq_ofNat_of_zero_le (neg_nonneg.mpr hneg.le)
  obtain rfl : num = -1*(n : ℤ) := by omega
  have hn0 : n ≠ 0 := by omega
  refine ⟨finish (digitLoop 16 (by decide) (-1*n)),?_,?_⟩
  · rw [valiantItoa,if_neg hneg.ne,if_neg fun h => absurd h.2 (by decide)]
  · obtain ⟨rest,hhead⟩ := head_digits 16 (fun d : ℕ => itoaChar (-1*d)) hn0
    have hne := Nat.digits_ne_nil_iff_ne_zero (b := 16).mpr hn0
    have hlt := Nat.digits_lt_base (by decide) (List.getLast_mem hne)
    have hpos := Nat.pos_of_ne_zero (Nat.getLast_digit_ne_zero 16 hn0)
    obtain ⟨hchar,hvalue⟩ := itoaChar_neg hpos hlt
    rw [digitLoop_mul (by decide) (Or.inr rfl),finish_eq (map_digits_ne_nil hn0 _),hhead,List.cons_append,upToNul,
      List.takeWhile_cons_of_pos (by simpa using hchar)]
    rw [neg_one_mul]
    exact readNat_of_head hvalue

theorem valiantItoa_length {t : Target} {base : ℕ} {hbase : 1 < base} {num : ℤ} {buf : List UInt8}
    (h : num.natAbs < base^30) (hbuf : valiantItoa t base hbase num = some buf) : buf.length ≤ 32 := by
  unfold valiantItoa at hbuf
  split_ifs at hbuf
  · rw [← Option.some.inj hbuf]
    decide
  · have hlen := digitLoop_length hbase (show (-num).natAbs < base^30 by rwa [Int.natAbs_neg])
    rw [← Option.some.inj hbuf,finish_length,List.length_append,List.length_singleton]
    omega
  · have hlen := digitLoop_length hbase h
    rw [← Option.some.inj hbuf,finish_length]
    omega

theorem prints_decimal {t : Target} {w : UInt32} {buf : List UInt8} (h : decimalBuffer t w = some buf) :
    Prints t conversionD w (upToNul buf) := by
  intro format args
  rw [printf,if_pos rfl]
  simp [convert,conversionD,conversionC,conversionS,h]

theorem prints_hex {t : Target} {w : UInt32} {buf : List UInt8} (h : hexBuffer t w = some buf) :
    Prints t conversionX w (upToNul buf) := by
  intro format args
  rw [printf,if_pos rfl]
  simp [convert,conversionX,conversionD,conversionC,conversionS,h]

theorem Prints.unique {t : Target} {letter : UInt8} {w : UInt32} {out out' : List UInt8}
    (h : Prints t letter w out) (h' : Prints t letter w out') : out = out' := by
  have hboth := (h [] []).symm.trans (h' [] [])
  simp only [printf,Option.map_some,emit,List.append_nil,Option.some.injEq,Prod.mk.injEq] at hboth
  exact hboth.1

theorem not_prints_decimal {t : Target} {w : UInt32} {out : List UInt8} (h : decimalBuffer t w = none) :
    ¬ Prints t conversionD w out := by
  intro hprints
  have hnone := hprints [] []
  simp [printf,convert,conversionD,conversionC,conversionS,h] at hnone

theorem asInt_natAbs_le (w : UInt32) : (asInt w).natAbs ≤ 2^31 := by
  have h := w.toNat_lt
  unfold asInt
  split_ifs
  · omega
  · omega

theorem asLong_i386 (w : UInt32) : asLong .i386 w = asInt w := by
  have h := w.toNat_lt
  change (w.toNat : ℤ).bmod 4294967296 = _
  simp only [Int.bmod,asInt,Nat.cast_ofNat]
  split_ifs
  all_goals omega

theorem asLong_of_wide {t : Target} (h : t.longBits = 64) (w : UInt32) : asLong t w = w.toNat := by
  have hw := w.toNat_lt
  rw [asLong,h,Int.bmod_eq_of_le]
  · norm_num
  · norm_num
    omega

theorem longBits_eq (t : Target) : t = .i386 ∨ t.longBits = 64 := by
  cases t with
  | i386 => exact Or.inl rfl
  | x86_64 => exact Or.inr rfl
  | aarch64 => exact Or.inr rfl

theorem asLong_natAbs_lt (t : Target) (w : UInt32) : (asLong t w).natAbs < 2^32 := by
  have hw := w.toNat_lt
  rcases longBits_eq t with rfl | hwide
  · have hint := asInt_natAbs_le w
    rw [asLong_i386]
    omega
  · rw [asLong_of_wide hwide]
    omega

theorem asInt_eq_lowest_iff (t : Target) (w : UInt32) :
    asInt w = -2^(t.longBits-1) ↔ t.longBits = 32 ∧ w = 0x80000000 := by
  have hw := w.toNat_lt
  have hword : w = 0x80000000 ↔ w.toNat = 2^31 := ⟨fun h => by rw [h]; rfl,fun h => UInt32.toNat_inj.mp h⟩
  rcases longBits_eq t with rfl | hwide
  · rw [hword]
    change asInt w = -2^31 ↔ 32 = 32 ∧ w.toNat = 2^31
    unfold asInt
    split_ifs
    all_goals omega
  · rw [hwide]
    unfold asInt
    split_ifs
    all_goals omega

theorem decimal_right_iff (t : Target) (d : UInt32) :
    (∃ out, Prints t conversionD d out ∧ readInt 10 out = some (asInt d)) ↔
      ¬ (t.longBits = 32 ∧ d = 0x80000000) := by
  rw [← asInt_eq_lowest_iff]
  constructor
  · rintro ⟨out,hprints,-⟩ hlow
    refine not_prints_decimal ?_ hprints
    have hneg : asInt d < 0 := by
      rw [hlow]
      exact neg_lt_zero.mpr (by positivity)
    rw [decimalBuffer,valiantItoa,if_neg hneg.ne,if_pos ⟨hneg,rfl⟩,if_pos hlow]
  · intro hlow
    obtain ⟨buf,hbuf,hread⟩ := valiantItoa_decimal hlow
    exact ⟨upToNul buf,prints_decimal hbuf,hread⟩

theorem hex_right_iff (t : Target) (u : UInt32) :
    (∃ out, Prints t conversionX u out ∧ readNat 16 out = some u.toNat) ↔
      ¬ (t.longBits = 32 ∧ 0x80000000 ≤ u.toNat) := by
  have hright : asLong t u = u.toNat → ∃ out, Prints t conversionX u out ∧ readNat 16 out = some u.toNat := by
    intro hlong
    obtain ⟨buf,hbuf,hread⟩ := valiantItoa_natCast (t := t) (by decide : 1 < 16) (by decide) u.toNat
    exact ⟨upToNul buf,prints_hex (by rw [hexBuffer,hlong,hbuf]),hread⟩
  have hu := u.toNat_lt
  rcases longBits_eq t with rfl | hwide
  · constructor
    · rintro ⟨out,hprints,hread⟩ ⟨-,hhigh⟩
      have hneg : asLong .i386 u < 0 := by
        rw [asLong_i386,asInt,if_neg (by omega)]
        omega
      obtain ⟨buf,hbuf,hnone⟩ := valiantItoa_hex_neg (t := .i386) hneg
      rw [hprints.unique (prints_hex hbuf),hnone] at hread
      cases hread
    · intro hlow
      refine hright ?_
      rw [asLong_i386,asInt,if_pos]
      simp only [Target.longBits,true_and,not_le] at hlow
      omega
  · exact iff_of_true (hright (asLong_of_wide hwide u)) fun h => by omega

/-- On every target a `%d` and a `%x` are right unless a `long` has 32 bits and the number
is the lowest `int`, or an `unsigned int` from 2^31 on. -/
theorem printf_numbers_right_iff (t : Target) (d u : UInt32) :
    NumbersRight t d u ↔ ¬ (t.longBits = 32 ∧ (d = 0x80000000 ∨ 0x80000000 ≤ u.toNat)) := by
  have hfits : (∀ buf, decimalBuffer t d = some buf → buf.length ≤ 32) ∧
      ∀ buf, hexBuffer t u = some buf → buf.length ≤ 32 :=
    ⟨fun buf => valiantItoa_length ((asInt_natAbs_le d).trans_lt (by norm_num)),
      fun buf => valiantItoa_length ((asLong_natAbs_lt t u).trans (by norm_num))⟩
  rw [and_or_left,not_or,← decimal_right_iff,← hex_right_iff]
  exact ⟨fun h => ⟨h.decimal,h.hex⟩,fun h => ⟨h.1,h.2,hfits.1,hfits.2⟩⟩

/-- With a `long` of 32 bits, `%x` prints no numeral for 0x80000000. -/
theorem high_hex_wrong : ¬ NumbersRight .i386 0 0x80000000 :=
  fun h => (hex_right_iff .i386 0x80000000).mp h.hex (by decide)

end Stdio
end ValiantCore
