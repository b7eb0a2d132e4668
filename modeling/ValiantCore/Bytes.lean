import Mathlib.Algebra.Order.Ring.Nat
import Mathlib.Data.Int.Basic
import Mathlib.Data.List.Basic
import Mathlib.Tactic.Cases
import Mathlib.Tactic.NormNum
import Mathlib.Tactic.Ring

/-! Machine words and how they are stored. A `uint32_t` is a natural number below `2^32` and a
`u64` one below `2^64`; only the operations that can leave the range name the wrap. Numbers
are little-endian, and a byte image is read through a function from addresses to bytes, be
it a memory or a sector; a layout is a concatenation, and a field of it is found at the sum
of the widths before it. Last, data stored in chunks of one length is read in pieces of any
length. -/
namespace ValiantCore

/-- The value an integer has after conversion to `uint32_t`. -/
def u32 (z : ℤ) : ℕ := (z % 4294967296).toNat

def u64 (z : ℤ) : ℕ := (z % 18446744073709551616).toNat

def i64 (n : ℕ) : ℤ := (n : ℤ).bmod 18446744073709551616

theorem u32_succ {n : ℕ} (h : n+1 < 4294967296) : u32 (n+1) = n+1 := by
  unfold u32
  omega

theorem u32_pred {n : ℕ} (h0 : 0 < n) (h : n < 4294967296) : u32 (n-1) = n-1 := by
  unfold u32
  omega

namespace Bytes

/-- The `w` low bytes of `n`, least significant first. -/
def leBytes : ℕ → ℕ → List UInt8
  | 0, _ => []
  | w+1, n => UInt8.ofNat n :: leBytes w (n/256)

def leNat : List UInt8 → ℕ
  | [] => 0
  | b::bs => b.toNat+256*leNat bs

@[simp] theorem leBytes_length (w n : ℕ) : (leBytes w n).length = w := by
  induction w generalizing n with
  | zero => rfl
  | succ w ih => simp [leBytes,ih]

theorem leNat_lt (bs : List UInt8) : leNat bs < 256^bs.length := by
  induction bs with
  | nil => simp [leNat]
  | cons b bs ih =>
    have hb := b.toNat_lt
    rw [leNat,List.length_cons,pow_succ]
    omega

theorem leNat_append (xs ys : List UInt8) : leNat (xs++ys) = leNat xs+256^xs.length*leNat ys := by
  induction xs with
  | nil => simp [leNat]
  | cons x xs ih =>
    rw [List.cons_append,leNat,leNat,ih,List.length_cons,pow_succ]
    ring

theorem leNat_leBytes (w n : ℕ) : leNat (leBytes w n) = n%256^w := by
  induction w generalizing n with
  | zero => simp [leBytes,leNat,Nat.mod_one]
  | succ w ih =>
    rw [leBytes,leNat,ih,pow_succ,Nat.mul_comm (256^w),Nat.mod_mul]
    simp

theorem leNat_injective {xs ys : List UInt8} (hlen : xs.length = ys.length) (h : leNat xs = leNat ys) :
    xs = ys := by
  induction xs generalizing ys with
  | nil => exact (List.length_eq_zero_iff.mp hlen.symm).symm
  | cons x xs ih =>
    cases ys with
    | nil => simp at hlen
    | cons y ys =>
      have hx := x.toNat_lt
      have hy := y.toNat_lt
      simp only [leNat] at h
      have hlow : x.toNat = y.toNat := by omega
      rw [UInt8.toNat_inj.mp hlow,ih (by simpa using hlen) (by omega)]

theorem leBytes_add (v w n : ℕ) : leBytes (v+w) n = leBytes v n++leBytes w (n/256^v) := by
  induction v generalizing n with
  | zero => simp [leBytes]
  | succ v ih =>
    rw [Nat.succ_add,leBytes,leBytes,ih,List.cons_append,Nat.div_div_eq_div_mul,pow_succ,Nat.mul_comm 256]

def bytesAt (byte : ℕ → UInt8) : ℕ → ℕ → List UInt8
  | _, 0 => []
  | off, n+1 => byte off :: bytesAt byte (off+1) n

section Image
variable {byte : ℕ → UInt8}

@[simp] theorem bytesAt_length (byte : ℕ → UInt8) (off n : ℕ) : (bytesAt byte off n).length = n := by
  induction n generalizing off with
  | zero => rfl
  | succ n ih => simp [bytesAt,ih]

theorem bytesAt_add (byte : ℕ → UInt8) (off m n : ℕ) :
    bytesAt byte off (m+n) = bytesAt byte off m++bytesAt byte (off+m) n := by
  induction m generalizing off with
  | zero => simp [bytesAt]
  | succ m ih => rw [Nat.succ_add,bytesAt,bytesAt,ih,List.cons_append,Nat.add_assoc,Nat.add_comm 1 m]

theorem bytesAt_eq_map (byte : ℕ → UInt8) (off n : ℕ) :
    bytesAt byte off n = (List.range n).map fun k => byte (off+k) := by
  induction n with
  | zero => rfl
  | succ n ih => rw [bytesAt_add,ih,List.range_succ,List.map_append]; rfl

theorem take_drop_bytesAt (byte : ℕ → UInt8) (off : ℕ) {n o t : ℕ} (h : o+t ≤ n) :
    ((bytesAt byte off n).drop o).take t = bytesAt byte (off+o) t := by
  obtain ⟨r,rfl⟩ := Nat.exists_eq_add_of_le h
  rw [Nat.add_assoc,bytesAt_add,List.drop_left' (bytesAt_length _ _ _),bytesAt_add,
    List.take_left' (bytesAt_length _ _ _)]

/-- The image lies at `off`. -/
def Holds (byte : ℕ → UInt8) (off : ℕ) (image : List UInt8) : Prop :=
  bytesAt byte off image.length = image

theorem holds_append {off : ℕ} {xs ys : List UInt8} :
    Holds byte off (xs++ys) ↔ Holds byte off xs ∧ Holds byte (off+xs.length) ys := by
  rw [Holds,List.length_append,bytesAt_add]
  constructor
  · exact fun h => List.append_inj h (by simp)
  · rintro ⟨hx,hy⟩
    rw [Holds] at hx hy
    rw [hx,hy]

def field (byte : ℕ → UInt8) (off w : ℕ) : ℕ := leNat (bytesAt byte off w)

theorem field_lt (byte : ℕ → UInt8) (off w : ℕ) : field byte off w < 256^w := by
  have hlt := leNat_lt (bytesAt byte off w)
  rwa [bytesAt_length] at hlt

theorem field_add (byte : ℕ → UInt8) (off v w : ℕ) :
    field byte off (v+w) = field byte off v+256^v*field byte (off+v) w := by
  rw [field,bytesAt_add,leNat_append,bytesAt_length]
  rfl

theorem field_div_mod (byte : ℕ → UInt8) (off : ℕ) {o t w : ℕ} (h : o+t ≤ w) :
    field byte off w/256^o%256^t = field byte (off+o) t := by
  obtain ⟨r,rfl⟩ := Nat.exists_eq_add_of_le h
  have hlow := field_lt byte off o
  have hpos : 0 < 256^o := Nat.pow_pos (by decide)
  rw [Nat.add_assoc,field_add,Nat.add_mul_div_left _ _ hpos,Nat.div_eq_of_lt hlow,Nat.zero_add,
    field_add,Nat.add_mul_mod_self_left,Nat.mod_eq_of_lt (field_lt byte (off+o) t)]

theorem field_eq_iff {byte byte' : ℕ → UInt8} {off w : ℕ} :
    field byte off w = field byte' off w ↔ ∀ k < w, byte (off+k) = byte' (off+k) := by
  simp only [Bytes.field]
  constructor
  · intro h k hk
    have hbytes := leNat_injective (by simp) h
    rw [bytesAt_eq_map,bytesAt_eq_map] at hbytes
    exact List.map_inj_left.mp hbytes k (List.mem_range.mpr hk)
  · intro h
    rw [bytesAt_eq_map,bytesAt_eq_map]
    congr 1
    exact List.map_congr_left fun k hk => h k (List.mem_range.mp hk)

theorem field_eq_iff_between {byte byte' : ℕ → UInt8} {off w : ℕ} :
    field byte off w = field byte' off w ↔ ∀ a, off ≤ a → a < off+w → byte a = byte' a := by
  rw [field_eq_iff]
  constructor
  · intro h a hle hlt
    obtain ⟨k,rfl⟩ := Nat.exists_eq_add_of_le hle
    exact h k (by omega)
  · exact fun h k hk => h _ (by omega) (by omega)

theorem Holds.field {off w n : ℕ} (h : Holds byte off (leBytes w n)) : field byte off w = n%256^w := by
  rw [Holds,leBytes_length] at h
  rw [Bytes.field,h,leNat_leBytes]

theorem Holds.bytes {off n : ℕ} {image : List UInt8} (h : Holds byte off image)
    (hn : image.length = n) : bytesAt byte off n = image := hn ▸ h

theorem holds_getD (image : List UInt8) : Holds (fun i => image.getD i 0) 0 image := by
  have hgen : ∀ (xs ys : List UInt8), Holds (fun i => (xs++ys).getD i 0) xs.length ys := by
    intro xs ys
    induction ys generalizing xs with
    | nil => rfl
    | cons y ys ih =>
      have htail := ih (xs++[y])
      simp only [Holds,List.append_assoc,List.singleton_append,List.length_append,
        List.length_singleton,List.getD_eq_getElem?_getD] at htail
      simp [Holds,bytesAt,htail]
  exact hgen [] image

theorem bytesAt_congr {byte byte' : ℕ → UInt8} {off off' n : ℕ}
    (h : ∀ k < n, byte (off+k) = byte' (off'+k)) : bytesAt byte off n = bytesAt byte' off' n := by
  rw [bytesAt_eq_map,bytesAt_eq_map]
  exact List.map_congr_left fun k hk => h k (List.mem_range.mp hk)

/-- An array of records of `n` bytes each. -/
def records (n : ℕ) (f : ℕ → List UInt8) : ℕ → UInt8 := fun a => (f (a/n)).getD (a%n) 0

theorem holds_records {n : ℕ} {f : ℕ → List UInt8} {i : ℕ} (hi : (f i).length = n) :
    Holds (records n f) (n*i) (f i) := by
  have hself := holds_getD (f i)
  rw [Holds,hi] at hself ⊢
  refine (bytesAt_congr ?_).trans hself
  intro k hk
  have hdiv : (n*i+k)/n = i := by
    rw [Nat.mul_add_div (by omega),Nat.div_eq_of_lt hk,Nat.add_zero]
  have hmod : (n*i+k)%n = k := by
    rw [Nat.mul_add_mod,Nat.mod_eq_of_lt hk]
  rw [records,hdiv,hmod,Nat.zero_add]

end Image

end Bytes

namespace Chunks
variable {A B : Type}

theorem length_flatMap {f : A → List B} {m : ℕ} (hf : ∀ a, (f a).length = m) (l : List A) :
    (l.flatMap f).length = l.length*m := by
  induction l with
  | nil => simp
  | cons a l ih => rw [List.flatMap_cons,List.length_append,ih,hf,List.length_cons]; ring

theorem drop_flatMap {f : A → List B} {m : ℕ} (hf : ∀ a, (f a).length = m) (l : List A) (k : ℕ) :
    (l.flatMap f).drop (k*m) = (l.drop k).flatMap f := by
  induction k generalizing l with
  | zero => simp
  | succ k ih =>
    cases l with
    | nil => simp
    | cons a l =>
      have hsum : (k+1)*m = (f a).length+k*m := by rw [hf]; ring
      rw [List.flatMap_cons,hsum,List.drop_length_add_append,ih,List.drop_succ_cons]

theorem take_drop_flatMap {f : A → List B} {m : ℕ} (hf : ∀ a, (f a).length = m) {l : List A} {k : ℕ}
    {a : A} (hk : l[k]? = some a) {o t : ℕ} (ht : o+t ≤ m) :
    ((l.flatMap f).drop (k*m+o)).take t = ((f a).drop o).take t := by
  obtain ⟨hlt,hget⟩ := List.getElem?_eq_some_iff.mp hk
  rw [← List.drop_drop,drop_flatMap hf,List.drop_eq_getElem_cons hlt,hget,List.flatMap_cons,
    List.drop_append_of_le_length (by rw [hf]; omega),
    List.take_append_of_le_length (by rw [List.length_drop,hf]; omega)]

theorem flatMap_range_succ (f : ℕ → List B) (n i : ℕ) :
    ((List.range (n+1)).flatMap fun j => f (i+j)) = f i++(List.range n).flatMap fun j => f (i+1+j) := by
  rw [List.range_succ_eq_map,List.flatMap_cons,List.flatMap_map,Nat.add_zero]
  congr 1
  apply List.flatMap_congr
  intro j _
  rw [Nat.succ_eq_add_one,Nat.add_comm j 1,Nat.add_assoc]

/-- The successive pieces of `data` that reads of the given lengths return. -/
def pieces : List B → List ℕ → List (List B)
  | _, [] => []
  | data, len::lens => data.take len :: pieces (data.drop len) lens

theorem pieces_flatten (data : List B) (lens : List ℕ) :
    (pieces data lens).flatten = data.take lens.sum := by
  induction lens generalizing data with
  | nil => simp [pieces]
  | cons len lens ih => rw [pieces,List.flatten_cons,ih,List.sum_cons,List.take_add]

end Chunks

end ValiantCore
