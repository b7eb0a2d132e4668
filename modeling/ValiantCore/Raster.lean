import ValiantCore.Patches
import ValiantCore.Slots

/-! Pictures in a memory: rows of pixels of four bytes, which the pitch keeps apart. What is
drawn is a sequence of coloured pixels; those outside the picture are dropped. The picture
that a sequence leaves is known from it, and all that is not a pixel of it stays. -/
namespace ValiantCore

structure Raster where
  width : ℕ
  height : ℕ
  pitch : ℕ
  row : 4*width ≤ pitch

namespace Raster

open Bytes Patches

/-- A place is a column and a row; a dot is a place and the colour that it gets. -/
abbrev Place := ℕ × ℕ
abbrev Dot := Place × UInt32

variable (r : Raster)

def Visible (p : Place) : Prop := p.1 < r.width ∧ p.2 < r.height

instance (p : Place) : Decidable (r.Visible p) := inferInstanceAs (Decidable (_ ∧ _))

/-- Where the four bytes of a pixel begin. -/
def offset (p : Place) : ℕ := p.2*r.pitch+4*p.1

def put (m : ℕ → UInt8) (d : Dot) : ℕ → UInt8 :=
  if r.Visible d.1 then patch (leBytes 4 d.2.toNat) m (r.offset d.1) else m

def draw (m : ℕ → UInt8) (ds : List Dot) : ℕ → UInt8 := ds.foldl r.put m

def shown (m : ℕ → UInt8) (p : Place) : UInt32 := UInt32.ofNat (field m (r.offset p) 4)

/-- The address belongs to a pixel of the picture. -/
def Holds (a : ℕ) : Prop := ∃ p, r.Visible p ∧ r.offset p ≤ a ∧ a < r.offset p+4

def plain (color : UInt32) (ps : List Place) : List Dot := ps.map fun p => (p,color)

variable {r}

theorem offset_apart {p q : Place} (hp : p.1 < r.width) (hq : q.1 < r.width) (hne : p ≠ q) :
    r.offset p+4 ≤ r.offset q ∨ r.offset q+4 ≤ r.offset p := by
  have hrow := r.row
  have hend : ∀ {y z : ℕ}, y < z → y*r.pitch+r.pitch ≤ z*r.pitch := fun {y z} h => by
    have hrows := Nat.mul_le_mul_right r.pitch h
    rwa [Nat.succ_mul] at hrows
  unfold offset
  rcases lt_trichotomy p.2 q.2 with hlt | heq | hlt
  · have hrows := hend hlt
    omega
  · have hcol : p.1 ≠ q.1 := fun h => hne (Prod.ext h heq)
    rw [heq]
    omega
  · have hrows := hend hlt
    omega

section Put
variable {m : ℕ → UInt8} {p : Place} {d : Dot}

theorem shown_patch (p : Place) (color : UInt32) :
    r.shown (patch (leBytes 4 color.toNat) m (r.offset p)) p = color := by
  have hbytes := holds_patch (leBytes 4 color.toNat) m (r.offset p)
  rw [Bytes.Holds,leBytes_length] at hbytes
  rw [shown,field,hbytes,leNat_leBytes,UInt32.ofNat_eq_iff_mod_eq_toNat]
  have hlt := color.toNat_lt
  omega

theorem shown_congr {m' : ℕ → UInt8} (h : ∀ a, r.offset p ≤ a → a < r.offset p+4 → m a = m' a) :
    r.shown m p = r.shown m' p := by
  rw [shown,shown,field,field,bytesAt_congr]
  intro k hk
  exact h _ (by omega) (by omega)

theorem put_shown (hp : r.Visible p) :
    r.shown (r.put m d) p = Function.update (r.shown m) d.1 d.2 p := by
  unfold put
  by_cases hd : d.1 = p
  · rw [if_pos (hd ▸ hp),← hd,shown_patch,Function.update_self]
  · rw [Function.update_of_ne (Ne.symm hd)]
    by_cases hvis : r.Visible d.1
    · rw [if_pos hvis]
      refine shown_congr fun a hlow hhigh => ?_
      rw [patch,if_neg]
      rw [leBytes_length]
      rcases offset_apart hvis.1 hp.1 hd with h | h <;> omega
    · rw [if_neg hvis]

theorem put_outside {a : ℕ} (ha : ¬ r.Holds a) : r.put m d a = m a := by
  unfold put
  by_cases hvis : r.Visible d.1
  · rw [if_pos hvis,patch,if_neg]
    rw [leBytes_length]
    exact fun hin => ha ⟨d.1,hvis,hin⟩
  · rw [if_neg hvis]

end Put

section Draw
variable {m : ℕ → UInt8} {p : Place} {ds : List Dot}

theorem draw_append (m : ℕ → UInt8) (ds ds' : List Dot) : r.draw m (ds++ds') = r.draw (r.draw m ds) ds' :=
  List.foldl_append

theorem draw_shown (hp : r.Visible p) :
    r.shown (r.draw m ds) p = ((Slots.lastWrite Prod.fst ds p).map Prod.snd).getD (r.shown m p) := by
  rw [← Slots.foldl_update Prod.fst Prod.snd (r.shown m) ds p]
  induction ds using List.reverseRecOn with
  | nil => rfl
  | append_singleton ds d ih =>
    rw [draw_append,List.foldl_append]
    refine (put_shown hp).trans ?_
    rw [List.foldl_cons,List.foldl_nil]
    by_cases hd : p = d.1
    · rw [hd,Function.update_self,Function.update_self]
    · rw [Function.update_of_ne hd,Function.update_of_ne hd,ih]

theorem draw_outside {a : ℕ} (ha : ¬ r.Holds a) : r.draw m ds a = m a := by
  induction ds using List.reverseRecOn with
  | nil => rfl
  | append_singleton ds d ih =>
    rw [draw_append]
    exact (put_outside ha).trans ih

theorem draw_shown_of_notMem (hp : r.Visible p) (h : p ∉ ds.map Prod.fst) :
    r.shown (r.draw m ds) p = r.shown m p := by
  have hnone : Slots.lastWrite Prod.fst ds p = none := by
    rw [← Option.not_isSome_iff_eq_none,Slots.lastWrite_isSome]
    exact h
  rw [draw_shown hp,hnone]
  rfl

theorem draw_shown_of_mem (hp : r.Visible p) {color : UInt32} (hmem : p ∈ ds.map Prod.fst)
    (hcolor : ∀ d ∈ ds, d.1 = p → d.2 = color) : r.shown (r.draw m ds) p = color := by
  obtain ⟨d,hd⟩ := Option.isSome_iff_exists.mp (Slots.lastWrite_isSome.mpr hmem)
  obtain ⟨hin,hplace⟩ := Slots.lastWrite_mem hd
  rw [draw_shown hp,hd]
  exact hcolor d hin hplace

theorem plain_places (color : UInt32) (ps : List Place) : (plain color ps).map Prod.fst = ps := by
  rw [plain,List.map_map]
  exact List.map_id ps

theorem draw_plain_shown (hp : r.Visible p) (color : UInt32) (ps : List Place) :
    r.shown (r.draw m (plain color ps)) p = if p ∈ ps then color else r.shown m p := by
  by_cases hmem : p ∈ ps
  · rw [if_pos hmem]
    refine draw_shown_of_mem hp (by rwa [plain_places]) fun d hd _ => ?_
    obtain ⟨q,-,rfl⟩ := List.mem_map.mp hd
    rfl
  · rw [if_neg hmem]
    refine draw_shown_of_notMem hp ?_
    rw [plain_places]
    exact hmem

theorem memory_ext {m' : ℕ → UInt8} (hshown : ∀ p, r.Visible p → r.shown m p = r.shown m' p)
    (hrest : ∀ a, ¬ r.Holds a → m a = m' a) : m = m' := by
  funext a
  by_cases ha : r.Holds a
  · obtain ⟨p,hp,hlow,hhigh⟩ := ha
    have hfield : field m (r.offset p) 4 = field m' (r.offset p) 4 := by
      have hlt := field_lt m (r.offset p) 4
      have hlt' := field_lt m' (r.offset p) 4
      have heq := congrArg UInt32.toNat (hshown p hp)
      rw [shown,shown,UInt32.toNat_ofNat',UInt32.toNat_ofNat'] at heq
      omega
    have hbytes := leNat_injective (by simp) hfield
    rw [bytesAt_eq_map,bytesAt_eq_map] at hbytes
    have hbyte := List.map_inj_left.mp hbytes (a-r.offset p) (List.mem_range.mpr (by omega))
    rwa [Nat.add_sub_cancel' hlow] at hbyte
  · exact hrest a ha

theorem draw_absorb {ds' : List Dot} (h : ∀ p ∈ ds.map Prod.fst, r.Visible p → p ∈ ds'.map Prod.fst) :
    r.draw (r.draw m ds) ds' = r.draw m ds' := by
  refine memory_ext (r := r) (fun p hp => ?_) fun a ha => ?_
  · rw [@draw_shown r (r.draw m ds) p ds' hp,@draw_shown r m p ds' hp]
    cases hlast : Slots.lastWrite Prod.fst ds' p with
    | some d => rfl
    | none =>
      have hnot : p ∉ ds.map Prod.fst := fun hmem => by
        have hsome := Slots.lastWrite_isSome.mpr (h p hmem hp)
        rw [hlast] at hsome
        cases hsome
      exact draw_shown_of_notMem hp hnot
  · rw [draw_outside ha,draw_outside ha,draw_outside ha]

end Draw

end Raster
end ValiantCore
