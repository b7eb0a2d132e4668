import ValiantCore.Bytes
import Mathlib.Data.List.GetD

/-! One image of bytes that is written at several places of a memory, one after the other.
What the writes cover no longer shows what was there, and all else does. -/
namespace ValiantCore
namespace Patches

def patch (image : List UInt8) (m : ℕ → UInt8) (off : ℕ) : ℕ → UInt8 :=
  fun a => if off ≤ a ∧ a < off+image.length then image.getD (a-off) 0 else m a

def patches (image : List UInt8) (m : ℕ → UInt8) (offs : List ℕ) : ℕ → UInt8 := offs.foldl (patch image) m

/-- The address lies in one of the stretches of `len` bytes. -/
def Covers (len : ℕ) (offs : List ℕ) (a : ℕ) : Prop := ∃ off ∈ offs, off ≤ a ∧ a < off+len

section Single
variable {xs : List UInt8} {m : ℕ → UInt8} {off : ℕ}

theorem patch_nil (m : ℕ → UInt8) (off : ℕ) : patch [] m off = m := by
  funext a
  rw [patch,if_neg]
  rw [List.length_nil]
  omega

theorem patch_append (xs ys : List UInt8) (m : ℕ → UInt8) (off : ℕ) :
    patch (xs++ys) m off = patch ys (patch xs m off) (off+xs.length) := by
  funext a
  simp only [patch,List.length_append]
  by_cases hfirst : off ≤ a ∧ a < off+xs.length
  · rw [if_pos (by omega),if_neg (by omega),if_pos hfirst,List.getD_append _ _ _ _ (by omega)]
  · by_cases hsecond : off+xs.length ≤ a ∧ a < off+xs.length+ys.length
    · rw [if_pos (by omega),if_pos hsecond,List.getD_append_right _ _ _ _ (by omega),Nat.sub_sub]
    · rw [if_neg (by omega),if_neg hsecond,if_neg hfirst]

theorem patch_singleton (c : UInt8) (m : ℕ → UInt8) (off : ℕ) : patch [c] m off = Function.update m off c := by
  funext a
  by_cases ha : a = off
  · subst ha
    simp [patch]
  · rw [patch,Function.update_of_ne ha,if_neg]
    rw [List.length_singleton]
    omega

theorem patch_of_le {a : ℕ} (h : off+xs.length ≤ a) : patch xs m off a = m a := if_neg (by omega)

theorem holds_patch (xs : List UInt8) (m : ℕ → UInt8) (off : ℕ) : Bytes.Holds (patch xs m off) off xs := by
  rw [Bytes.Holds,Bytes.bytesAt_eq_map]
  refine List.ext_getElem (by simp) fun k hk hk' => ?_
  rw [List.getElem_map,List.getElem_range,patch,if_pos (by omega),Nat.add_sub_cancel_left,
    List.getD_eq_getElem _ _ hk']

end Single

theorem foldl_patches {I : Type} (image : List UInt8) (f : I → List ℕ) (is : List I) (m : ℕ → UInt8) :
    is.foldl (fun m i => patches image m (f i)) m = patches image m (is.flatMap f) := by
  rw [patches,List.foldl_flatMap]
  rfl

variable {image : List UInt8} {offs offs' : List ℕ} {a : ℕ}

theorem patches_of_not_covers (m : ℕ → UInt8) (h : ¬ Covers image.length offs a) :
    patches image m offs a = m a := by
  induction offs generalizing m with
  | nil => rfl
  | cons off offs ih =>
    have hrest : ¬ Covers image.length offs a := fun ⟨o,ho,hin⟩ => h ⟨o,List.mem_cons_of_mem off ho,hin⟩
    have hoff : ¬ (off ≤ a ∧ a < off+image.length) := fun hin => h ⟨off,List.mem_cons_self,hin⟩
    exact (ih _ hrest).trans (if_neg hoff)

theorem patches_of_covers (m m' : ℕ → UInt8) (h : Covers image.length offs a) :
    patches image m offs a = patches image m' offs a := by
  induction offs generalizing m m' with
  | nil =>
    obtain ⟨off,hoff,-⟩ := h
    cases hoff
  | cons off offs ih =>
    by_cases hrest : Covers image.length offs a
    · exact ih _ _ hrest
    · have hin : off ≤ a ∧ a < off+image.length := by
        obtain ⟨o,ho,hin⟩ := h
        rcases List.mem_cons.mp ho with rfl | ho
        · exact hin
        · exact absurd ⟨o,ho,hin⟩ hrest
      change patches image (patch image m off) offs a = patches image (patch image m' off) offs a
      rw [patches_of_not_covers _ hrest,patches_of_not_covers _ hrest,patch,patch,if_pos hin,if_pos hin]

theorem covers_of_patches_eq (h : ∀ m, patches image m offs = patches image m offs')
    (ha : Covers image.length offs a) : Covers image.length offs' a := by
  by_contra hnot
  -- a memory that holds another byte there than the one that is written
  have hkept : ∀ m, patches image m offs a = m a := fun m =>
    (congrFun (h m) a).trans (patches_of_not_covers m hnot)
  have h01 := patches_of_covers (fun _ => 0) (fun _ => 1) ha
  rw [hkept,hkept] at h01
  exact absurd h01 (by decide)

end Patches
end ValiantCore
