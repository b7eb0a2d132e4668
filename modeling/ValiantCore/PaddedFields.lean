import Mathlib.Data.List.TakeWhile
import Mathlib.Tactic.Cases

/-! Fields of a fixed width, padded at their ends, and two strings with a separator between
them that is left out where the second one is empty. Both are undone by a reader. -/
namespace ValiantCore
namespace PaddedFields

variable {α : Type} {pad sep : α}

/-- Where there is no `ext`, there is no separator either. -/
def join (sep : α) (stem ext : List α) : List α := if ext = [] then stem else stem++sep::ext

theorem join_length_le (stem ext : List α) : (join sep stem ext).length ≤ stem.length+1+ext.length := by
  unfold join
  split_ifs
  · omega
  · rw [List.length_append,List.length_cons]
    omega

theorem mem_join {c : α} {stem ext : List α} (h : c ∈ join sep stem ext) : c ∈ stem ∨ c = sep ∨ c ∈ ext := by
  unfold join at h
  split_ifs at h
  · exact Or.inl h
  · exact (List.mem_append.mp h).imp_right List.mem_cons.mp

variable [DecidableEq α]

/-- Behind padding there is nothing but padding. -/
def Padded (pad : α) (field : List α) : Prop := field.Pairwise fun c d => c = pad → d = pad

instance (pad : α) (field : List α) : Decidable (Padded pad field) :=
  inferInstanceAs (Decidable (field.Pairwise _))

def unpad (pad : α) (field : List α) : List α := field.takeWhile (· ≠ pad)

@[simp] theorem unpad_nil : unpad pad [] = [] := rfl

theorem unpad_cons (c : α) (field : List α) :
    unpad pad (c::field) = if c = pad then [] else c::unpad pad field := by
  by_cases hc : c = pad
  · simp [unpad,hc]
  · simp [unpad,hc]

theorem unpad_length_le (field : List α) : (unpad pad field).length ≤ field.length :=
  (List.takeWhile_prefix _).length_le

theorem mem_of_mem_unpad {c : α} {field : List α} (h : c ∈ unpad pad field) : c ∈ field :=
  (List.takeWhile_prefix _).subset h

/-- A field is its content and padding up to its width. -/
theorem rightpad_unpad {field : List α} (h : Padded pad field) :
    (unpad pad field).rightpad field.length pad = field := by
  induction field with
  | nil => rfl
  | cons c field ih =>
    obtain ⟨hfirst,hrest⟩ := List.pairwise_cons.mp h
    rw [unpad_cons]
    split_ifs with hc
    · have hall : field = List.replicate field.length pad :=
        List.eq_replicate_iff.mpr ⟨rfl,fun d hd => hfirst d hd hc⟩
      rw [List.rightpad,List.nil_append,List.length_nil,List.length_cons,Nat.sub_zero,List.replicate_succ,
        ← hall,hc]
    · have htail := ih hrest
      rw [List.rightpad] at htail ⊢
      rw [List.length_cons,List.length_cons,Nat.add_sub_add_right,List.cons_append,htail]

def cut (sep : α) (s : List α) : List α × List α := (s.takeWhile (· ≠ sep),(s.dropWhile (· ≠ sep)).tail)

theorem cut_join {stem : List α} (h : sep ∉ stem) (ext : List α) : cut sep (join sep stem ext) = (stem,ext) := by
  have hstem : ∀ c ∈ stem, decide (c ≠ sep) = true := by
    intro c hc
    exact decide_eq_true (ne_of_mem_of_not_mem hc h)
  unfold cut join
  split_ifs with hext
  · rw [List.takeWhile_eq_self_iff.mpr hstem,List.dropWhile_eq_nil_iff.mpr hstem,hext,List.tail_nil]
  · rw [List.takeWhile_append_of_pos hstem,List.dropWhile_append_of_pos hstem]
    simp

end PaddedFields
end ValiantCore
