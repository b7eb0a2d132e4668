import ValiantCore.Bytes

/-! The search of `include/multiboot2.h`. It goes from tag to tag by the sizes that it finds
in them, and it stops at a tag of the type it looks for or at an end tag; how long the block
is it does not look at. -/
namespace ValiantCore
namespace Multiboot2

open Bytes

def mb2TagEnd : ℕ := 0

/-- What the search comes to: it still runs, it returns 0, or it returns a tag. -/
inductive Outcome
  | running
  | null
  | found (tag : ℕ)
  deriving DecidableEq, Repr

section Block
-- The memory as it is seen from the address of the block on.
variable (byte : ℕ → UInt8)

def totalSize : ℕ := field byte 0 4

def tagType (tag : ℕ) : ℕ := field byte tag 4
def tagSize (tag : ℕ) : ℕ := field byte (tag+4) 4

/-- `ptr += (tag->size + 7) & ~7` with pointers of so many bits. -/
def nextTag (pointerBits tag : ℕ) : ℕ := (tag+(tagSize byte tag+7)%2^32/8*8)%2^pointerBits

/-- The turns of the loop of `mb2_find_tag` from a tag on, with the tags that are read. -/
def findFrom (pointerBits type : ℕ) : ℕ → ℕ → List ℕ × Outcome
  | 0, _ => ([],.running)
  | fuel+1, tag =>
    if tagType byte tag = mb2TagEnd then ([tag],.null)
    else if tagType byte tag = type then ([tag],.found tag)
    else
      let r := findFrom pointerBits type fuel (nextTag byte pointerBits tag)
      (tag::r.1,r.2)

def mb2FindTag (pointerBits type fuel : ℕ) : List ℕ × Outcome := findFrom byte pointerBits type fuel 8

def InBlock (tag : ℕ) : Prop := tag+8 ≤ totalSize byte

/-- The search stops at the tag. -/
def Stops (type tag : ℕ) : Prop := tagType byte tag = mb2TagEnd ∨ tagType byte tag = type

/-- The tags of the block, each at the rounded size of the one before it. -/
def tagAt (pointerBits n : ℕ) : ℕ := (nextTag byte pointerBits)^[n] 8

/-- No end tag comes up to this tag. -/
def Listed (pointerBits n : ℕ) : Prop := ∀ k ≤ n, tagType byte (tagAt byte pointerBits k) ≠ mb2TagEnd

/-- The search is total on the block: it comes to an end and reads no header outside the
block; it returns the first tag of the type in front of the end tag, and 0 just if there is
no such tag. -/
structure Total (pointerBits type : ℕ) (r : List ℕ × Outcome) : Prop where
  terminates : r.2 ≠ .running
  inside : ∀ tag ∈ r.1, InBlock byte tag
  found : ∀ tag, r.2 = .found tag ↔
    ∃ n, Listed byte pointerBits n ∧ tag = tagAt byte pointerBits n ∧ tagType byte tag = type ∧
      ∀ k < n, tagType byte (tagAt byte pointerBits k) ≠ type
  null : r.2 = .null ↔ ∀ n, Listed byte pointerBits n → tagType byte (tagAt byte pointerBits n) ≠ type

end Block

section Search
variable {byte : ℕ → UInt8} {pointerBits type : ℕ}

theorem findFrom_running {fuel tag : ℕ}
    (hgo : ∀ k < fuel, ¬ Stops byte type ((nextTag byte pointerBits)^[k] tag)) :
    (findFrom byte pointerBits type fuel tag).2 = .running := by
  induction fuel generalizing tag with
  | zero => rfl
  | succ fuel ih =>
    obtain ⟨hend,htype⟩ := not_or.mp (hgo 0 (Nat.succ_pos fuel))
    rw [Function.iterate_zero_apply] at hend htype
    simp only [findFrom,if_neg hend,if_neg htype]
    exact ih fun k hk => hgo (k+1) (Nat.succ_lt_succ hk)

/-- Where the first tag at which the search stops comes after `n` others, it reads these
and that tag, and it answers by it. -/
theorem findFrom_stop {fuel n tag : ℕ} (hfuel : n < fuel)
    (hgo : ∀ k < n, ¬ Stops byte type ((nextTag byte pointerBits)^[k] tag))
    (hstop : Stops byte type ((nextTag byte pointerBits)^[n] tag)) :
    findFrom byte pointerBits type fuel tag =
      ((List.range (n+1)).map fun k => (nextTag byte pointerBits)^[k] tag,
        if tagType byte ((nextTag byte pointerBits)^[n] tag) = mb2TagEnd then .null
        else .found ((nextTag byte pointerBits)^[n] tag)) := by
  induction n generalizing fuel tag with
  | zero =>
    obtain ⟨fuel,rfl⟩ := Nat.exists_eq_add_of_lt hfuel
    rw [Function.iterate_zero_apply] at hstop
    change findFrom byte pointerBits type (0+fuel+1) tag =
      ([tag],if tagType byte tag = mb2TagEnd then .null else .found tag)
    by_cases hend : tagType byte tag = mb2TagEnd
    · simp only [findFrom,if_pos hend]
    · simp only [findFrom,if_neg hend,if_pos (hstop.resolve_left hend)]
  | succ n ih =>
    obtain ⟨fuel,rfl⟩ : ∃ m, fuel = m+1 := ⟨fuel-1,by omega⟩
    obtain ⟨hend,htype⟩ := not_or.mp (hgo 0 (Nat.succ_pos n))
    rw [Function.iterate_zero_apply] at hend htype
    have hrest := ih (Nat.lt_of_succ_lt_succ hfuel) (fun k hk => hgo (k+1) (Nat.succ_lt_succ hk)) hstop
    simp only [findFrom,if_neg hend,if_neg htype,hrest]
    rw [@List.range_succ_eq_map (n+1),List.map_cons,List.map_map]
    rfl

theorem exists_first_stop {fuel : ℕ} (hdone : (mb2FindTag byte pointerBits type fuel).2 ≠ .running) :
    ∃ n < fuel, (∀ k < n, ¬ Stops byte type (tagAt byte pointerBits k)) ∧
      Stops byte type (tagAt byte pointerBits n) := by
  classical
  have hsome : ∃ n, n < fuel ∧ Stops byte type (tagAt byte pointerBits n) := by
    by_contra hnone
    exact hdone (findFrom_running fun k hk hstop => hnone ⟨k,hk,hstop⟩)
  obtain ⟨hlt,hstop⟩ := Nat.find_spec hsome
  refine ⟨Nat.find hsome,hlt,?_,hstop⟩
  exact fun k hk hk' => Nat.find_min hsome hk ⟨hk.trans hlt,hk'⟩

/-- The answer of a search that has stopped is the one that `Total` asks for. -/
theorem total_of_stop {n : ℕ} (hgo : ∀ k < n, ¬ Stops byte type (tagAt byte pointerBits k))
    (hstop : Stops byte type (tagAt byte pointerBits n))
    (hin : ∀ k ≤ n, InBlock byte (tagAt byte pointerBits k)) :
    Total byte pointerBits type (mb2FindTag byte pointerBits type (n+1)) := by
  rw [mb2FindTag,findFrom_stop (Nat.lt_succ_self n) hgo hstop]
  change Total byte pointerBits type (_,if tagType byte (tagAt byte pointerBits n) = mb2TagEnd then _
    else .found (tagAt byte pointerBits n))
  have hinside : ∀ tag ∈ (List.range (n+1)).map (tagAt byte pointerBits), InBlock byte tag := by
    intro tag htag
    obtain ⟨k,hk,rfl⟩ := List.mem_map.mp htag
    exact hin k (Nat.le_of_lt_succ (List.mem_range.mp hk))
  by_cases hend : tagType byte (tagAt byte pointerBits n) = mb2TagEnd
  · -- the tags in front of the end tag are those before `n`, and none has the type
    have hnone : ∀ m, Listed byte pointerBits m → tagType byte (tagAt byte pointerBits m) ≠ type := by
      intro m hm htype
      rcases Nat.lt_or_ge m n with hlt | hge
      · exact hgo m hlt (Or.inr htype)
      · exact hm n hge hend
    rw [if_pos hend]
    refine ⟨Outcome.noConfusion,hinside,fun tag => ⟨Outcome.noConfusion,?_⟩,⟨fun _ => hnone,fun _ => rfl⟩⟩
    rintro ⟨m,hm,rfl,htype,-⟩
    exact absurd htype (hnone m hm)
  · have htype := hstop.resolve_left hend
    have hlisted : Listed byte pointerBits n := by
      intro k hk hkend
      rcases Nat.lt_or_eq_of_le hk with hlt | rfl
      · exact hgo k hlt (Or.inl hkend)
      · exact hend hkend
    rw [if_neg hend]
    refine ⟨Outcome.noConfusion,hinside,fun tag => ⟨?_,?_⟩,
      ⟨Outcome.noConfusion,fun h => absurd htype (h n hlisted)⟩⟩
    · intro h
      obtain rfl := Outcome.found.inj h
      exact ⟨n,hlisted,rfl,htype,fun k hk hktype => hgo k hk (Or.inr hktype)⟩
    · rintro ⟨m,hm,rfl,hmtype,hfirst⟩
      have heq : m = n := by
        rcases Nat.lt_trichotomy m n with hlt | heq | hgt
        · exact absurd (Or.inr hmtype) (hgo m hlt)
        · exact heq
        · exact absurd htype (hfirst n hgt)
      rw [heq]

/-- Whatever the memory holds, the search is total on the block just if the tags of the
block lie in it up to one of the type that is looked for, or an end tag. -/
theorem mb2FindTag_total_iff (byte : ℕ → UInt8) (pointerBits type : ℕ) :
    (∃ fuel, Total byte pointerBits type (mb2FindTag byte pointerBits type fuel)) ↔
      ∃ n, (∀ k ≤ n, InBlock byte (tagAt byte pointerBits k)) ∧
        Stops byte type (tagAt byte pointerBits n) := by
  constructor
  · rintro ⟨fuel,h⟩
    obtain ⟨n,hn,hgo,hstop⟩ := exists_first_stop h.terminates
    refine ⟨n,fun k hk => h.inside _ ?_,hstop⟩
    rw [mb2FindTag,findFrom_stop hn hgo hstop]
    exact List.mem_map.mpr ⟨k,List.mem_range.mpr (Nat.lt_succ_of_le hk),rfl⟩
  · rintro ⟨n,hin,hstop⟩
    classical
    have hsome : ∃ m, Stops byte type (tagAt byte pointerBits m) := ⟨n,hstop⟩
    refine ⟨Nat.find hsome+1,total_of_stop (fun k hk => Nat.find_min hsome hk) (Nat.find_spec hsome) ?_⟩
    exact fun k hk => hin k (hk.trans (Nat.find_min' hsome hstop))

/-- The search does not get past a tag of size 0, nor past one whose size is rounded up to
2^32. -/
theorem tagAt_of_stuck (hstuck : nextTag byte pointerBits 8 = 8) (n : ℕ) : tagAt byte pointerBits n = 8 :=
  Function.iterate_fixed hstuck n

end Search

/-- A block of 24 bytes whose first tag has the type 1 and the size 0. -/
def sizelessTag : ℕ → UInt8 := fun i => if i = 0 then 24 else if i = 8 then 1 else 0

theorem sizeless_tag_endless : ¬ ∃ fuel, Total sizelessTag 64 8 (mb2FindTag sizelessTag 64 8 fuel) := by
  rintro ⟨fuel,h⟩
  obtain ⟨n,-,-,hstop⟩ := exists_first_stop h.terminates
  rw [tagAt_of_stuck (by decide)] at hstop
  revert hstop
  unfold Stops
  decide

end Multiboot2
end ValiantCore
