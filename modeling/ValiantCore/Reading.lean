import Mathlib.Tactic.Cases

/-! Programs that read a state and leave alone what a view shows of it, such as the reads of
a device behind an address register. Where the view alone decides a read, a program made of
such reads returns what the view says, and can be followed by another one. -/
namespace ValiantCore
namespace Reading

variable {S C A B : Type} {view : S → C} {c : C}

/-- From every state with the view `c`, the program returns `v` and leaves the view as it is. -/
def Yields (view : S → C) (c : C) (read : StateM S A) (v : A) : Prop :=
  ∀ s, view s = c → ∃ s', read.run s = (v,s') ∧ view s' = c

theorem Yields.pure (view : S → C) (c : C) (v : A) : Yields view c (pure v) v :=
  fun s hs => ⟨s,rfl,hs⟩

theorem Yields.modifyGet {f : S → A × S} {v : A} (hvalue : ∀ s, view s = c → (f s).1 = v)
    (hkeeps : ∀ s, view (f s).2 = view s) : Yields view c (modifyGet f) v :=
  fun s hs => ⟨(f s).2,Prod.ext (hvalue s hs) rfl,(hkeeps s).trans hs⟩

theorem Yields.bind {read : StateM S A} {v : A} {next : A → StateM S B} {w : B}
    (hread : Yields view c read v) (hnext : Yields view c (next v) w) :
    Yields view c (read >>= next) w := by
  intro s hs
  obtain ⟨s₁,hrun,hs₁⟩ := hread s hs
  obtain ⟨s₂,hrun₂,hs₂⟩ := hnext s₁ hs₁
  refine ⟨s₂,?_,hs₂⟩
  rw [StateT.run_bind,hrun]
  exact hrun₂

theorem Yields.mapM {read : B → StateM S A} {v : B → A} {xs : List B}
    (hread : ∀ x ∈ xs, Yields view c (read x) (v x)) : Yields view c (xs.mapM read) (xs.map v) := by
  induction xs with
  | nil => exact Yields.pure view c []
  | cons x xs ih =>
    rw [List.mapM_cons]
    have hhead := hread x List.mem_cons_self
    have htail := ih fun y hy => hread y (List.mem_cons_of_mem x hy)
    exact hhead.bind (htail.bind (Yields.pure view c _))

section Search
variable {turn : A → StateM S (Option B)}

theorem findSomeM?_append (xs ys : List A) :
    (xs++ys).findSomeM? turn = (do
      match ← xs.findSomeM? turn with
      | some b => return some b
      | none => ys.findSomeM? turn) := by
  induction xs with
  | nil => simp
  | cons x xs ih =>
    rw [List.cons_append,List.findSomeM?_cons,List.findSomeM?_cons,ih,bind_assoc]
    congr 1
    funext found
    cases found <;> simp

theorem findSomeM?_flatMap {X : Type} (f : X → List A) (xs : List X) :
    (xs.flatMap f).findSomeM? turn = xs.findSomeM? fun x => (f x).findSomeM? turn := by
  induction xs with
  | nil => rfl
  | cons x xs ih =>
    rw [List.flatMap_cons,findSomeM?_append,List.findSomeM?_cons,ih]
    rfl

theorem findSomeM?_map {X : Type} (f : X → A) (xs : List X) :
    (xs.map f).findSomeM? turn = xs.findSomeM? fun x => turn (f x) := by
  induction xs with
  | nil => rfl
  | cons x xs ih => rw [List.map_cons,List.findSomeM?_cons,List.findSomeM?_cons,ih]

variable {p : A → Bool} {xs : List A}

/-- The turns that give nothing leave the view as it is, so the first turn that gives
something finds the view that the search began with. -/
theorem findSomeM?_run (hskip : ∀ x ∈ xs, p x = false → Yields view c (turn x) none)
    (hfound : ∀ x ∈ xs, p x = true → ∀ s, view s = c → ((turn x).run s).1.isSome) {s : S} (hs : view s = c) :
    match xs.find? p with
    | none => ∃ s', (xs.findSomeM? turn).run s = (none,s') ∧ view s' = c
    | some x => ∃ s', (xs.findSomeM? turn).run s = (turn x).run s' ∧ view s' = c := by
  induction xs generalizing s with
  | nil => exact ⟨s,rfl,hs⟩
  | cons x xs ih =>
    rw [List.find?_cons,List.findSomeM?_cons,StateT.run_bind]
    cases hx : p x with
    | true =>
      obtain ⟨v,hv⟩ := Option.isSome_iff_exists.mp (hfound x List.mem_cons_self hx s hs)
      refine ⟨s,?_,hs⟩
      show (match ((turn x).run s).1 with
        | some b => Pure.pure (some b)
        | none => xs.findSomeM? turn).run ((turn x).run s).2 = _
      rw [hv]
      exact Prod.ext hv.symm rfl
    | false =>
      obtain ⟨s₁,hrun,hs₁⟩ := hskip x List.mem_cons_self hx s hs
      rw [hrun]
      exact ih (fun y hy => hskip y (List.mem_cons_of_mem x hy))
        (fun y hy => hfound y (List.mem_cons_of_mem x hy)) hs₁

end Search

end Reading
end ValiantCore
