import Mathlib.Tactic.SplitIfs

/-! Programs on a state that may halt the machine they run on. A triple has two
postconditions: one for the runs that return and one for the states left by a halt.
The rules follow the shape of a program, so an invariant is carried through nested
calls one call at a time. -/
namespace ValiantCore
namespace Halting

/-- Programs on a state `S` that return an `A` or halt; the error is the state left then. -/
abbrev HaltM (S A : Type) := StateT S (Except S) A

variable {S A B : Type}

def halt : HaltM S A := fun s => .error s

@[simp] theorem pure_apply (a : A) (s : S) : (pure a : HaltM S A) s = .ok (a,s) := rfl
@[simp] theorem halt_apply (s : S) : (halt : HaltM S A) s = .error s := rfl
@[simp] theorem modifyGet_bind (g : S → A × S) (f : A → HaltM S B) (s : S) :
    (modifyGet g >>= f) s = f (g s).1 (g s).2 := rfl

theorem bind_ok {x : HaltM S A} {f : A → HaltM S B} {a : A} {s s' : S} (h : x s = .ok (a,s')) :
    (x >>= f) s = f a s' := by
  simp only [bind,StateT.bind,Except.bind,h]

theorem bind_error {x : HaltM S A} {f : A → HaltM S B} {s s' : S} (h : x s = .error s') :
    (x >>= f) s = .error s' := by
  simp only [bind,StateT.bind,Except.bind,h]

theorem bind_eq_ok_iff {x : HaltM S A} {f : A → HaltM S B} {b : B} {s s'' : S} :
    (x >>= f) s = .ok (b,s'') ↔ ∃ a s', x s = .ok (a,s') ∧ f a s' = .ok (b,s'') := by
  cases hrun : x s with
  | error e => simp [bind_error hrun]
  | ok r =>
    rw [bind_ok hrun]
    constructor
    · exact fun h => ⟨r.1,r.2,rfl,h⟩
    · rintro ⟨a,s',heq,h⟩
      obtain rfl := Except.ok.inj heq
      exact h

/-- From `P`, the program returns in `Q` or halts in `H`. -/
def Triple (P : S → Prop) (x : HaltM S A) (Q : A → S → Prop) (H : S → Prop) : Prop :=
  ∀ s, P s → match x s with
    | .ok (a,s') => Q a s'
    | .error s' => H s'

section Rules
variable {P P' : S → Prop} {Q Q' : A → S → Prop} {R : B → S → Prop} {H : S → Prop}

theorem triple_pure {a : A} (h : ∀ s, P s → Q a s) : Triple P (pure a) Q H := h

theorem triple_modify {f : S → S} {Q : Unit → S → Prop} (h : ∀ s, P s → Q () (f s)) :
    Triple P (modify f) Q H := h

theorem triple_modifyGet {f : S → A × S} (h : ∀ s, P s → Q (f s).1 (f s).2) :
    Triple P (modifyGet f) Q H := h

theorem triple_bind {x : HaltM S A} {f : A → HaltM S B} (hx : Triple P x Q H)
    (hf : ∀ a, Triple (Q a) (f a) R H) : Triple P (x >>= f) R H := by
  intro s hs
  have hx' := hx s hs
  cases hrun : x s with
  | error s' =>
    rw [bind_error hrun]
    rwa [hrun] at hx'
  | ok r =>
    rw [bind_ok hrun]
    rw [hrun] at hx'
    exact hf r.1 r.2 hx'

theorem triple_ite {c : Prop} [Decidable c] {x y : HaltM S A} (hx : c → Triple P x Q H)
    (hy : ¬ c → Triple P y Q H) : Triple P (if c then x else y) Q H := by
  split_ifs with hc
  · exact hx hc
  · exact hy hc

theorem triple_any (x : HaltM S A) : Triple P x (fun _ _ => True) (fun _ => True) := by
  intro s _
  cases x s <;> trivial

theorem triple_skip (x : HaltM S A) {y : A → HaltM S B}
    (hy : ∀ a, Triple (fun _ => True) (y a) R (fun _ => True)) :
    Triple P (x >>= y) R (fun _ => True) := triple_bind (triple_any x) hy

theorem triple_weaken {x : HaltM S A} (h : Triple P x Q H) (hP : ∀ s, P' s → P s)
    (hQ : ∀ a s, Q a s → Q' a s) : Triple P' x Q' H := by
  intro s hs
  have hx := h s (hP s hs)
  cases hrun : x s with
  | error s' => simpa only [hrun] using hx
  | ok r =>
    rw [hrun] at hx
    exact hQ r.1 r.2 hx

end Rules

/-- The invariant `I` survives the program, unless the machine halts in `H`. -/
def Keeps (I H : S → Prop) (x : HaltM S A) : Prop := Triple I x (fun _ => I) H

section Invariant
variable {I H : S → Prop}

theorem keeps_pure (a : A) : Keeps I H (pure a) := triple_pure fun _ hs => hs

theorem keeps_get : Keeps I H (get : HaltM S S) := fun _ hs => hs

theorem keeps_modify {f : S → S} (h : ∀ s, I s → I (f s)) : Keeps I H (modify f) := triple_modify h

theorem keeps_modifyGet {f : S → A × S} (h : ∀ s, I s → I (f s).2) : Keeps I H (modifyGet f) :=
  triple_modifyGet h

theorem keeps_bind {x : HaltM S A} {f : A → HaltM S B} (hx : Keeps I H x)
    (hf : ∀ a, Keeps I H (f a)) : Keeps I H (x >>= f) := triple_bind hx hf

theorem keeps_seq {x : HaltM S Unit} {y : HaltM S B} (hx : Keeps I H x) (hy : Keeps I H y) :
    Keeps I H (do x; y) := triple_bind hx fun _ => hy

theorem keeps_ite {c : Prop} [Decidable c] {x y : HaltM S A} (hx : Keeps I H x)
    (hy : Keeps I H y) : Keeps I H (if c then x else y) := triple_ite (fun _ => hx) fun _ => hy

end Invariant

section Calls
variable {Call : Type} (perform : Call → HaltM S A)

def runCalls (calls : List Call) (s : S) : Except S S :=
  match calls with
  | [] => .ok s
  | call::calls =>
    match perform call s with
    | .ok (_,s') => runCalls calls s'
    | .error s' => .error s'

/-- What every call keeps, every run of calls keeps. -/
theorem runCalls_keeps {I H : S → Prop} (calls : List Call)
    (h : ∀ call ∈ calls, Keeps I H (perform call)) {s : S} (hs : I s) :
    match runCalls perform calls s with
    | .ok s' => I s'
    | .error s' => H s' := by
  induction calls generalizing s with
  | nil => exact hs
  | cons call calls ih =>
    have hcall := h call (by simp) s hs
    simp only [runCalls]
    cases hrun : perform call s with
    | error s' => simpa only [hrun] using hcall
    | ok r =>
      rw [hrun] at hcall
      exact ih (fun c hc => h c (List.mem_cons_of_mem call hc)) hcall

end Calls

end Halting
end ValiantCore
