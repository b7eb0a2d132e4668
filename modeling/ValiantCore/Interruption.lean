import Mathlib.Tactic.Cases

/-! Programs that are interrupted. A machine does its actions one after another; between
any two of them interrupts may come, each with whatever it does to the machine. An interrupt
that leaves a view of the machine alone cannot be told from none, by a program whose actions
depend on the view only. -/
namespace ValiantCore
namespace Interruption

/-- An action of the program, or an interrupt before the next one. -/
inductive Event (A I : Type)
  | act (a : A)
  | interrupt (i : I)

def acts {A I : Type} : List (Event A I) → List A
  | [] => []
  | .act a::es => a::acts es
  | .interrupt _::es => acts es

section Run
variable {S A I : Type} (act : A → S → S) (interrupt : I → S → Option S)

def alone (s : S) : List A → S
  | [] => s
  | a::as => alone (act a s) as

/-- The program with the interrupts in it, unless one of them never comes back. -/
def exec (s : S) : List (Event A I) → Option S
  | [] => some s
  | .act a::es => exec (act a s) es
  | .interrupt i::es => (interrupt i s).bind fun s' => exec s' es

/-- Every interrupt of the run comes when the guard `P` allows it. -/
def Guarded (P : I → S → Prop) (s : S) : List (Event A I) → Prop
  | [] => True
  | .act a::es => Guarded P (act a s) es
  | .interrupt i::es => P i s ∧ ∀ s', interrupt i s = some s' → Guarded P s' es

/-- What an interrupt has to do for a program not to notice it: it comes back, and what the
program sees of the machine is what it was. -/
def Unnoticed (View : S → S → Prop) (i : I) (s : S) : Prop :=
  ∃ s', interrupt i s = some s' ∧ View s' s

variable {act interrupt}

/-- A program that is interrupted ends as if it had not been. -/
theorem exec_view {View : S → S → Prop} {P : I → S → Prop}
    (htrans : ∀ r s t, View r s → View s t → View r t)
    (hact : ∀ a s t, View s t → View (act a s) (act a t))
    (hint : ∀ i s, P i s → Unnoticed interrupt View i s) {es : List (Event A I)} {s t : S}
    (h : Guarded act interrupt P s es) (hst : View s t) :
    ∃ s', exec act interrupt s es = some s' ∧ View s' (alone act t (acts es)) := by
  induction es generalizing s t with
  | nil => exact ⟨s,rfl,hst⟩
  | cons e es ih =>
    cases e with
    | act a => exact ih h (hact a s t hst)
    | interrupt i =>
      obtain ⟨hguard,hrest⟩ := h
      obtain ⟨s',hs',hview⟩ := hint i s hguard
      obtain ⟨s'',hexec,hend⟩ := ih (hrest s' hs') (htrans s' s t hview hst)
      exact ⟨s'',by rw [exec,hs',Option.bind_some,hexec],hend⟩

end Run

end Interruption
end ValiantCore
