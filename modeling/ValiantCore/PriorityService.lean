import Mathlib.Data.List.Nodup
import Mathlib.Tactic.Cases

/-! Requests that wait to be served, one at a time, the one of highest priority first. A
controller keeps what is pending and serves what is enabled; its laws are the fields of the
structure. What follows of every controller: nothing is served more often than it was raised,
nothing is lost, and without new requests each that is enabled is served once, in order, until
one comes that the processor has no handler for. -/
namespace ValiantCore
namespace PriorityService

section Find
variable {L : Type} [DecidableEq L]

theorem filter_of_find {p : L → Bool} {l : List L} {i : L} (hl : l.Nodup) (h : l.find? p = some i) :
    l.filter p = i::l.filter fun j => p j && decide (j ≠ i) := by
  induction l with
  | nil => cases h
  | cons a l ih =>
    obtain ⟨hnot,hl⟩ := List.nodup_cons.mp hl
    rw [List.find?_cons] at h
    cases ha : p a with
    | true =>
      rw [ha] at h
      cases h
      have hrest : l.filter p = l.filter fun j => p j && decide (j ≠ i) := by
        apply List.filter_congr
        intro j hj
        have hne : j ≠ i := fun hji => hnot (hji ▸ hj)
        simp [hne]
      simp [ha,hrest]
    | false =>
      rw [ha] at h
      simpa [ha] using ih hl h

end Find

/-- What a controller makes of its requests: there is none, the first is served, or the
processor has no handler for it and comes no further. -/
inductive Service (S L : Type)
  | idle
  | served (s : S) (i : L)
  | fatal (i : L)

/-- Lines `L`, states `S`, and operations `O` that do not concern what is pending. -/
structure Controller (S L O : Type) [DecidableEq L] where
  order : S → List L
  handled : L → Bool
  Inv : S → Prop
  pending : S → L → Bool
  enabled : S → L → Bool
  raise : S → L → S
  adjust : S → O → S
  serve : S → Service S L
  nodup : ∀ s, (order s).Nodup
  raise_inv : ∀ s i, Inv s → Inv (raise s i)
  raise_pending : ∀ s i j, Inv s →
    pending (raise s i) j = (pending s j || decide (j = i ∧ i ∈ order s))
  adjust_inv : ∀ s o, Inv s → Inv (adjust s o)
  adjust_pending : ∀ s o, Inv s → pending (adjust s o) = pending s
  serve_idle : ∀ s, Inv s → serve s = .idle → (order s).find? (fun j => pending s j && enabled s j) = none
  serve_served : ∀ s s' i, Inv s → serve s = .served s' i → Inv s' ∧ handled i = true ∧ order s' = order s ∧
    (order s).find? (fun j => pending s j && enabled s j) = some i ∧
    (∀ j, pending s' j = (pending s j && decide (j ≠ i))) ∧ enabled s' = enabled s
  serve_fatal : ∀ s i, Inv s → serve s = .fatal i → handled i = false ∧
    (order s).find? (fun j => pending s j && enabled s j) = some i

inductive Op (L O : Type)
  | raise (i : L)
  | adjust (o : O)
  | serve

/-- The state that a run ends in, what was served on the way, and the request that has ended
it, if one has. -/
structure Outcome (S L : Type) where
  state : S
  served : List L
  fatal : Option L

namespace Controller
variable {S L O : Type} [DecidableEq L] (c : Controller S L O)

def requested (s : S) (j : L) : Bool := c.pending s j && c.enabled s j

def step (s : S) : Op L O → Outcome S L
  | .raise i => ⟨c.raise s i,[],none⟩
  | .adjust o => ⟨c.adjust s o,[],none⟩
  | .serve => match c.serve s with
    | .idle => ⟨s,[],none⟩
    | .served s' i => ⟨s',[i],none⟩
    | .fatal i => ⟨s,[],some i⟩

def run (s : S) : List (Op L O) → Outcome S L
  | [] => ⟨s,[],none⟩
  | op::ops =>
    if (c.step s op).fatal.isSome then c.step s op
    else
      let r := run (c.step s op).state ops
      { r with served := (c.step s op).served++r.served }

def raised (i : L) (ops : List (Op L O)) : ℕ :=
  ops.countP fun op => match op with
    | .raise j => decide (j = i)
    | _ => false

section Step
variable {c} {s : S}

theorem step_inv (h : c.Inv s) (op : Op L O) : c.Inv (c.step s op).state := by
  cases op with
  | raise i => exact c.raise_inv s i h
  | adjust o => exact c.adjust_inv s o h
  | serve =>
    rw [step]
    cases hserve : c.serve s with
    | idle => exact h
    | served s' i => exact (c.serve_served s s' i h hserve).1
    | fatal i => exact h

theorem step_balance (h : c.Inv s) (op : Op L O) (i : L) :
    (c.step s op).served.count i+(c.pending (c.step s op).state i).toNat ≤
      (c.pending s i).toNat+raised i [op] ∧
    (c.pending s i = true → i ∉ (c.step s op).served → c.pending (c.step s op).state i = true) := by
  cases op with
  | raise j =>
    simp only [step,raised,c.raise_pending s j i h]
    by_cases hji : j = i
    · by_cases hmem : i ∈ c.order s <;> cases c.pending s i <;> simp [hji,hmem]
    · have hij : i ≠ j := Ne.symm hji
      cases c.pending s i <;> simp [hji,hij]
  | adjust o =>
    simp only [step,raised,c.adjust_pending s o h]
    simp
  | serve =>
    simp only [step,raised]
    cases hserve : c.serve s with
    | idle => simp
    | fatal j => simp
    | served s' j =>
      obtain ⟨-,-,-,hfind,hpending,-⟩ := c.serve_served s s' j h hserve
      have hj := List.find?_some hfind
      simp only [Bool.and_eq_true] at hj
      by_cases hij : i = j
      · subst hij
        simp [hpending,hj.1]
      · have hji : j ≠ i := Ne.symm hij
        simp [hpending,hij,hji]

theorem step_fatal (h : c.Inv s) {op : Op L O} {i : L} (hfatal : (c.step s op).fatal = some i) :
    c.handled i = false ∧ (c.order (c.step s op).state).find? (c.requested (c.step s op).state) = some i := by
  cases op with
  | raise j => exact nomatch hfatal
  | adjust o => exact nomatch hfatal
  | serve =>
    rw [step] at hfatal ⊢
    cases hserve : c.serve s with
    | idle =>
      rw [hserve] at hfatal
      exact nomatch hfatal
    | served s' j =>
      rw [hserve] at hfatal
      exact nomatch hfatal
    | fatal j =>
      rw [hserve] at hfatal
      obtain rfl := Option.some.inj hfatal
      exact c.serve_fatal s j h hserve

theorem step_goes (hall : ∀ i, c.handled i = true) (h : c.Inv s) (op : Op L O) :
    ¬ (c.step s op).fatal.isSome := by
  intro hsome
  obtain ⟨i,hfatal⟩ := Option.isSome_iff_exists.mp hsome
  exact Bool.noConfusion ((hall i).symm.trans (step_fatal h hfatal).1)

end Step

section Run
variable {c} {s : S}

theorem raised_cons (i : L) (op : Op L O) (ops : List (Op L O)) :
    raised i (op::ops) = raised i [op]+raised i ops := by
  rw [raised,raised,raised,← List.countP_append,List.singleton_append]

theorem run_cons_fatal {op : Op L O} (hfatal : (c.step s op).fatal.isSome) (ops : List (Op L O)) :
    c.run s (op::ops) = c.step s op := if_pos hfatal

theorem run_cons {op : Op L O} (hgoes : ¬ (c.step s op).fatal.isSome) (ops : List (Op L O)) :
    c.run s (op::ops) = { c.run (c.step s op).state ops with
      served := (c.step s op).served++(c.run (c.step s op).state ops).served } := if_neg hgoes

theorem run_inv (h : c.Inv s) (ops : List (Op L O)) : c.Inv (c.run s ops).state := by
  induction ops generalizing s with
  | nil => exact h
  | cons op ops ih =>
    by_cases hfatal : (c.step s op).fatal.isSome
    · rw [run_cons_fatal hfatal]
      exact step_inv h op
    · rw [run_cons hfatal]
      exact ih (step_inv h op)

/-- No line is served more often than it was raised, and none that is not served is lost. -/
theorem run_balance (h : c.Inv s) (ops : List (Op L O)) (i : L) :
    (c.run s ops).served.count i+(c.pending (c.run s ops).state i).toNat ≤
      (c.pending s i).toNat+raised i ops ∧
    (c.pending s i = true → i ∉ (c.run s ops).served → c.pending (c.run s ops).state i = true) := by
  induction ops generalizing s with
  | nil => simp [run,raised]
  | cons op ops ih =>
    obtain ⟨hcount,hkeep⟩ := step_balance h op i
    rw [raised_cons]
    by_cases hfatal : (c.step s op).fatal.isSome
    · rw [run_cons_fatal hfatal]
      exact ⟨by omega,hkeep⟩
    obtain ⟨hcount',hkeep'⟩ := ih (step_inv h op)
    rw [run_cons hfatal]
    constructor
    · simp only [List.count_append]
      omega
    · intro hp hnot
      simp only [List.mem_append,not_or] at hnot
      exact hkeep' (hkeep hp hnot.1) hnot.2

theorem run_fatal (h : c.Inv s) {ops : List (Op L O)} {i : L} (hfatal : (c.run s ops).fatal = some i) :
    c.handled i = false ∧ (c.order (c.run s ops).state).find? (c.requested (c.run s ops).state) = some i := by
  induction ops generalizing s with
  | nil => exact nomatch hfatal
  | cons op ops ih =>
    by_cases hstep : (c.step s op).fatal.isSome
    · rw [run_cons_fatal hstep] at hfatal ⊢
      exact step_fatal h hfatal
    · rw [run_cons hstep] at hfatal ⊢
      exact ih (step_inv h op) hfatal

end Run

/-- Serving without new requests, `n` times at most. -/
def drain : ℕ → S → Outcome S L
  | 0, s => ⟨s,[],none⟩
  | n+1, s => match c.serve s with
    | .idle => ⟨s,[],none⟩
    | .fatal i => ⟨s,[],some i⟩
    | .served s' i =>
      let r := drain n s'
      { r with served := i::r.served }

/-- What is requested, in the order of priority. -/
def waiting (s : S) : List L := (c.order s).filter (c.requested s)

section Drain
variable {c} {s : S}

theorem waiting_nil (hnone : (c.order s).find? (c.requested s) = none) : c.waiting s = [] := by
  rw [waiting,List.filter_eq_nil_iff]
  exact List.find?_eq_none.mp hnone

theorem waiting_after {s' : S} {i : L} (h : c.Inv s) (hserve : c.serve s = .served s' i) :
    c.waiting s = i::c.waiting s' := by
  obtain ⟨-,-,horder,hfind,hpending,henabled⟩ := c.serve_served s s' i h hserve
  have hrest : ((c.order s).filter fun j => c.requested s j && decide (j ≠ i)) = c.waiting s' := by
    rw [waiting,horder]
    apply List.filter_congr
    intro j _
    rw [requested,requested,hpending j,henabled]
    cases c.pending s j <;> cases c.enabled s j <;> simp
  rw [← hrest]
  exact filter_of_find (c.nodup s) hfind

theorem waiting_fatal {i : L} (hfind : (c.order s).find? (c.requested s) = some i) :
    ∃ rest, c.waiting s = i::rest :=
  ⟨_,filter_of_find (c.nodup s) hfind⟩

/-- Everything that is requested is served once, in the order of priority, up to the first for
which no handler is there: that one ends the run. -/
theorem drain_eq {n : ℕ} {s : S} (h : c.Inv s) (hn : (c.waiting s).length ≤ n) :
    (c.drain n s).served = (c.waiting s).takeWhile c.handled ∧
    (c.drain n s).fatal = (c.waiting s).find? (fun i => !c.handled i) ∧
    ∀ j, c.pending (c.drain n s).state j = (c.pending s j && decide (j ∉ (c.drain n s).served)) := by
  induction n generalizing s with
  | zero =>
    have hnil : c.waiting s = [] := List.length_eq_zero_iff.mp (by omega)
    rw [hnil]
    exact ⟨rfl,rfl,fun j => by simp [drain]⟩
  | succ n ih =>
    rw [drain]
    cases hserve : c.serve s with
    | idle =>
      rw [waiting_nil (c.serve_idle s h hserve)]
      exact ⟨rfl,rfl,fun j => by simp⟩
    | fatal i =>
      obtain ⟨hhandled,hfind⟩ := c.serve_fatal s i h hserve
      obtain ⟨rest,hrest⟩ := waiting_fatal hfind
      rw [hrest]
      exact ⟨by simp [hhandled],by simp [hhandled],fun j => by simp⟩
    | served s' i =>
      obtain ⟨hinv,hhandled,-,-,hpending,-⟩ := c.serve_served s s' i h hserve
      have hwaiting := waiting_after h hserve
      rw [hwaiting,List.length_cons] at hn
      obtain ⟨hserved,hfatal,hend⟩ := ih hinv (by omega)
      dsimp only
      refine ⟨?_,?_,fun j => ?_⟩
      · rw [hwaiting,List.takeWhile_cons_of_pos hhandled,hserved]
      · rw [hwaiting,List.find?_cons,hhandled,hfatal]
        rfl
      · rw [hend j,hpending j]
        by_cases hji : j = i <;> simp [hji]

end Drain

end Controller

end PriorityService
end ValiantCore
