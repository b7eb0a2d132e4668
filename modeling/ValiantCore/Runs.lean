import Mathlib.Algebra.BigOperators.Group.List.Basic
import Mathlib.Data.List.Induction
import Mathlib.Tactic.Cases

/-! Runs of a deterministic machine that answers every operation.
A run is a list of operations; its prefixes are the states passed through.
The rules here are the inductions over runs that a verification needs once:
invariants, exact guards and balances, and the end of the runs whose schedule is fair. -/
namespace ValiantCore
namespace Runs

/-- What one step of a run shows: the state it starts in, the operation, the answer. -/
structure Event (S Op Out : Type) where
  before : S
  op : Op
  out : Out

variable {S Op Out : Type}

def exec (step : S → Op → S × Out) (s : S) : List Op → S
  | [] => s
  | op::ops => exec step (step s op).1 ops

def trace (step : S → Op → S × Out) (s : S) : List Op → List (Event S Op Out)
  | [] => []
  | op::ops => ⟨s,op,(step s op).2⟩ :: trace step (step s op).1 ops

section Basic
variable (step : S → Op → S × Out)

@[simp] theorem exec_nil (s : S) : exec step s [] = s := rfl
@[simp] theorem exec_cons (s : S) (op : Op) (ops : List Op) :
    exec step s (op::ops) = exec step (step s op).1 ops := rfl
@[simp] theorem trace_nil (s : S) : trace step s [] = [] := rfl
@[simp] theorem trace_cons (s : S) (op : Op) (ops : List Op) :
    trace step s (op::ops) = ⟨s,op,(step s op).2⟩ :: trace step (step s op).1 ops := rfl

theorem exec_append (s : S) (xs ys : List Op) :
    exec step s (xs++ys) = exec step (exec step s xs) ys := by
  induction xs generalizing s with
  | nil => rfl
  | cons x xs ih => exact ih _

theorem exec_concat (s : S) (ops : List Op) (op : Op) :
    exec step s (ops++[op]) = (step (exec step s ops) op).1 := by
  rw [exec_append]
  rfl

theorem trace_append (s : S) (xs ys : List Op) :
    trace step s (xs++ys) = trace step s xs ++ trace step (exec step s xs) ys := by
  induction xs generalizing s with
  | nil => rfl
  | cons x xs ih => simp [ih]

theorem trace_concat (s : S) (ops : List Op) (op : Op) :
    trace step s (ops++[op]) =
      trace step s ops ++ [⟨exec step s ops,op,(step (exec step s ops) op).2⟩] := by
  simp [trace_append]

theorem exec_map {T Out' : Type} {step' : T → Op → T × Out'} (f : S → T)
    (hstep : ∀ s op, f (step s op).1 = (step' (f s) op).1) (s : S) (ops : List Op) :
    f (exec step s ops) = exec step' (f s) ops := by
  induction ops generalizing s with
  | nil => rfl
  | cons op ops ih => rw [exec_cons,exec_cons,ih,hstep]

theorem exec_invariant (Inv : S → Prop) (hstep : ∀ s op, Inv s → Inv (step s op).1)
    {s : S} (hs : Inv s) (ops : List Op) : Inv (exec step s ops) := by
  induction ops generalizing s with
  | nil => exact hs
  | cons op ops ih => exact ih (hstep s op hs)

theorem trace_simulates {T : Type} {step' : T → Op → T × Out} {R : S → T → Prop}
    (hstep : ∀ s t op, R s t → (step s op).2 = (step' t op).2 ∧ R (step s op).1 (step' t op).1)
    {s : S} {t : T} (h : R s t) (ops : List Op) :
    (trace step s ops).map Event.out = (trace step' t ops).map Event.out ∧
      R (exec step s ops) (exec step' t ops) := by
  induction ops generalizing s t with
  | nil => exact ⟨rfl,h⟩
  | cons op ops ih =>
    obtain ⟨hout,hnext⟩ := hstep s t op h
    obtain ⟨houts,hend⟩ := ih hnext
    refine ⟨?_,hend⟩
    rw [trace_cons,trace_cons,List.map_cons,List.map_cons,houts,hout]

end Basic

/-- Every step of the run `ops` is taken, after its prefix, under the guard `P`. -/
def EveryStep (P : List Op → Op → Prop) (ops : List Op) : Prop :=
  ∀ pre op, pre++[op] <+: ops → P pre op

/-- The property `Q` holds after every prefix of the run, the empty one included. -/
def Always (Q : List Op → Prop) (ops : List Op) : Prop :=
  ∀ pre, pre <+: ops → Q pre

theorem prefix_of_concat {pre ops : List Op} {op : Op} (h : pre++[op] <+: ops) : pre <+: ops :=
  (List.prefix_append pre [op]).trans h

theorem mem_of_concat {pre ops : List Op} {op : Op} (h : pre++[op] <+: ops) : op ∈ ops :=
  h.subset (by simp)

theorem everyStep_nil (P : List Op → Op → Prop) : EveryStep P [] := by
  intro pre op h
  simp at h

theorem everyStep_concat (P : List Op → Op → Prop) (ops : List Op) (op : Op) :
    EveryStep P (ops++[op]) ↔ EveryStep P ops ∧ P ops op := by
  constructor
  · exact fun h => ⟨fun pre o hpre => h pre o (hpre.trans (List.prefix_append ops [op])),
      h ops op (List.prefix_refl _)⟩
  · rintro ⟨h,hop⟩ pre o hpre
    rcases List.prefix_concat_iff.mp hpre with heq | hearlier
    · obtain ⟨rfl,hlast⟩ := List.append_inj' heq rfl
      obtain rfl : o = op := by simpa using hlast
      exact hop
    · exact h pre o hearlier

theorem everyStep_cons (step : S → Op → S × Out) (P : S → Op → Prop) (s : S) (op : Op)
    (ops : List Op) :
    EveryStep (fun pre o => P (exec step s pre) o) (op::ops) ↔
      P s op ∧ EveryStep (fun pre o => P (exec step (step s op).1 pre) o) ops := by
  constructor
  · intro h
    refine ⟨h [] op (by simp),fun pre o hpre => ?_⟩
    exact h (op::pre) o (by simpa using hpre)
  · rintro ⟨hop,h⟩ pre o hpre
    cases pre with
    | nil =>
      obtain rfl : o = op := by simpa using hpre
      exact hop
    | cons p pre =>
      obtain ⟨hp,htail⟩ := List.cons_prefix_cons.mp hpre
      rw [hp]
      exact h pre o htail

theorem everyStep_const (P : Op → Prop) (ops : List Op) :
    EveryStep (fun _ op => P op) ops ↔ ∀ op ∈ ops, P op := by
  constructor
  · intro h op hop
    obtain ⟨pre,post,rfl⟩ := List.append_of_mem hop
    exact h pre op (by simp)
  · exact fun h pre op hpre => h op (mem_of_concat hpre)

/-- Where the answers of a step are good just under the guard `P`, those of a run are good
just if every step of it is guarded. -/
theorem trace_forall_iff (step : S → Op → S × Out) (Inv : S → Prop) (P : S → Op → Prop) (Good : Out → Prop)
    (hstep : ∀ s op, Inv s → Inv (step s op).1) (hgood : ∀ s op, Inv s → (Good (step s op).2 ↔ P s op))
    {s : S} (hs : Inv s) (ops : List Op) :
    (∀ e ∈ trace step s ops, Good e.out) ↔ EveryStep (fun pre op => P (exec step s pre) op) ops := by
  induction ops generalizing s with
  | nil => exact iff_of_true (by simp) (everyStep_nil _)
  | cons op ops ih =>
    rw [everyStep_cons step P,trace_cons,List.forall_mem_cons,ih (hstep s op hs),hgood s op hs]

theorem always_of_everyStep {R : List Op → Prop} {P : List Op → Op → Prop} (hnil : R [])
    (hgood : ∀ pre op, R pre → P pre op → R (pre++[op])) {ops : List Op}
    (h : EveryStep P ops) : Always R ops := by
  intro pre hpre
  induction pre using List.reverseRecOn with
  | nil => exact hnil
  | append_singleton pre op ih => exact hgood pre op (ih (prefix_of_concat hpre)) (h pre op hpre)

/-- The guard is exact: as long as the invariant `R` holds, keeping the property `Q`
is the same as taking the next step under the guard `P`. -/
theorem always_iff_everyStep {Q R : List Op → Prop} {P : List Op → Op → Prop} (hnil : R [])
    (hgood : ∀ pre op, R pre → P pre op → R (pre++[op])) (hQ : ∀ pre, R pre → Q pre)
    (hbad : ∀ pre op, R pre → Q (pre++[op]) → P pre op) (ops : List Op) :
    Always Q ops ↔ EveryStep P ops := by
  constructor
  · intro h
    have hR : Always R ops := by
      intro pre hpre
      induction pre using List.reverseRecOn with
      | nil => exact hnil
      | append_singleton pre op ih =>
        have hr := ih (prefix_of_concat hpre)
        exact hgood pre op hr (hbad pre op hr (h _ hpre))
    intro pre op hpre
    exact hbad pre op (hR pre (prefix_of_concat hpre)) (h _ hpre)
  · intro h pre hpre
    exact hQ pre (always_of_everyStep hnil hgood h pre hpre)

section Balance
variable (step : S → Op → S × Out) {M : Type} [AddMonoid M]
  (inflow outflow : Event S Op Out → M) (stock : S → M)

/-- What flows in is what flowed out and what is still in stock, over any guarded run. -/
theorem exec_balance (P : S → Op → Prop)
    (hstep : ∀ s op, P s op → outflow ⟨s,op,(step s op).2⟩ + stock (step s op).1 =
      stock s + inflow ⟨s,op,(step s op).2⟩) {s : S} {ops : List Op}
    (h : EveryStep (fun pre op => P (exec step s pre) op) ops) :
    ((trace step s ops).map outflow).sum + stock (exec step s ops) =
      stock s + ((trace step s ops).map inflow).sum := by
  induction ops generalizing s with
  | nil => simp
  | cons op ops ih =>
    obtain ⟨hop,htail⟩ := (everyStep_cons step P s op ops).mp h
    calc
      _ = outflow ⟨s,op,(step s op).2⟩ +
          (((trace step (step s op).1 ops).map outflow).sum + stock (exec step (step s op).1 ops)) := by
        simp [add_assoc]
      _ = (outflow ⟨s,op,(step s op).2⟩ + stock (step s op).1) +
          ((trace step (step s op).1 ops).map inflow).sum := by rw [ih htail,add_assoc]
      _ = _ := by rw [hstep s op hop]; simp [add_assoc]

/-- A balance of lists, as a measure of lists sees it that turns `++` into `+`. -/
theorem exec_ledger {A : Type} (inflow outflow : Event S Op Out → List A) (stock : S → List A)
    (measure : List A → M) (hnil : measure [] = 0)
    (happend : ∀ xs ys, measure (xs++ys) = measure xs+measure ys) (P : S → Op → Prop)
    (hstep : ∀ s op, P s op →
      measure (outflow ⟨s,op,(step s op).2⟩)+measure (stock (step s op).1) =
        measure (stock s)+measure (inflow ⟨s,op,(step s op).2⟩)) {s : S} {ops : List Op}
    (h : EveryStep (fun pre op => P (exec step s pre) op) ops) :
    measure ((trace step s ops).flatMap outflow)+measure (stock (exec step s ops)) =
      measure (stock s)+measure ((trace step s ops).flatMap inflow) := by
  have hsum : ∀ (f : Event S Op Out → List A) (es : List (Event S Op Out)),
      (es.map fun e => measure (f e)).sum = measure (es.flatMap f) := by
    intro f es
    induction es with
    | nil => simp [hnil]
    | cons e es ih => rw [List.map_cons,List.sum_cons,ih,List.flatMap_cons,happend]
  rw [← hsum,← hsum]
  exact exec_balance step (fun e => measure (inflow e)) (fun e => measure (outflow e))
    (fun s => measure (stock s)) P hstep h

end Balance

section Fair
variable {T : Type} {move : S → T → S} {turns : ℕ → T} {s : S}

/-- The state after the first turns of a schedule that never ends. -/
def after (move : S → T → S) (s : S) (turns : ℕ → T) : ℕ → S
  | 0 => s
  | n+1 => move (after move s turns n) (turns n)

def Recurs (turns : ℕ → T) (t : T) : Prop := ∀ n, ∃ m ≥ n, turns m = t

theorem after_eq_foldl (move : S → T → S) (s : S) (turns : ℕ → T) (n : ℕ) :
    after move s turns n = ((List.range n).map turns).foldl move s := by
  induction n with
  | zero => rfl
  | succ n ih => rw [after,ih,List.range_succ,List.map_append,List.foldl_append]; rfl

theorem after_invariant (Inv : S → Prop) (hstep : ∀ s t, Inv s → Inv (move s t)) (h : Inv s) (n : ℕ) :
    Inv (after move s turns n) := by
  induction n with
  | zero => exact h
  | succ n ih => exact hstep _ _ ih

variable {Inv : S → Prop} {work : S → ℕ}

/-- Where each turn takes from the work that is left or changes nothing, so do any number of
turns. -/
theorem after_same_or_less (hstep : ∀ s t, Inv s → Inv (move s t))
    (hless : ∀ s t, Inv s → move s t = s ∨ work (move s t) < work s) (h : Inv s) {n m : ℕ} (hm : n ≤ m) :
    after move s turns m = after move s turns n ∨ work (after move s turns m) < work (after move s turns n) := by
  induction hm with
  | refl => exact Or.inl rfl
  | @step m hm ih =>
    rcases hless _ (turns m) (after_invariant Inv hstep h m) with hsame | hlt
    · rw [after,hsame]
      exact ih
    · rcases ih with heq | hlt'
      · exact Or.inr (heq ▸ hlt)
      · exact Or.inr (Nat.lt_trans hlt hlt')

/-- If some turn that comes again and again can always take from the work that is left, then
none is left from some moment on, and nothing changes any more. -/
theorem exists_done (hstep : ∀ s t, Inv s → Inv (move s t))
    (hless : ∀ s t, Inv s → move s t = s ∨ work (move s t) < work s)
    (hhelp : ∀ s, Inv s → work s ≠ 0 → ∃ t, Recurs turns t ∧ work (move s t) < work s) (h : Inv s) :
    ∃ n, work (after move s turns n) = 0 ∧ ∀ m ≥ n, after move s turns m = after move s turns n := by
  have hend : ∀ k n, work (after move s turns n) ≤ k → ∃ n, work (after move s turns n) = 0 := by
    intro k
    induction k with
    | zero => exact fun n hn => ⟨n,Nat.le_zero.mp hn⟩
    | succ k ih =>
      intro n hn
      by_cases hzero : work (after move s turns n) = 0
      · exact ⟨n,hzero⟩
      obtain ⟨t,hrecurs,hlt⟩ := hhelp _ (after_invariant Inv hstep h n) hzero
      obtain ⟨m,hm,hturn⟩ := hrecurs n
      rcases after_same_or_less hstep hless h hm with hsame | hdone
      · -- nothing has happened up to the turn that helps
        refine ih (m+1) ?_
        rw [after,hturn,hsame]
        omega
      · exact ih m (by omega)
  obtain ⟨n,hn⟩ := hend _ 0 (Nat.le_refl _)
  refine ⟨n,hn,fun m hm => ?_⟩
  exact (after_same_or_less hstep hless h hm).resolve_right (by omega)

end Fair

end Runs
end ValiantCore
