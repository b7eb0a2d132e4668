import ValiantCore.Runs
import Mathlib.Algebra.FreeMonoid.Basic
import Mathlib.Data.Nat.ModEq
import Mathlib.Logic.Function.Basic

/-! Bounded queues. The abstract queue is the list of what waits in it; the ring buffer
keeps it in `n` cells between two indices, and is empty when they are equal, so that one
cell always stays free. -/
namespace ValiantCore

inductive Request (α : Type)
  | push (x : α)
  | pop

namespace Fifo

variable {α : Type}

/-- A queue that holds `cap` things: what is pushed when it is full is dropped. -/
def push (cap : ℕ) (q : List α) (x : α) : List α := if q.length < cap then q++[x] else q

def step (cap : ℕ) (q : List α) : Request α → List α × Option α
  | .push x => (push cap q x,none)
  | .pop => (q.tail,q.head?)

def accepted (cap : ℕ) (e : Runs.Event (List α) (Request α) (Option α)) : List α :=
  match e.op with
  | .push x => if e.before.length < cap then [x] else []
  | .pop => []

def returned (e : Runs.Event (List α) (Request α) (Option α)) : List α := e.out.toList

theorem returned_append_waiting (cap : ℕ) (rs : List (Request α)) :
    (Runs.trace (step cap) [] rs).flatMap returned ++ Runs.exec (step cap) [] rs =
      (Runs.trace (step cap) [] rs).flatMap (accepted cap) := by
  have hledger := Runs.exec_ledger (step cap) (accepted cap) returned id FreeAddMonoid.ofList rfl
    (fun _ _ => rfl) (fun _ _ => True) ?_ (s := ([] : List α))
    (show Runs.EveryStep _ rs from fun _ _ _ => trivial)
  · exact FreeAddMonoid.ofList.injective hledger
  · intro q r _
    apply congrArg FreeAddMonoid.ofList
    change returned _ ++ (step cap q r).1 = q ++ accepted cap _
    cases r with
    | push x =>
      by_cases hroom : q.length < cap <;> simp [returned,accepted,step,push,hroom]
    | pop => cases q <;> simp [returned,accepted,step]

theorem length_le (cap : ℕ) (rs : List (Request α)) : (Runs.exec (step cap) [] rs).length ≤ cap := by
  refine Runs.exec_invariant (step cap) (fun q => q.length ≤ cap) ?_ (by simp) rs
  intro q r hq
  cases r with
  | push x =>
    simp only [step,push]
    split_ifs with hroom
    · rw [List.length_append,List.length_singleton]
      omega
    · exact hq
  | pop =>
    simp only [step,List.length_tail]
    omega

end Fifo

/-- The cells, the place for the next thing and the place of the oldest one. -/
structure RingBuffer (α : Type) where
  cells : ℕ → α
  head : ℕ
  tail : ℕ

namespace RingBuffer

variable {α : Type} {n : ℕ} {r : RingBuffer α} {q : List α}

def push (n : ℕ) (r : RingBuffer α) (x : α) : RingBuffer α :=
  if (r.head+1) % n = r.tail then r
  else { r with cells := Function.update r.cells r.head x, head := (r.head+1) % n }

def pop (n : ℕ) (r : RingBuffer α) : RingBuffer α × Option α :=
  if r.head = r.tail then (r,none) else ({ r with tail := (r.tail+1) % n },some (r.cells r.tail))

def step (n : ℕ) (r : RingBuffer α) : Request α → RingBuffer α × Option α
  | .push x => (r.push n x,none)
  | .pop => r.pop n

/-- The ring holds the list `q`, from its tail on. -/
structure Holds (n : ℕ) (r : RingBuffer α) (q : List α) : Prop where
  tail_lt : r.tail < n
  length_lt : q.length < n
  head_eq : r.head = (r.tail+q.length) % n
  cell : ∀ i x, q[i]? = some x → r.cells ((r.tail+i) % n) = x

theorem Holds.head_lt (h : Holds n r q) : r.head < n := by
  rw [h.head_eq]
  exact Nat.mod_lt _ (Nat.zero_lt_of_lt h.tail_lt)

theorem turn_injective {t i j : ℕ} (hi : i < n) (hj : j < n) (h : (t+i) % n = (t+j) % n) : i = j := by
  have hmod : i % n = j % n := Nat.ModEq.add_left_cancel' t h
  rwa [Nat.mod_eq_of_lt hi,Nat.mod_eq_of_lt hj] at hmod

theorem Holds.empty_iff (h : Holds n r q) : r.head = r.tail ↔ q = [] := by
  rw [h.head_eq,← List.length_eq_zero_iff]
  constructor
  · intro heq
    apply turn_injective h.length_lt (Nat.zero_lt_of_lt h.tail_lt) (t := r.tail)
    rw [heq,Nat.add_zero,Nat.mod_eq_of_lt h.tail_lt]
  · intro hlen
    rw [hlen,Nat.add_zero,Nat.mod_eq_of_lt h.tail_lt]

theorem Holds.full_iff (h : Holds n r q) : (r.head+1) % n = r.tail ↔ q.length+1 = n := by
  have hnext : (r.head+1) % n = (r.tail+(q.length+1)) % n := by
    rw [h.head_eq,Nat.mod_add_mod,Nat.add_assoc]
  rw [hnext]
  constructor
  · intro heq
    by_contra hroom
    have hlt : q.length+1 < n := by
      have := h.length_lt
      omega
    have hzero := turn_injective (t := r.tail) hlt (Nat.zero_lt_of_lt hlt)
      (heq.trans (by rw [Nat.add_zero,Nat.mod_eq_of_lt h.tail_lt]))
    omega
  · intro hfull
    rw [hfull,Nat.add_mod_right,Nat.mod_eq_of_lt h.tail_lt]

theorem Holds.push (h : Holds n r q) (x : α) : Holds n (r.push n x) (Fifo.push (n-1) q x) := by
  by_cases hfull : q.length+1 = n
  · rw [RingBuffer.push,if_pos (h.full_iff.mpr hfull),Fifo.push,if_neg (by omega)]
    exact h
  · have hroom : q.length+1 < n := by
      have := h.length_lt
      omega
    rw [RingBuffer.push,if_neg (mt h.full_iff.mp hfull),Fifo.push,if_pos (by omega)]
    refine ⟨h.tail_lt,by simpa using hroom,?_,?_⟩
    · rw [h.head_eq,Nat.mod_add_mod,List.length_append,List.length_singleton,Nat.add_assoc]
    · intro i y hi
      rcases Nat.lt_or_ge i q.length with hold | hnew
      · rw [List.getElem?_append_left hold] at hi
        have hne : (r.tail+i) % n ≠ r.head := by
          intro heq
          rw [h.head_eq] at heq
          have := turn_injective (Nat.lt_trans hold h.length_lt) h.length_lt heq
          omega
        exact (Function.update_of_ne hne x r.cells).trans (h.cell i y hi)
      · rw [List.getElem?_append_right hnew] at hi
        obtain ⟨hlast,rfl⟩ := List.getElem?_eq_some_iff.mp hi
        have hi0 : i = q.length := by
          rw [List.length_singleton] at hlast
          omega
        subst hi0
        simp only [← h.head_eq]
        simp

theorem Holds.pop (h : Holds n r q) : Holds n (r.pop n).1 q.tail ∧ (r.pop n).2 = q.head? := by
  cases q with
  | nil =>
    rw [RingBuffer.pop,if_pos (h.empty_iff.mpr rfl)]
    exact ⟨h,rfl⟩
  | cons x q =>
    have hfirst : r.cells r.tail = x := by
      have := h.cell 0 x rfl
      rwa [Nat.add_zero,Nat.mod_eq_of_lt h.tail_lt] at this
    rw [RingBuffer.pop,if_neg (mt h.empty_iff.mp (by simp)),hfirst]
    refine ⟨⟨Nat.mod_lt _ (Nat.zero_lt_of_lt h.tail_lt),Nat.lt_of_succ_lt h.length_lt,?_,?_⟩,rfl⟩
    · rw [h.head_eq,List.length_cons,List.tail_cons,Nat.mod_add_mod]
      congr 1
      omega
    · intro i y hi
      rw [Nat.mod_add_mod,Nat.add_assoc,Nat.add_comm 1 i]
      exact h.cell (i+1) y (by simpa using hi)

theorem Holds.step (h : Holds n r q) (req : Request α) :
    Holds n (r.step n req).1 (Fifo.step (n-1) q req).1 ∧
      (r.step n req).2 = (Fifo.step (n-1) q req).2 := by
  cases req with
  | push x => exact ⟨h.push x,rfl⟩
  | pop => exact h.pop

theorem Holds.exec (h : Holds n r q) (rs : List (Request α)) :
    Holds n (Runs.exec (RingBuffer.step n) r rs) (Runs.exec (Fifo.step (n-1)) q rs) := by
  induction rs generalizing r q with
  | nil => exact h
  | cons req rs ih => exact ih (h.step req).1

end RingBuffer
end ValiantCore
