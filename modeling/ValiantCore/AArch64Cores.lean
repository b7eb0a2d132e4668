import ValiantCore.AArch64
import Mathlib.Logic.Function.Iterate

/-! A64 cores that run the same code on one memory. These instructions branch and store, but
they load nothing: what a core does depends on its own steps, however those of the others
come in between. A core leaves the code by a call. -/
namespace ValiantCore
namespace AArch64
namespace Cores

open Memory

/-- Where a core is: at an instruction of the code, or in a function that it has called. -/
inductive Spot (F : Type)
  | here (o : ℕ)
  | inside (f : F)
  deriving DecidableEq, Repr

/-- The flags are kept as what `b.ge` asks of them: that N and V are equal. -/
structure Cpu (F : Type) where
  x : Fin 31 → Word
  sp : Word
  ge : Bool
  spot : Spot F

/-- `mrs d, mpidr_el1`, `and d, n, #imm`, `cbz n, t`, `b t`, `b.ge t`, `ldr d, =v`, `mov sp, n`,
`cmp n, k`, `str xzr, [n], #imm`, `wfe` and `bl f`. -/
inductive Instr (F : Type)
  | mrsMpidr (d : Fin 31)
  | andImm (d n : Fin 31) (imm : Word)
  | cbz (n : Fin 31) (t : ℕ)
  | b (t : ℕ)
  | bge (t : ℕ)
  | ldrLiteral (d : Fin 31) (v : Word)
  | movToSp (n : Fin 31)
  | cmp (n k : Fin 31)
  | strZeroPost (n : Fin 31) (imm : Word)
  | wfe
  | bl (f : F)

/-- It stores nothing. -/
def Instr.plain {F : Type} : Instr F → Bool
  | .strZeroPost .. => false
  | _ => true

section Cpu
variable {F : Type} (code : List (Instr F)) (mpidr : Word)

def perform (o : ℕ) (c : Cpu F) : Instr F → Cpu F
  | .mrsMpidr d => { c with x := Function.update c.x d mpidr, spot := .here (o+1) }
  | .andImm d n imm => { c with x := Function.update c.x d (c.x n &&& imm), spot := .here (o+1) }
  | .cbz n t => { c with spot := .here (if c.x n = 0 then t else o+1) }
  | .b t => { c with spot := .here t }
  | .bge t => { c with spot := .here (if c.ge then t else o+1) }
  | .ldrLiteral d v => { c with x := Function.update c.x d v, spot := .here (o+1) }
  | .movToSp n => { c with sp := c.x n, spot := .here (o+1) }
  | .cmp n k => { c with ge := decide ((c.x k).toInt ≤ (c.x n).toInt), spot := .here (o+1) }
  | .strZeroPost n imm =>
    { c with x := Function.update c.x n (c.x n+imm), spot := .here (o+1) }
  | .wfe => { c with spot := .here (o+1) }
  | .bl f => { c with spot := .inside f }

/-- The next instruction of a core; a function that was called does not come back. -/
def next (c : Cpu F) : Cpu F :=
  match c.spot with
  | .inside _ => c
  | .here o =>
    match code[o]? with
    | none => c
    | some i => perform mpidr o c i

def stores (c : Cpu F) (m : Mem) : Mem :=
  match c.spot with
  | .inside _ => m
  | .here o =>
    match code[o]? with
    | some (.strZeroPost n _) => store64 m (c.x n) 0
    | _ => m

/-- A core and the memory, when no other core takes a step. -/
def own (p : Cpu F × Mem) : Cpu F × Mem := (next code mpidr p.1,stores code p.1 p.2)

theorem own_iterate_fst (k : ℕ) (p : Cpu F × Mem) :
    ((own code mpidr)^[k] p).1 = (next code mpidr)^[k] p.1 := by
  induction k generalizing p with
  | zero => rfl
  | succ k ih => exact ih _

variable {code mpidr}

theorem next_inside {c : Cpu F} {f : F} (h : c.spot = .inside f) : next code mpidr c = c := by
  rw [next,h]

theorem next_iterate_inside {c : Cpu F} {f : F} (h : c.spot = .inside f) (k : ℕ) :
    (next code mpidr)^[k] c = c := Function.iterate_fixed (next_inside h) k

/-- In `k` steps of its own a core comes from `p` to `q`. It calls no function before, and
outside of `A` it leaves the memory alone. -/
structure Runs (code : List (Instr F)) (mpidr : Word) (A : Set Word) (k : ℕ) (p q : Cpu F × Mem) :
    Prop where
  ends : (own code mpidr)^[k] p = q
  here : ∀ j < k, ∃ o, ((own code mpidr)^[j] p).1.spot = .here o
  keeps : ∀ j ≤ k, ∀ a ∉ A, ((own code mpidr)^[j] p).2 a = p.2 a

namespace Runs
variable {A : Set Word} {k l : ℕ} {p q r : Cpu F × Mem}

theorem refl (A : Set Word) (p : Cpu F × Mem) : Runs code mpidr A 0 p p where
  ends := rfl
  here j hj := absurd hj (Nat.not_lt_zero j)
  keeps j hj a _ := by rw [Nat.le_zero.mp hj,Function.iterate_zero_apply]

theorem trans (h : Runs code mpidr A k p q) (h' : Runs code mpidr A l q r) :
    Runs code mpidr A (k+l) p r := by
  have hlate : ∀ j, (own code mpidr)^[k+j] p = (own code mpidr)^[j] q := by
    intro j
    rw [Nat.add_comm,Function.iterate_add_apply,h.ends]
  refine ⟨(hlate l).trans h'.ends,fun j hj => ?_,fun j hj a ha => ?_⟩
  · by_cases hearly : j < k
    · exact h.here j hearly
    · obtain ⟨i,rfl⟩ := Nat.exists_eq_add_of_le (Nat.le_of_not_lt hearly)
      rw [hlate]
      exact h'.here i (Nat.lt_of_add_lt_add_left hj)
  · by_cases hearly : j ≤ k
    · exact h.keeps j hearly a ha
    · obtain ⟨i,rfl⟩ := Nat.exists_eq_add_of_le (Nat.le_of_not_le hearly)
      have hq : q.2 a = p.2 a := by
        rw [← h.ends]
        exact h.keeps k le_rfl a ha
      rw [hlate,h'.keeps i (Nat.le_of_add_le_add_left hj) a ha,hq]

theorem one {o : ℕ} {i : Instr F} (hspot : p.1.spot = .here o) (hcode : code[o]? = some i)
    (hmem : ∀ a ∉ A, stores code p.1 p.2 a = p.2 a) :
    Runs code mpidr A 1 p (perform mpidr o p.1 i,stores code p.1 p.2) where
  ends := by
    have hnext : next code mpidr p.1 = perform mpidr o p.1 i := by simp only [next,hspot,hcode]
    rw [Function.iterate_one,own,hnext]
  here j hj := by
    rw [Nat.lt_one_iff.mp hj]
    exact ⟨o,hspot⟩
  keeps j hj a ha := by
    rcases Nat.le_one_iff_eq_zero_or_eq_one.mp hj with rfl | rfl
    · rfl
    · exact hmem a ha

theorem plain {o : ℕ} {i : Instr F} {c c' : Cpu F} {m : Mem} (hspot : c.spot = .here o)
    (hcode : code[o]? = some i) (hi : i.plain = true)
    (hc : perform mpidr o c i = c') : Runs code mpidr A 1 (c,m) (c',m) := by
  have hmem : stores code c m = m := by
    simp only [stores,hspot,hcode]
    cases i with
    | strZeroPost n imm => exact absurd hi Bool.false_ne_true
    | _ => rfl
  have hone : Runs code mpidr A 1 (c,m) (perform mpidr o c i,stores code c m) :=
    one hspot hcode fun a _ => congrFun hmem a
  rwa [hc,hmem] at hone

theorem store {o : ℕ} {n : Fin 31} {imm : Word} {c c' : Cpu F} {m : Mem} (hspot : c.spot = .here o)
    (hcode : code[o]? = some (.strZeroPost n imm)) (hA : span (c.x n) 8 ⊆ A)
    (hc : perform mpidr o c (.strZeroPost n imm) = c') :
    Runs code mpidr A 1 (c,m) (c',store64 m (c.x n) 0) := by
  have hmem : stores code c m = store64 m (c.x n) 0 := by simp only [stores,hspot,hcode]
  have hkeeps : ∀ a ∉ A, stores code c m a = m a := by
    intro a ha
    rw [hmem]
    exact store64_of_notMem fun h => ha (hA h)
  have hone : Runs code mpidr A 1 (c,m) (perform mpidr o c (.strZeroPost n imm),stores code c m) :=
    one hspot hcode hkeeps
  rwa [hc,hmem] at hone

end Runs

end Cpu

structure Machine (ι F : Type) where
  cpus : ι → Cpu F
  mem : Mem

/-- A step of a core, or what the function that it has called writes. -/
inductive Event (ι : Type)
  | core (i : ι)
  | writes (i : ι) (m : Mem)

section Machine
variable {ι F : Type} [DecidableEq ι] (code : List (Instr F)) (mpidr : ι → Word)

def step (s : Machine ι F) : Event ι → Machine ι F
  | .core i =>
    { cpus := Function.update s.cpus i (next code (mpidr i) (s.cpus i))
      mem := stores code (s.cpus i) s.mem }
  | .writes i m =>
    match (s.cpus i).spot with
    | .inside _ => { s with mem := m }
    | .here _ => s

def run (s : Machine ι F) (es : List (Event ι)) : Machine ι F := es.foldl (step code mpidr) s

def turns (i : ι) : List (Event ι) → ℕ
  | [] => 0
  | .core j::es => if j = i then turns i es+1 else turns i es
  | .writes _ _::es => turns i es

theorem step_writes_cpus (s : Machine ι F) (i : ι) (m : Mem) :
    (step code mpidr s (.writes i m)).cpus = s.cpus := by
  simp only [step]
  split
  · rfl
  · rfl

theorem run_cpus (s : Machine ι F) (es : List (Event ι)) (i : ι) :
    (run code mpidr s es).cpus i = (next code (mpidr i))^[turns i es] (s.cpus i) := by
  induction es generalizing s with
  | nil => rfl
  | cons e es ih =>
    rw [run,List.foldl_cons]
    refine (ih _).trans ?_
    cases e with
    | core j =>
      rw [turns]
      by_cases heq : j = i
      · subst heq
        rw [if_pos rfl,Function.iterate_succ_apply]
        exact congrArg _ (Function.update_self ..)
      · rw [if_neg heq]
        exact congrArg _ (Function.update_of_ne (Ne.symm heq) ..)
    | writes j m => rw [turns,step_writes_cpus]

/-- A core that never calls a function and never stores. -/
def Quiet (mpidr : Word) (c : Cpu F) : Prop :=
  ∀ k, (∃ o, ((next code mpidr)^[k] c).spot = .here o) ∧
    ∀ m, stores code ((next code mpidr)^[k] c) m = m

variable {code mpidr}

theorem Quiet.next {mpidr : Word} {c : Cpu F} (h : Quiet code mpidr c) :
    Quiet code mpidr (Cores.next code mpidr c) := fun k => h (k+1)

theorem run_mem {s : Machine ι F} {i : ι} (hquiet : ∀ j ≠ i, Quiet code (mpidr j) (s.cpus j))
    {es : List (Event ι)} (hhere : ∀ k ≤ turns i es, ∃ o,
      ((own code (mpidr i))^[k] (s.cpus i,s.mem)).1.spot = .here o) :
    (run code mpidr s es).mem = ((own code (mpidr i))^[turns i es] (s.cpus i,s.mem)).2 := by
  induction es generalizing s with
  | nil => rfl
  | cons e es ih =>
    rw [run,List.foldl_cons]
    cases e with
    | core j =>
      by_cases heq : j = i
      · subst heq
        rw [turns,if_pos rfl] at hhere ⊢
        have hcpu : (step code mpidr s (.core j)).cpus j = Cores.next code (mpidr j) (s.cpus j) :=
          Function.update_self ..
        refine (ih (s := step code mpidr s (.core j)) (fun l hl => ?_) fun k hk => ?_).trans ?_
        · have hsame : (step code mpidr s (.core j)).cpus l = s.cpus l := Function.update_of_ne hl ..
          rw [hsame]
          exact hquiet l hl
        · rw [hcpu]
          exact hhere (k+1) (Nat.succ_le_succ hk)
        · rw [hcpu]
          rfl
      · rw [turns,if_neg heq] at hhere ⊢
        have hcpu : (step code mpidr s (.core j)).cpus i = s.cpus i :=
          Function.update_of_ne (Ne.symm heq) ..
        have hmem : (step code mpidr s (.core j)).mem = s.mem := (hquiet j heq 0).2 s.mem
        refine (ih (s := step code mpidr s (.core j)) (fun l hl => ?_) fun k hk => ?_).trans ?_
        · by_cases hlj : l = j
          · subst hlj
            have hnext : (step code mpidr s (.core l)).cpus l = Cores.next code (mpidr l) (s.cpus l) :=
              Function.update_self ..
            rw [hnext]
            exact (hquiet l hl).next
          · have hsame : (step code mpidr s (.core j)).cpus l = s.cpus l := Function.update_of_ne hlj ..
            rw [hsame]
            exact hquiet l hl
        · rw [hcpu,hmem]
          exact hhere k hk
        · rw [hcpu,hmem]
    | writes j m =>
      -- nobody has called a function
      have hspot : ∃ o, (s.cpus j).spot = .here o := by
        by_cases heq : j = i
        · subst heq
          exact hhere 0 (Nat.zero_le _)
        · exact (hquiet j heq 0).1
      obtain ⟨o,ho⟩ := hspot
      have hsame : step code mpidr s (.writes j m) = s := by simp only [step,ho]
      rw [hsame]
      exact ih hquiet hhere

end Machine

end Cores
end AArch64
end ValiantCore
