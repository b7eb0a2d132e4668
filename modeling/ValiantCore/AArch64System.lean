import ValiantCore.AArch64

/-! The part of the A64 instruction set that enters and leaves an exception at EL1: frames
that are addressed from `sp`, the exception registers, calls and `eret`; and an assembler
that places code with `.align`. Every access succeeds. -/
namespace ValiantCore
namespace AArch64System

open Memory
open AArch64 (Pairs regs regs_nil regs_cons)

/-- The registers `x0` to `x30`, `sp` of EL1, `pc`, the process state, the exception registers
and memory. -/
structure Core where
  x : Fin 31 → Word
  sp : Word
  pc : Word
  pstate : Word
  elr : Word
  spsr : Word
  esr : Word
  mem : Mem

/-- Instructions that go on to the next one. -/
inductive Plain
  | subSp (n : Word)
  | addSp (n : Word)
  | stp (t₁ t₂ : Fin 31) (off : Word)
  | str (t : Fin 31) (off : Word)
  | ldp (t₁ t₂ : Fin 31) (off : Word)
  | ldr (t : Fin 31) (off : Word)
  | mrsEsr (d : Fin 31)
  | mrsElr (d : Fin 31)
  | mov (d : Fin 31) (v : Word)
  deriving DecidableEq

/-- `H` names the functions that are called; `b` goes to an offset from the table. -/
inductive Instr (H : Type)
  | plain (p : Plain)
  | bl (h : H)
  | b (target : ℕ)
  | eret
  deriving DecidableEq

namespace Plain

def step (m : Core) : Plain → Core
  | .subSp n => { m with sp := m.sp-n, pc := m.pc+4 }
  | .addSp n => { m with sp := m.sp+n, pc := m.pc+4 }
  | .stp t₁ t₂ off =>
    { m with
      mem := store64 (store64 m.mem (m.sp+off) (m.x t₁)) (m.sp+off+8) (m.x t₂), pc := m.pc+4 }
  | .str t off => { m with mem := store64 m.mem (m.sp+off) (m.x t), pc := m.pc+4 }
  | .ldp t₁ t₂ off =>
    { m with
      x := Function.update (Function.update m.x t₁ (load64 m.mem (m.sp+off))) t₂
        (load64 m.mem (m.sp+off+8))
      pc := m.pc+4 }
  | .ldr t off => { m with x := Function.update m.x t (load64 m.mem (m.sp+off)), pc := m.pc+4 }
  | .mrsEsr d => { m with x := Function.update m.x d m.esr, pc := m.pc+4 }
  | .mrsElr d => { m with x := Function.update m.x d m.elr, pc := m.pc+4 }
  | .mov d v => { m with x := Function.update m.x d v, pc := m.pc+4 }

theorem step_pc (m : Core) (p : Plain) : (step m p).pc = m.pc+4 := by
  cases p <;> rfl

def exec (m : Core) : List Plain → Core
  | [] => m
  | p::ps => exec (step m p) ps

@[simp] theorem exec_nil (m : Core) : exec m [] = m := rfl
@[simp] theorem exec_cons (m : Core) (p : Plain) (ps : List Plain) :
    exec m (p::ps) = exec (step m p) ps := rfl

theorem exec_append (m : Core) (ps qs : List Plain) : exec m (ps++qs) = exec (exec m ps) qs := by
  induction ps generalizing m with
  | nil => rfl
  | cons p ps ih => exact ih _

/-- Pairs stored from the offset `o` on, and loaded again. -/
def stps (o : ℕ) : Pairs → List Plain
  | [] => []
  | p::ps => .stp p.1 p.2 (BitVec.ofNat 64 o)::stps (o+16) ps

def ldps (o : ℕ) : Pairs → List Plain
  | [] => []
  | p::ps => .ldp p.1 p.2 (BitVec.ofNat 64 o)::ldps (o+16) ps

theorem exec_stps (m : Core) (o : ℕ) (ps : Pairs) :
    exec m (stps o ps) = { m with
      mem := storeAll m.mem (m.sp+BitVec.ofNat 64 o) ((regs ps).map m.x)
      pc := m.pc+BitVec.ofNat 64 (4*ps.length) } := by
  induction ps generalizing m o with
  | nil => simp [stps,storeAll]
  | cons p ps ih =>
    have hnext : m.sp+BitVec.ofNat 64 (o+16) = m.sp+BitVec.ofNat 64 o+8+8 := by bv_omega
    have hpc : m.pc+4+BitVec.ofNat 64 (4*ps.length) = m.pc+BitVec.ofNat 64 (4*(ps.length+1)) := by
      bv_omega
    rw [stps,exec_cons,ih]
    simp only [step,regs_cons,List.map_cons,storeAll,List.length_cons,hnext,hpc]

def loaded (mem : Mem) (a : Word) (x : Fin 31 → Word) : Pairs → Fin 31 → Word
  | [] => x
  | p::ps => loaded mem (a+16)
    (Function.update (Function.update x p.1 (load64 mem a)) p.2 (load64 mem (a+8))) ps

theorem exec_ldps (m : Core) (o : ℕ) (ps : Pairs) :
    exec m (ldps o ps) = { m with
      x := loaded m.mem (m.sp+BitVec.ofNat 64 o) m.x ps
      pc := m.pc+BitVec.ofNat 64 (4*ps.length) } := by
  induction ps generalizing m o with
  | nil => simp [ldps,loaded]
  | cons p ps ih =>
    have hnext : m.sp+BitVec.ofNat 64 (o+16) = m.sp+BitVec.ofNat 64 o+16 := by bv_omega
    have hpc : m.pc+4+BitVec.ofNat 64 (4*ps.length) = m.pc+BitVec.ofNat 64 (4*(ps.length+1)) := by
      bv_omega
    rw [ldps,exec_cons,ih]
    simp only [step,loaded,List.length_cons,hnext,hpc]

theorem loaded_of_notMem {mem : Mem} {a : Word} {x : Fin 31 → Word} {ps : Pairs} {k : Fin 31}
    (hk : k ∉ regs ps) : loaded mem a x ps k = x k := by
  induction ps generalizing a x with
  | nil => rfl
  | cons p ps ih =>
    simp only [regs_cons,List.mem_cons,not_or] at hk
    rw [loaded,ih hk.2.2,Function.update_of_ne hk.2.1,Function.update_of_ne hk.1]

theorem loaded_of_holds {mem : Mem} {a : Word} {x v : Fin 31 → Word} {ps : Pairs} {k : Fin 31}
    (hm : Holds mem a ((regs ps).map v)) (hk : k ∈ regs ps) : loaded mem a x ps k = v k := by
  induction ps generalizing a x with
  | nil => simp at hk
  | cons p ps ih =>
    obtain ⟨hfst,hsnd,hrest⟩ := hm
    have hnext : Holds mem (a+16) ((regs ps).map v) := by
      rwa [BitVec.add_assoc] at hrest
    rw [loaded]
    by_cases hmem : k ∈ regs ps
    · exact ih hnext hmem
    · rw [loaded_of_notMem hmem,hfst,hsnd]
      by_cases h₂ : k = p.2
      · rw [h₂,Function.update_self]
      · have h₁ : k = p.1 := by simpa [hmem,h₂] using hk
        rw [Function.update_of_ne h₂,h₁,Function.update_self]

end Plain

/-- The functions that `bl` reaches: what they make of the machine, unless they never return.
A return is to the link register. -/
structure Calls (H : Type) where
  call : H → Core → Option Core
  returns : ∀ {h m m'}, call h m = some m' → m'.pc = m.x 30

section Step
variable {H : Type} (base : Word) (C : Calls H)

def step (m : Core) : Instr H → Option Core
  | .plain p => some (p.step m)
  | .bl h => C.call h { m with x := Function.update m.x 30 (m.pc+4) }
  | .b target => some { m with pc := base+BitVec.ofNat 64 target }
  | .eret => some { m with pc := m.elr, pstate := m.spsr }

def exec (m : Core) : List (Instr H) → Option Core
  | [] => some m
  | i::is => (step base C m i).bind fun m' => exec m' is

/-- Instructions fetched from code that lies at offsets from `base`, `n` of them at most, until
an `eret` has been carried out. -/
def runToEret (code : ℕ → Option (Instr H)) : ℕ → Core → Option Core
  | 0, _ => none
  | n+1, m =>
    match code (m.pc-base).toNat with
    | none => none
    | some .eret => step base C m .eret
    | some i => (step base C m i).bind fun m' => runToEret code n m'

theorem exec_append (m : Core) (is js : List (Instr H)) :
    exec base C m (is++js) = (exec base C m is).bind fun m' => exec base C m' js := by
  induction is generalizing m with
  | nil => rfl
  | cons i is ih =>
    rw [List.cons_append,exec,exec,Option.bind_assoc]
    exact Option.bind_congr fun m' _ => ih m'

theorem exec_plain (m : Core) (ps : List Plain) :
    exec base C m (ps.map .plain) = some (Plain.exec m ps) := by
  induction ps generalizing m with
  | nil => rfl
  | cons p ps ih => exact ih _

/-- The instruction lies before another one: it is neither a branch nor `eret`. -/
def Instr.falls : Instr H → Bool
  | .plain _ => true
  | .bl _ => true
  | .b _ => false
  | .eret => false

variable {base C}

theorem step_pc {m m' : Core} {i : Instr H} (hi : i.falls = true) (h : step base C m i = some m') :
    m'.pc = m.pc+4 := by
  cases i with
  | plain p =>
    cases h
    exact Plain.step_pc m p
  | bl f =>
    have hret : m'.pc = Function.update m.x 30 (m.pc+4) 30 := C.returns h
    rwa [Function.update_self] at hret
  | b t => simp [Instr.falls] at hi
  | eret => simp [Instr.falls] at hi

/-- The code from offset `o` on begins with the instructions `is`. -/
def Placed (code : ℕ → Option (Instr H)) : ℕ → List (Instr H) → Prop
  | _, [] => True
  | o, i::is => code o = some i ∧ Placed code (o+4) is

instance decidablePlaced [DecidableEq H] (code : ℕ → Option (Instr H)) (o : ℕ) (is : List (Instr H)) :
    Decidable (Placed code o is) :=
  match is with
  | [] => isTrue trivial
  | i::is => @instDecidableAnd (code o = some i) (Placed code (o+4) is) _
    (decidablePlaced code (o+4) is)

theorem runToEret_falls {code : ℕ → Option (Instr H)} {m : Core} {i : Instr H} {n : ℕ}
    (hcode : code (m.pc-base).toNat = some i) (hi : i.falls = true) :
    runToEret base C code (n+1) m = (step base C m i).bind fun m' => runToEret base C code n m' := by
  cases i with
  | plain p => simp only [runToEret,hcode]
  | bl f => simp only [runToEret,hcode]
  | b t => simp [Instr.falls] at hi
  | eret => simp [Instr.falls] at hi

/-- Code that does not branch before its `eret` runs in the order in which it lies. -/
theorem runToEret_placed {code : ℕ → Option (Instr H)} {is : List (Instr H)} {o n : ℕ} {m : Core}
    (hplaced : Placed code o (is++[.eret])) (hfalls : ∀ i ∈ is, i.falls = true)
    (ho : o+4*is.length < 2^64) (hn : is.length < n) (hpc : m.pc = base+BitVec.ofNat 64 o) :
    runToEret base C code n m = exec base C m (is++[.eret]) := by
  induction is generalizing o n m with
  | nil =>
    have hoff : (m.pc-base).toNat = o := by
      rw [hpc,offset_self,BitVec.toNat_ofNat,Nat.mod_eq_of_lt (by omega)]
    obtain ⟨k,rfl⟩ := Nat.exists_eq_add_of_lt hn
    simp only [runToEret,hoff,hplaced.1,List.nil_append,exec,step,Option.bind_some]
  | cons i is ih =>
    obtain ⟨hi,hrest⟩ := hplaced
    rw [List.length_cons] at ho hn
    have hoff : (m.pc-base).toNat = o := by
      rw [hpc,offset_self,BitVec.toNat_ofNat,Nat.mod_eq_of_lt (by omega)]
    obtain ⟨k,rfl⟩ := Nat.exists_eq_add_of_lt hn
    have hfall := hfalls i List.mem_cons_self
    rw [runToEret_falls (by rw [hoff,hi]) hfall,List.cons_append,exec]
    apply Option.bind_congr
    intro m' hm'
    have hnext : m'.pc = base+BitVec.ofNat 64 (o+4) := by
      rw [step_pc hfall hm',hpc]
      bv_omega
    exact ih hrest (fun j hj => hfalls j (List.mem_cons_of_mem i hj)) (by omega) (by omega) hnext

end Step

section Assembler
variable {H : Type}

/-- A line of assembly: an instruction, or `.align n`. -/
inductive Line (H : Type)
  | instr (i : Instr H)
  | align (n : ℕ)

def alignUp (n o : ℕ) : ℕ := (o+2^n-1)/2^n*2^n

def place (o : ℕ) : List (Line H) → List (ℕ × Instr H)
  | [] => []
  | .instr i::ls => (o,i)::place (o+4) ls
  | .align n::ls => place (alignUp n o) ls

end Assembler

end AArch64System
end ValiantCore
