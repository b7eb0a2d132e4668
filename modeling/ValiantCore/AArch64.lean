import ValiantCore.Memory

/-! The part of the A64 instruction set that saves and restores registers on a stack:
pair stores and loads with write-back, moves from and to `sp`, and the return.
Every access succeeds; alignment and translation faults are left out. -/
namespace ValiantCore
namespace AArch64

open Memory

/-- Register numbers are literals of `Fin 31`. -/
instance neZeroRegisters : NeZero 31 := ⟨by decide⟩

/-- The registers `x0` to `x30` and `sp`, the program counter, and memory. -/
structure Machine where
  x : Fin 31 → Word
  sp : Word
  pc : Word
  mem : Mem

/-- `stp t₁, t₂, [sp, #imm]!`, `ldp t₁, t₂, [sp], #imm`, `mov d, sp`, `mov sp, n`,
`str t, [n]` and `ret`. -/
inductive Instr
  | stpPre (t₁ t₂ : Fin 31) (imm : Word)
  | ldpPost (t₁ t₂ : Fin 31) (imm : Word)
  | movFromSp (d : Fin 31)
  | movToSp (n : Fin 31)
  | str (t n : Fin 31)
  | ret

def step (m : Machine) : Instr → Machine
  | .stpPre t₁ t₂ imm =>
    let a := m.sp+imm
    { m with mem := store64 (store64 m.mem a (m.x t₁)) (a+8) (m.x t₂), sp := a, pc := m.pc+4 }
  | .ldpPost t₁ t₂ imm =>
    { m with
      x := Function.update (Function.update m.x t₁ (load64 m.mem m.sp)) t₂ (load64 m.mem (m.sp+8))
      sp := m.sp+imm
      pc := m.pc+4 }
  | .movFromSp d => { m with x := Function.update m.x d m.sp, pc := m.pc+4 }
  | .movToSp n => { m with sp := m.x n, pc := m.pc+4 }
  | .str t n => { m with mem := store64 m.mem (m.x n) (m.x t), pc := m.pc+4 }
  | .ret => { m with pc := m.x 30 }

section Step
variable (m : Machine) (t₁ t₂ : Fin 31) (imm : Word)

@[simp] theorem step_stpPre_x : (step m (.stpPre t₁ t₂ imm)).x = m.x := rfl
@[simp] theorem step_stpPre_sp : (step m (.stpPre t₁ t₂ imm)).sp = m.sp+imm := rfl
@[simp] theorem step_stpPre_mem : (step m (.stpPre t₁ t₂ imm)).mem =
    store64 (store64 m.mem (m.sp+imm) (m.x t₁)) (m.sp+imm+8) (m.x t₂) := rfl
@[simp] theorem step_ldpPost_x : (step m (.ldpPost t₁ t₂ imm)).x =
    Function.update (Function.update m.x t₁ (load64 m.mem m.sp)) t₂ (load64 m.mem (m.sp+8)) := rfl
@[simp] theorem step_ldpPost_sp : (step m (.ldpPost t₁ t₂ imm)).sp = m.sp+imm := rfl
@[simp] theorem step_ldpPost_mem : (step m (.ldpPost t₁ t₂ imm)).mem = m.mem := rfl
@[simp] theorem step_ret_x : (step m .ret).x = m.x := rfl
@[simp] theorem step_ret_sp : (step m .ret).sp = m.sp := rfl
@[simp] theorem step_ret_pc : (step m .ret).pc = m.x 30 := rfl
@[simp] theorem step_ret_mem : (step m .ret).mem = m.mem := rfl

end Step

def exec (m : Machine) : List Instr → Machine
  | [] => m
  | i::is => exec (step m i) is

@[simp] theorem exec_nil (m : Machine) : exec m [] = m := rfl
@[simp] theorem exec_cons (m : Machine) (i : Instr) (is : List Instr) :
    exec m (i::is) = exec (step m i) is := rfl

theorem exec_append (m : Machine) (is js : List Instr) : exec m (is++js) = exec (exec m is) js := by
  induction is generalizing m with
  | nil => rfl
  | cons i is ih => exact ih _

abbrev Pairs := List (Fin 31 × Fin 31)

def push (ps : Pairs) : List Instr := ps.map fun p => .stpPre p.1 p.2 (-16)
def pop (ps : Pairs) : List Instr := ps.map fun p => .ldpPost p.1 p.2 16

@[simp] theorem exec_push_cons (m : Machine) (p : Fin 31 × Fin 31) (ps : Pairs) :
    exec m (push (p::ps)) = exec (step m (.stpPre p.1 p.2 (-16))) (push ps) := by
  simp only [push,List.map_cons,exec]
@[simp] theorem exec_pop_cons (m : Machine) (p : Fin 31 × Fin 31) (ps : Pairs) :
    exec m (pop (p::ps)) = exec (step m (.ldpPost p.1 p.2 16)) (pop ps) := by
  simp only [pop,List.map_cons,exec]

/-- The registers of the pairs, in the order in which they lie in memory. -/
def regs (ps : Pairs) : List (Fin 31) := ps.flatMap fun p => [p.1,p.2]

@[simp] theorem regs_nil : regs [] = [] := rfl
@[simp] theorem regs_cons (p : Fin 31 × Fin 31) (ps : Pairs) :
    regs (p::ps) = p.1::p.2::regs ps := rfl
@[simp] theorem regs_append (ps qs : Pairs) : regs (ps++qs) = regs ps++regs qs := by
  simp [regs]

section Push
variable (m : Machine) (ps : Pairs)

@[simp] theorem exec_push_x : (exec m (push ps)).x = m.x := by
  induction ps generalizing m with
  | nil => rfl
  | cons p ps ih => rw [exec_push_cons,ih,step_stpPre_x]

theorem exec_push_sp : (exec m (push ps)).sp = m.sp-BitVec.ofNat 64 (16*ps.length) := by
  induction ps generalizing m with
  | nil => simp [push]
  | cons p ps ih =>
    rw [exec_push_cons,ih,step_stpPre_sp,List.length_cons]
    bv_omega

variable {m ps}

theorem exec_push_mem {b : Word} (hlen : 16*ps.length < 2^64)
    (hb : b ∉ span (m.sp-BitVec.ofNat 64 (16*ps.length)) (16*ps.length)) :
    (exec m (push ps)).mem b = m.mem b := by
  induction ps generalizing m with
  | nil => rfl
  | cons p ps ih =>
    rw [List.length_cons] at hlen hb
    rw [mem_span] at hb
    have htail : b ∉ span ((step m (.stpPre p.1 p.2 (-16))).sp-BitVec.ofNat 64 (16*ps.length))
        (16*ps.length) := by
      rw [mem_span,step_stpPre_sp]
      bv_omega
    have hlow : b ∉ span (m.sp+(-16)) 8 := by
      rw [mem_span]
      bv_omega
    have hhigh : b ∉ span (m.sp+(-16)+8) 8 := by
      rw [mem_span]
      bv_omega
    rw [exec_push_cons,ih (by omega) htail,step_stpPre_mem,store64_of_notMem hhigh,
      store64_of_notMem hlow]

theorem exec_push_holds {ws : List Word} (hlen : 16*ps.length+8*ws.length ≤ 2^64)
    (hm : Holds m.mem m.sp ws) :
    Holds (exec m (push ps)).mem (exec m (push ps)).sp ((regs ps.reverse).map m.x++ws) := by
  induction ps generalizing m ws with
  | nil => exact hm
  | cons p ps ih =>
    rw [List.length_cons] at hlen
    have htop : Holds (step m (.stpPre p.1 p.2 (-16))).mem (step m (.stpPre p.1 p.2 (-16))).sp
        (m.x p.1::m.x p.2::ws) := by
      rw [step_stpPre_mem,step_stpPre_sp]
      apply Holds.push (by omega)
      have hback : m.sp+(-16)+16 = m.sp := by bv_omega
      rwa [hback]
    have hrest := ih (by simp only [List.length_cons]; omega) htop
    rw [exec_push_cons,List.reverse_cons,regs_append,List.map_append,List.append_assoc]
    rwa [step_stpPre_x] at hrest

end Push

section Pop
variable (m : Machine) (ps : Pairs)

@[simp] theorem exec_pop_mem : (exec m (pop ps)).mem = m.mem := by
  induction ps generalizing m with
  | nil => rfl
  | cons p ps ih => rw [exec_pop_cons,ih,step_ldpPost_mem]

theorem exec_pop_sp : (exec m (pop ps)).sp = m.sp+BitVec.ofNat 64 (16*ps.length) := by
  induction ps generalizing m with
  | nil => simp [pop]
  | cons p ps ih =>
    rw [exec_pop_cons,ih,step_ldpPost_sp,List.length_cons]
    bv_omega

variable {m ps}

theorem exec_pop_x_of_notMem {k : Fin 31} (hk : k ∉ regs ps) : (exec m (pop ps)).x k = m.x k := by
  induction ps generalizing m with
  | nil => rfl
  | cons p ps ih =>
    simp only [regs_cons,List.mem_cons,not_or] at hk
    rw [exec_pop_cons,ih hk.2.2,step_ldpPost_x,Function.update_of_ne hk.2.1,
      Function.update_of_ne hk.1]

theorem exec_pop_x {v : Fin 31 → Word} (hm : Holds m.mem m.sp ((regs ps).map v)) {k : Fin 31}
    (hk : k ∈ regs ps) : (exec m (pop ps)).x k = v k := by
  induction ps generalizing m with
  | nil => simp at hk
  | cons p ps ih =>
    obtain ⟨hfst,hsnd,hrest⟩ := hm
    have hnext : Holds (step m (.ldpPost p.1 p.2 16)).mem (step m (.ldpPost p.1 p.2 16)).sp
        ((regs ps).map v) := by
      rwa [BitVec.add_assoc] at hrest
    rw [exec_pop_cons]
    by_cases hmem : k ∈ regs ps
    · exact ih hnext hmem
    · rw [exec_pop_x_of_notMem hmem,step_ldpPost_x,hfst,hsnd]
      by_cases h₂ : k = p.2
      · rw [h₂,Function.update_self]
      · have h₁ : k = p.1 := by simpa [hmem,h₂] using hk
        rw [Function.update_of_ne h₂,h₁,Function.update_self]

end Pop

end AArch64
end ValiantCore
