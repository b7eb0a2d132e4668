import ValiantCore.Memory

/-! The part of the x86-64 instruction set that saves and restores registers on a stack:
pushes and pops of doublewords, the delivery of an interrupt and the return from it. Every
access succeeds; `rip` is followed across deliveries and returns only. -/
namespace ValiantCore
namespace X86Stack

open Memory

/-- The general registers without `rsp`. -/
inductive Reg
  | rax | rbx | rcx | rdx | rsi | rdi | rbp | r8 | r9 | r10 | r11 | r12 | r13 | r14 | r15
  deriving DecidableEq

structure Machine where
  r : Reg → Word
  rsp : Word
  rip : Word
  cs : Word
  rflags : Word
  ss : Word
  mem : Mem

namespace Machine

def push (m : Machine) (w : Word) : Machine :=
  { m with rsp := m.rsp-8, mem := store64 m.mem (m.rsp-8) w }

def pop (m : Machine) (k : Reg) : Machine :=
  { m with r := Function.update m.r k (load64 m.mem m.rsp), rsp := m.rsp+8 }

@[simp] theorem push_rsp (m : Machine) (w : Word) : (m.push w).rsp = m.rsp-8 := rfl
@[simp] theorem push_mem (m : Machine) (w : Word) :
    (m.push w).mem = store64 m.mem (m.rsp-8) w := rfl
@[simp] theorem pop_r (m : Machine) (k : Reg) :
    (m.pop k).r = Function.update m.r k (load64 m.mem m.rsp) := rfl

def pushes (m : Machine) : List Word → Machine
  | [] => m
  | w::ws => (m.push w).pushes ws

def pops (m : Machine) : List Reg → Machine
  | [] => m
  | k::ks => (m.pop k).pops ks

section Pushes
variable (m : Machine) (ws : List Word)

theorem pushes_eq : m.pushes ws = { m with
    rsp := m.rsp-BitVec.ofNat 64 (8*ws.length), mem := (m.pushes ws).mem } := by
  induction ws generalizing m with
  | nil => simp [pushes]
  | cons w ws ih =>
    have hrsp : m.rsp-8-BitVec.ofNat 64 (8*ws.length) =
        m.rsp-BitVec.ofNat 64 (8*(ws.length+1)) := by
      bv_omega
    rw [pushes,ih,List.length_cons]
    simp only [push,hrsp]

@[simp] theorem pushes_r : (m.pushes ws).r = m.r := by rw [pushes_eq]
theorem pushes_rsp : (m.pushes ws).rsp = m.rsp-BitVec.ofNat 64 (8*ws.length) := by rw [pushes_eq]
@[simp] theorem pushes_append (vs : List Word) : m.pushes (ws++vs) = (m.pushes ws).pushes vs := by
  induction ws generalizing m with
  | nil => rfl
  | cons w ws ih => exact ih _

theorem pushes_congr {m m' : Machine} (hrsp : m.rsp = m'.rsp) (hmem : m.mem = m'.mem) :
    (m.pushes ws).mem = (m'.pushes ws).mem := by
  induction ws generalizing m m' with
  | nil => exact hmem
  | cons w ws ih => exact ih (congrArg (·-8) hrsp) (by rw [push_mem,push_mem,hrsp,hmem])

variable {m ws}

theorem pushes_mem {b : Word} (hlen : 8*ws.length < 2^64)
    (hb : b ∉ span (m.rsp-BitVec.ofNat 64 (8*ws.length)) (8*ws.length)) :
    (m.pushes ws).mem b = m.mem b := by
  induction ws generalizing m with
  | nil => rfl
  | cons w ws ih =>
    rw [List.length_cons] at hlen hb
    rw [mem_span] at hb
    have hrest : b ∉ span ((m.push w).rsp-BitVec.ofNat 64 (8*ws.length)) (8*ws.length) := by
      rw [mem_span,push_rsp]
      bv_omega
    have hfirst : b ∉ span (m.rsp-8) 8 := by
      rw [mem_span]
      bv_omega
    rw [pushes,ih (by omega) hrest,push_mem,store64_of_notMem hfirst]

theorem pushes_holds {vs : List Word} (hlen : 8*ws.length+8*vs.length ≤ 2^64)
    (hm : Holds m.mem m.rsp vs) : Holds (m.pushes ws).mem (m.pushes ws).rsp (ws.reverse++vs) := by
  induction ws generalizing m vs with
  | nil => exact hm
  | cons w ws ih =>
    rw [List.length_cons] at hlen
    have hback : m.rsp-8+8 = m.rsp := by bv_omega
    have htop : Holds (m.push w).mem (m.push w).rsp (w::vs) :=
      Holds.push_one (by omega) (by rwa [hback])
    rw [pushes,List.reverse_cons,List.append_assoc]
    have hlen' : 8*ws.length+8*(w::vs).length ≤ 2^64 := by
      rw [List.length_cons]
      omega
    exact ih hlen' htop

end Pushes

section Pops
variable {m : Machine} {ks : List Reg}

theorem pops_eq (m : Machine) (ks : List Reg) : m.pops ks = { m with
    r := (m.pops ks).r, rsp := m.rsp+BitVec.ofNat 64 (8*ks.length) } := by
  induction ks generalizing m with
  | nil => simp [pops]
  | cons k ks ih =>
    have hrsp : m.rsp+8+BitVec.ofNat 64 (8*ks.length) =
        m.rsp+BitVec.ofNat 64 (8*(ks.length+1)) := by
      bv_omega
    rw [pops,ih,List.length_cons]
    simp only [pop,hrsp]

theorem pops_of_notMem {k : Reg} (hk : k ∉ ks) : (m.pops ks).r k = m.r k := by
  induction ks generalizing m with
  | nil => rfl
  | cons j ks ih =>
    simp only [List.mem_cons,not_or] at hk
    rw [pops,ih hk.2,pop_r,Function.update_of_ne hk.1]

theorem pops_of_holds {v : Reg → Word} (hm : Holds m.mem m.rsp (ks.map v)) {k : Reg} (hk : k ∈ ks) :
    (m.pops ks).r k = v k := by
  induction ks generalizing m with
  | nil => simp at hk
  | cons j ks ih =>
    rw [pops]
    by_cases hmem : k ∈ ks
    · exact ih hm.2 hmem
    · have hj : k = j := by simpa [hmem] using hk
      rw [pops_of_notMem hmem,pop_r,hj,Function.update_self,hm.1]

theorem holds_of_pops {v : Reg → Word} (hks : ks.Nodup) (h : ∀ k ∈ ks, (m.pops ks).r k = v k) :
    Holds m.mem m.rsp (ks.map v) := by
  induction ks generalizing m with
  | nil => trivial
  | cons j ks ih =>
    obtain ⟨hj,hks⟩ := List.nodup_cons.mp hks
    have hfirst := h j List.mem_cons_self
    rw [pops,pops_of_notMem hj,pop_r,Function.update_self] at hfirst
    have hrest : ∀ k ∈ ks, ((m.pop j).pops ks).r k = v k := fun k hk => h k (List.mem_cons_of_mem j hk)
    exact ⟨hfirst,ih hks hrest⟩

end Pops

def aligned (m : Machine) : Machine := { m with rsp := m.rsp &&& ~~~0xf }

theorem split_mask (x k : Word) : x = (x &&& ~~~k)+(x &&& k) := by
  have hzero : (x &&& ~~~k) &&& (x &&& k) = 0 := by
    ext i hi
    simp only [BitVec.getElem_and,BitVec.getElem_not]
    cases x[i] <;> cases k[i] <;> simp
  rw [BitVec.add_eq_or_of_and_eq_zero _ _ hzero]
  ext i hi
  simp only [BitVec.getElem_or,BitVec.getElem_and,BitVec.getElem_not]
  cases x[i] <;> cases k[i] <;> rfl

theorem aligned_rsp (m : Machine) : ∃ d : Word, d.toNat < 16 ∧ m.rsp = m.aligned.rsp+d := by
  refine ⟨m.rsp &&& 0xf,?_,split_mask m.rsp 0xf⟩
  rw [BitVec.toNat_and]
  exact Nat.lt_succ_of_le Nat.and_le_right

def interrupted (m : Machine) : List Word := [m.ss,m.rsp,m.rflags,m.cs,m.rip]

/-- The processor delivers an interrupt through a 64-bit interrupt gate without a stack of its
own: it aligns the stack, saves where it was, clears IF, TF, NT and RF and goes to the gate.
Some exceptions push an error code. -/
def deliver (gate selector : Word) (code : List Word) (m : Machine) : Machine :=
  { m.aligned.pushes (m.interrupted++code) with
    rflags := m.rflags &&& ~~~0x14300
    cs := selector
    rip := gate }

section Deliver
variable (gate selector : Word) (code : List Word) (m : Machine)

theorem deliver_r : (m.deliver gate selector code).r = m.r := pushes_r m.aligned _
theorem deliver_rsp : (m.deliver gate selector code).rsp =
    (m.aligned.pushes (m.interrupted++code)).rsp := rfl
theorem deliver_mem : (m.deliver gate selector code).mem =
    (m.aligned.pushes (m.interrupted++code)).mem := rfl

theorem deliver_pushes_mem (ws : List Word) : ((m.deliver gate selector code).pushes ws).mem =
    (m.aligned.pushes (m.interrupted++code++ws)).mem := by
  rw [pushes_append]
  exact pushes_congr ws (deliver_rsp gate selector code m) (deliver_mem gate selector code m)

theorem deliver_pushes_rsp (ws : List Word) : ((m.deliver gate selector code).pushes ws).rsp =
    m.aligned.rsp-BitVec.ofNat 64 (8*(m.interrupted++code++ws).length) := by
  have hlen : (m.interrupted++code++ws).length = (m.interrupted++code).length+ws.length :=
    List.length_append
  rw [pushes_rsp,deliver_rsp,pushes_rsp,hlen]
  bv_omega

end Deliver

def iretq (m : Machine) : Machine :=
  { m with
    rip := load64 m.mem m.rsp
    cs := load64 m.mem (m.rsp+8)
    rflags := load64 m.mem (m.rsp+8+8)
    rsp := load64 m.mem (m.rsp+8+8+8)
    ss := load64 m.mem (m.rsp+8+8+8+8) }

theorem iretq_of_holds {m : Machine} {rip cs rflags rsp ss : Word}
    (h : Holds m.mem m.rsp [rip,cs,rflags,rsp,ss]) :
    m.iretq = { m with rip := rip, cs := cs, rflags := rflags, rsp := rsp, ss := ss } := by
  obtain ⟨hrip,hcs,hrflags,hrsp,hss,-⟩ := h
  rw [iretq,hrip,hcs,hrflags,hrsp,hss]

end Machine

end X86Stack
end ValiantCore
