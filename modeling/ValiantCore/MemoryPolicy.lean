import ValiantCore.SecurityEngine

/-! What `security_check_memory` and the system calls that ask it let through
(`security/security.rs`, `kernel/syscalls.c`). Only the first address is compared with the
kernel's band, so a range that starts below it and ends inside passes. -/
namespace ValiantCore
namespace MemoryPolicy

open Halting SecurityEngine

/-- The call returns 0, in some state. -/
def Passes {S : Type} (x : HaltM S ℤ) : Prop := ∃ s s', x s = .ok (0,s')

section Passing
variable {S A : Type}

theorem passes_zero [Nonempty S] : Passes (pure 0 : HaltM S ℤ) := by
  obtain ⟨s⟩ : Nonempty S := inferInstance
  exact ⟨s,s,rfl⟩

theorem not_passes_neg : ¬ Passes (pure (-1) : HaltM S ℤ) := by
  rintro ⟨s,s',h⟩
  simp at h

theorem not_passes_bind {x : HaltM S A} {f : A → HaltM S ℤ} (hf : ∀ a, ¬ Passes (f a)) :
    ¬ Passes (x >>= f) := by
  rintro ⟨s,s'',h⟩
  obtain ⟨a,s',-,h'⟩ := bind_eq_ok_iff.mp h
  exact hf a ⟨s',s'',h'⟩

theorem checked_eq_ok_iff {x y : HaltM S ℤ} {s s'' : S} :
    (do let r ← x; if r ≠ 0 then pure (-1) else y : HaltM S ℤ) s = .ok (0,s'') ↔
      ∃ s', x s = .ok (0,s') ∧ y s' = .ok (0,s'') := by
  rw [bind_eq_ok_iff]
  constructor
  · rintro ⟨r,s',hx,hy⟩
    split_ifs at hy with hr
    · simp at hy
    · rw [not_not] at hr
      exact ⟨s',hr ▸ hx,hy⟩
  · rintro ⟨s',hx,hy⟩
    exact ⟨0,s',hx,by simpa using hy⟩

end Passing

/-- `security_check_memory(addr, size)` returns 0. -/
def Approves (w : AddrT) (addr size : ℕ) : Prop := Passes (securityCheckMemory w addr size)

/-- The first address lies below the kernel or, on x86_64, above its band. -/
def Allowed (w : AddrT) (addr size : ℕ) : Prop :=
  match w with
  | .u64 =>
    0x1000 ≤ addr ∧ (addr < 0xFFFF800000000000 ∨ 0xFFFFFFFF80000000 ≤ addr) ∧ addr+size < 2^64
  | .u32 => 0x1000 ≤ addr ∧ addr ≤ 0xC0000000

/-- An engine on a chip that answers 0. -/
def quietBoot : Engine := boot ⟨fun _ => 0,fun _ => 0,fun _ => 0⟩

instance nonemptyEngine : Nonempty Engine := ⟨quietBoot⟩

theorem checkAddress64_passes {addr size : ℕ} (hsize : size ≤ 0x40000000) :
    Passes (checkAddress64 addr size) ↔ Allowed .u64 addr size := by
  unfold checkAddress64 Allowed
  split_ifs with hzero hkernel hwrap
  · apply iff_of_false (not_passes_bind fun _ => not_passes_bind fun _ => not_passes_neg)
    omega
  · apply iff_of_false (not_passes_bind fun _ => not_passes_bind fun _ => not_passes_neg)
    omega
  · apply iff_of_false (not_passes_bind fun _ => not_passes_neg)
    unfold u64 at hwrap
    omega
  · apply iff_of_true passes_zero
    unfold u64 at hwrap
    omega

theorem checkAddress32_passes (addr size : ℕ) :
    Passes (checkAddress32 addr) ↔ Allowed .u32 addr size := by
  unfold checkAddress32 Allowed
  split_ifs with hzero hkernel
  · apply iff_of_false (not_passes_bind fun _ => not_passes_bind fun _ => not_passes_neg)
    omega
  · apply iff_of_false (not_passes_bind fun _ => not_passes_bind fun _ => not_passes_neg)
    omega
  · apply iff_of_true passes_zero
    omega

theorem approves_iff (w : AddrT) (addr size : ℕ) :
    Approves w addr size ↔ 0 < size ∧ size ≤ 0x40000000 ∧ Allowed w addr size := by
  unfold Approves securityCheckMemory
  split_ifs with hsize hnull
  · apply iff_of_false (not_passes_bind fun _ => not_passes_bind fun _ => not_passes_neg)
    omega
  · apply iff_of_false (not_passes_bind fun _ => not_passes_neg)
    cases w <;> unfold Allowed <;> omega
  · have hpos : 0 < size ∧ size ≤ 0x40000000 := by omega
    rw [← and_assoc,and_iff_right hpos]
    cases w with
    | u64 => exact checkAddress64_passes hpos.2
    | u32 => exact checkAddress32_passes addr size

/-- The range does not wrap, and each of its addresses is approved by itself. -/
def RangeApproved (w : AddrT) (addr size : ℕ) : Prop :=
  addr+size < 2^w.bits ∧ ∀ b, addr ≤ b → b < addr+size → Approves w b 1

/-- The first address the kernel keeps for itself. -/
def kernelStart : AddrT → ℕ
  | .u64 => 0xFFFF800000000000
  | .u32 => 0xC0000001

/-- A range of acceptable size that starts in user space and reaches into the kernel. -/
def Straddles (w : AddrT) (addr size : ℕ) : Prop :=
  0 < size ∧ size ≤ 0x40000000 ∧ 0x1000 ≤ addr ∧ addr < kernelStart w ∧ kernelStart w < addr+size

theorem rangeApproved_iff (w : AddrT) {addr size : ℕ} (h : Approves w addr size) :
    RangeApproved w addr size ↔ ¬ Straddles w addr size := by
  obtain ⟨hpos,hmax,hallowed⟩ := (approves_iff w addr size).mp h
  simp only [RangeApproved,approves_iff]
  constructor
  · -- the first address of the kernel lies in a range that straddles
    rintro ⟨-,hall⟩ ⟨-,-,-,hstart,hend⟩
    have hkernel := hall (kernelStart w) hstart.le hend
    cases w <;> simp only [Allowed,kernelStart] at hkernel <;> omega
  · intro hnot
    cases w <;> simp only [Straddles,Allowed,kernelStart,AddrT.bits] at hnot hallowed ⊢ <;>
      refine ⟨by omega,fun b hb hlt => by omega⟩

structure Syscalls where
  engine : Engine
  syscallCount : ℕ
  blockedCount : ℕ

def blockedSyscalls : List ℕ := [0x80,0x77,0x65,0xFF]

def onEngine {A : Type} (x : HaltM Engine A) : HaltM Syscalls A := fun s =>
  match x s.engine with
  | .ok (a,e) => .ok (a,{ s with engine := e })
  | .error e => .error { s with engine := e }

def sysSecurityAudit (syscallId : ℕ) : HaltM Syscalls ℤ := do
  modify fun s => { s with syscallCount := u32 (s.syscallCount+1) }
  if syscallId ∈ blockedSyscalls then do
    modify fun s => { s with blockedCount := u32 (s.blockedCount+1) }
    let _ ← onEngine (hw (.securityChipAlert syscallId 0 3))
    pure (-1)
  else pure 0

def sysValidateArgs (w : AddrT) (syscallId addr size : ℕ) : HaltM Syscalls ℤ := do
  let audit ← sysSecurityAudit syscallId
  if audit ≠ 0 then pure (-1)
  else if addr = 0 ∨ size = 0 then pure (-1)
  else do
    let check ← onEngine (securityCheckMemory w addr size)
    if check ≠ 0 then pure (-1) else pure 0

theorem sysSecurityAudit_eq_zero_iff {syscallId : ℕ} {s s' : Syscalls} :
    sysSecurityAudit syscallId s = .ok (0,s') ↔
      syscallId ∉ blockedSyscalls ∧ s' = { s with syscallCount := u32 (s.syscallCount+1) } := by
  by_cases hid : syscallId ∈ blockedSyscalls
  · apply iff_of_false
    · intro h
      have hno : ¬ Passes (sysSecurityAudit syscallId) := by
        simp only [sysSecurityAudit,if_pos hid]
        exact not_passes_bind fun _ => not_passes_bind fun _ => not_passes_bind fun _ => not_passes_neg
      exact hno ⟨s,s',h⟩
    · exact fun h => h.1 hid
  · rw [and_iff_right hid]
    have hrun : sysSecurityAudit syscallId s = .ok (0,{ s with syscallCount := u32 (s.syscallCount+1) }) := by
      simp only [sysSecurityAudit,if_neg hid]
      rfl
    rw [hrun,Except.ok.injEq,Prod.mk.injEq,eq_comm (a := s')]
    exact and_iff_right rfl

theorem onEngine_eq_ok_iff {A : Type} {x : HaltM Engine A} {a : A} {s s' : Syscalls} :
    onEngine x s = .ok (a,s') ↔ ∃ e, x s.engine = .ok (a,e) ∧ s' = { s with engine := e } := by
  simp only [onEngine]
  cases x s.engine with
  | error e => simp
  | ok r =>
    simp only [Except.ok.injEq,Prod.mk.injEq]
    constructor
    · rintro ⟨hr,hs⟩
      exact ⟨r.2,by rw [← hr],hs.symm⟩
    · rintro ⟨e,rfl,hs⟩
      exact ⟨rfl,hs.symm⟩

theorem sysValidateArgs_passes (w : AddrT) (syscallId addr size : ℕ) :
    Passes (sysValidateArgs w syscallId addr size) ↔
      syscallId ∉ blockedSyscalls ∧ Approves w addr size := by
  constructor
  · rintro ⟨s,s'',h⟩
    obtain ⟨s',haudit,hrest⟩ := checked_eq_ok_iff.mp h
    refine ⟨(sysSecurityAudit_eq_zero_iff.mp haudit).1,?_⟩
    split_ifs at hrest
    · exact absurd ⟨s',s'',hrest⟩ not_passes_neg
    · obtain ⟨s₁,hcheck,-⟩ := checked_eq_ok_iff.mp hrest
      obtain ⟨e,he,-⟩ := onEngine_eq_ok_iff.mp hcheck
      exact ⟨s'.engine,e,he⟩
  · rintro ⟨hid,happroves⟩
    have hnonzero : ¬ (addr = 0 ∨ size = 0) := by
      obtain ⟨hpos,-,hallowed⟩ := (approves_iff w addr size).mp happroves
      cases w <;> simp only [Allowed] at hallowed <;> omega
    obtain ⟨e,e',hcheck⟩ := happroves
    refine ⟨⟨e,0,0⟩,⟨e',u32 (0+1),0⟩,?_⟩
    apply checked_eq_ok_iff.mpr
    refine ⟨⟨e,u32 (0+1),0⟩,sysSecurityAudit_eq_zero_iff.mpr ⟨hid,rfl⟩,?_⟩
    rw [if_neg hnonzero]
    exact checked_eq_ok_iff.mpr ⟨_,onEngine_eq_ok_iff.mpr ⟨e',hcheck,rfl⟩,rfl⟩

/-- The policy holds on ranges, through `sys_validate_args` as well, exactly where the
range does not straddle the start of the kernel. -/
theorem policy_on_ranges_iff (w : AddrT) (addr size : ℕ) :
    ((Approves w addr size → RangeApproved w addr size) ∧
      ∀ syscallId, Passes (sysValidateArgs w syscallId addr size) → RangeApproved w addr size) ↔
      ¬ Straddles w addr size := by
  constructor
  · rintro ⟨h,-⟩ hstraddles
    have happroves : Approves w addr size := by
      obtain ⟨hpos,hmax,hzero,hstart,-⟩ := hstraddles
      apply (approves_iff w addr size).mpr
      cases w <;> simp only [Allowed,kernelStart] at hstart ⊢ <;> omega
    exact (rangeApproved_iff w happroves).mp (h happroves) hstraddles
  · intro hnot
    have hranges : Approves w addr size → RangeApproved w addr size :=
      fun h => (rangeApproved_iff w h).mpr hnot
    exact ⟨hranges,fun _ h => hranges ((sysValidateArgs_passes w _ _ _).mp h).2⟩

/-- Two pages, the second of which is the first of the kernel. -/
theorem page_below_kernel_approved :
    Approves .u64 0xFFFF7FFFFFFFF000 0x2000 ∧ Passes (sysValidateArgs .u64 1 0xFFFF7FFFFFFFF000 0x2000) ∧
      ¬ RangeApproved .u64 0xFFFF7FFFFFFFF000 0x2000 := by
  have h : Approves .u64 0xFFFF7FFFFFFFF000 0x2000 := by
    apply (approves_iff _ _ _).mpr
    simp only [Allowed]
    omega
  refine ⟨h,(sysValidateArgs_passes _ _ _ _).mpr ⟨by decide,h⟩,?_⟩
  intro hrange
  apply (rangeApproved_iff _ h).mp hrange
  simp only [Straddles,kernelStart]
  omega

end MemoryPolicy
end ValiantCore
