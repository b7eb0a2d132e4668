import ValiantCore.Keyboard

/-! `kernel_panic` of `arch/x86/vcorepanic.c`: it masks the interrupts, draws its screen and
waits for a key that would bring a second one. What is drawn is kept as the arguments. -/
namespace ValiantCore
namespace KernelPanic

open Keyboard

def panicDetect : ℕ → String
  | 0 => "ERR_DIVIDE_BY_ZERO"
  | 1 => "ERR_DEBUG_EXCEPTION"
  | 2 => "ERR_NMI"
  | 3 => "ERR_BREAKPOINT"
  | 4 => "ERR_OVERFLOW"
  | 5 => "ERR_BOUND_RANGE_EXCEEDED"
  | 6 => "ERR_INVALID_OPCODE"
  | 7 => "ERR_DEVICE_NOT_AVAILABLE"
  | 8 => "ERR_DOUBLE_FAULT"
  | 9 => "ERR_COPROCESSOR_OVERRUN"
  | 10 => "ERR_INVALID_TSS"
  | 11 => "ERR_SEGMENT_NOT_PRESENT"
  | 12 => "ERR_STACK_SEGMENT_FAULT"
  | 13 => "ERR_GENERAL_PROTECTION_FAULT"
  | 14 => "ERR_PAGE_FAULT"
  | 16 => "ERR_FPU_EXCEPTION"
  | 17 => "ERR_ALIGNMENT_CHECK"
  | 18 => "ERR_MACHINE_CHECK"
  | 19 => "ERR_SIMD_EXCEPTION"
  | 20 => "ERR_VIRTUALIZATION_EXCEPTION"
  | 21 => "ERR_CONTROL_PROTECTION"
  | 28 => "ERR_HYPERVISOR_INJECTION"
  | 29 => "ERR_VMM_COMMUNICATION"
  | 30 => "ERR_SECURITY_EXCEPTION"
  | _ => "ERR_UNKOWN"

def panicDescribe : ℕ → String
  | 0 => "Division by zero in arithmetic operation"
  | 1 => "Debug exception triggered"
  | 2 => "Non-maskable interrupt received"
  | 3 => "Breakpoint instruction executed"
  | 4 => "Overflow condition detected"
  | 5 => "Array index out of bounds"
  | 6 => "CPU encountered an illegal instruction"
  | 7 => "FPU/SSE instruction on unavailable device"
  | 8 => "Critical: exception while handling exception"
  | 12 => "Stack operation caused segment violation"
  | 13 => "Memory access violated protection rules"
  | 14 => "Access to unmapped or protected memory page"
  | 16 => "Floating point arithmetic error"
  | 17 => "Unaligned memory access detected"
  | 18 => "Critical hardware error detected"
  | _ => "An unexpected exception occurred"

/-- The screens, with the texts that depend on the exception. -/
inductive Screen
  | main (code desc : String)
  | detail (code desc : String)
  deriving DecidableEq, Repr

inductive Point
  | cli
  | isReady
  -- `for (;;) hlt`
  | stopped
  | drawMain
  | hasInput
  | hlt
  deriving DecidableEq, Repr

/-- The machine: `keys` are the scancodes that the keyboard still holds. -/
structure Machine where
  point : Point
  interruptFlag : Bool
  fbReady : Bool
  intNo : ℕ
  kbd : State
  keys : List UInt8
  screens : List Screen

/-- The body of the loop, up to its `hlt`. -/
def poll (m : Machine) : Machine :=
  if keyboardHasInput m.kbd then
    let (kbd,c) := keyboardGetchar m.kbd
    { m with
      point := .hlt
      kbd := kbd
      screens := if c = 0x64 ∨ c = 0x44 then
        m.screens++[.detail (panicDetect m.intNo) (panicDescribe m.intNo)] else m.screens }
  else { m with point := .hlt }

/-- The next piece of `kernel_panic`; a processor that is halted waits for an interrupt. -/
def goOn (m : Machine) : Machine :=
  match m.point with
  | .cli => { m with interruptFlag := false, point := .isReady }
  | .isReady => { m with point := if m.fbReady then .drawMain else .stopped }
  | .stopped => m
  | .drawMain =>
    { m with
      point := .hasInput
      screens := m.screens++[.main (panicDetect m.intNo) (panicDescribe m.intNo)] }
  | .hasInput => poll m
  | .hlt => m

/-- The keyboard interrupt: `keyboard_handler` reads a scancode, and `hlt` is left. -/
def interrupt (m : Machine) : Machine :=
  match m.keys with
  | [] => m
  | scancode::keys =>
    if m.interruptFlag then
      { m with
        kbd := keyboardHandler m.kbd scancode
        keys := keys
        point := if m.point = .hlt then .hasInput else m.point }
    else m

inductive Event
  | goOn
  | press (scancode : UInt8)
  | interrupt
  deriving DecidableEq, Repr

def step (m : Machine) : Event → Machine
  | .goOn => goOn m
  | .press scancode => { m with keys := m.keys++[scancode] }
  | .interrupt => interrupt m

def run (m : Machine) (es : List Event) : Machine := es.foldl step m

def first (k : State) : Option UInt8 := if keyboardHasInput k then some (keyboardGetchar k).2 else none

/-- The screens that come, when `k` is the keyboard driver as `cli` finds it. -/
def shown (fbReady : Bool) (intNo : ℕ) (k : State) : List Screen :=
  if fbReady then
    .main (panicDetect intNo) (panicDescribe intNo)::
      (if first k = some 0x64 ∨ first k = some 0x44 then
        [.detail (panicDetect intNo) (panicDescribe intNo)] else [])
  else []

/-- How far `kernel_panic` has come, and what it has drawn. -/
def Drawn (fbReady : Bool) (intNo : ℕ) (k : State) (m : Machine) : Prop :=
  match m.point with
  | .cli => False
  | .isReady => m.kbd = k ∧ m.screens = []
  | .stopped => fbReady = false ∧ m.kbd = k ∧ m.screens = []
  | .drawMain => fbReady = true ∧ m.kbd = k ∧ m.screens = []
  | .hasInput => fbReady = true ∧ m.kbd = k ∧ m.screens = [.main (panicDetect intNo) (panicDescribe intNo)]
  | .hlt => fbReady = true ∧ m.kbd = (if keyboardHasInput k then (keyboardGetchar k).1 else k) ∧
    m.screens = shown fbReady intNo k

def left (m : Machine) : ℕ :=
  match m.point with
  | .cli => 4
  | .isReady => 3
  | .drawMain => 2
  | .hasInput => 1
  | .stopped => 0
  | .hlt => 0

structure Masked (fbReady : Bool) (intNo : ℕ) (k : State) (m : Machine) : Prop where
  flag : m.interruptFlag = false
  ready : m.fbReady = fbReady
  number : m.intNo = intNo
  drawn : Drawn fbReady intNo k m

section Masked
variable {fbReady : Bool} {intNo : ℕ} {k : State} {m : Machine}

theorem poll_masked (h : Masked fbReady intNo k m) (hpoint : m.point = .hasInput) :
    Masked fbReady intNo k (poll m) ∧ left (poll m) = 0 := by
  obtain ⟨hflag,hready,hnumber,hdrawn⟩ := h
  rw [Drawn,hpoint] at hdrawn
  obtain ⟨hfb,hkbd,hscreens⟩ := hdrawn
  subst hkbd hnumber
  by_cases hinput : keyboardHasInput m.kbd = true
  · have hfirst : first m.kbd = some (keyboardGetchar m.kbd).2 := if_pos hinput
    rw [poll,if_pos hinput]
    refine ⟨⟨hflag,hready,rfl,hfb,(if_pos hinput).symm,?_⟩,rfl⟩
    dsimp only
    simp only [hscreens,shown,if_pos hfb,hfirst,Option.some.injEq]
    split_ifs
    · rfl
    · rfl
  · have hfirst : first m.kbd = none := if_neg hinput
    rw [poll,if_neg hinput]
    refine ⟨⟨hflag,hready,rfl,hfb,(if_neg hinput).symm,?_⟩,rfl⟩
    dsimp only
    rw [hscreens,shown,if_pos hfb,hfirst]
    simp

theorem goOn_masked (h : Masked fbReady intNo k m) :
    Masked fbReady intNo k (goOn m) ∧ left (goOn m) ≤ left m-1 := by
  cases hpoint : m.point with
  | cli =>
    have hdrawn := h.drawn
    rw [Drawn,hpoint] at hdrawn
    exact hdrawn.elim
  | isReady =>
    obtain ⟨hflag,hready,hnumber,hdrawn⟩ := h
    rw [Drawn,hpoint] at hdrawn
    simp only [goOn,left,hpoint,hready]
    cases fbReady with
    | true => exact ⟨⟨hflag,rfl,hnumber,rfl,hdrawn⟩,le_rfl⟩
    | false => exact ⟨⟨hflag,rfl,hnumber,rfl,hdrawn⟩,Nat.zero_le 2⟩
  | stopped =>
    simp only [goOn,left,hpoint]
    exact ⟨h,Nat.zero_le _⟩
  | drawMain =>
    obtain ⟨hflag,hready,hnumber,hdrawn⟩ := h
    rw [Drawn,hpoint] at hdrawn
    simp only [goOn,left,hpoint]
    refine ⟨⟨hflag,hready,hnumber,hdrawn.1,hdrawn.2.1,?_⟩,le_rfl⟩
    dsimp only
    rw [hdrawn.2.2,hnumber]
    rfl
  | hasInput =>
    obtain ⟨hmasked,hleft⟩ := poll_masked h hpoint
    have hgo : goOn m = poll m := by simp only [goOn,hpoint]
    rw [hgo,hleft]
    exact ⟨hmasked,Nat.zero_le _⟩
  | hlt =>
    simp only [goOn,left,hpoint]
    exact ⟨h,Nat.zero_le _⟩

theorem step_masked (h : Masked fbReady intNo k m) (e : Event) :
    Masked fbReady intNo k (step m e) ∧
      left (step m e) ≤ if e = .goOn then left m-1 else left m := by
  cases e with
  | goOn => exact goOn_masked h
  | press scancode => exact ⟨⟨h.flag,h.ready,h.number,h.drawn⟩,le_rfl⟩
  | interrupt =>
    have hnone : interrupt m = m := by
      unfold interrupt
      rw [h.flag]
      split
      · rfl
      · exact if_neg Bool.false_ne_true
    simp only [step,hnone]
    exact ⟨h,le_rfl⟩

theorem run_masked (h : Masked fbReady intNo k m) (es : List Event) :
    Masked fbReady intNo k (run m es) ∧ left (run m es) ≤ left m-es.count .goOn := by
  induction es generalizing m with
  | nil => exact ⟨h,le_rfl⟩
  | cons e es ih =>
    obtain ⟨hstep,hleft⟩ := step_masked h e
    obtain ⟨hrun,hrest⟩ := ih hstep
    refine ⟨hrun,hrest.trans ?_⟩
    by_cases he : e = .goOn
    · rw [if_pos he] at hleft
      rw [he,List.count_cons_self]
      rw [he] at hleft
      omega
    · rw [if_neg he] at hleft
      rw [List.count_cons_of_ne he]
      omega

/-- Only what is to come is drawn, and in the end all of it. -/
theorem Masked.screens (h : Masked fbReady intNo k m) :
    m.screens <+: shown fbReady intNo k ∧ (left m = 0 → m.screens = shown fbReady intNo k) := by
  have hdrawn := h.drawn
  rw [Drawn] at hdrawn
  rw [left]
  cases hpoint : m.point with
  | cli =>
    rw [hpoint] at hdrawn
    exact hdrawn.elim
  | isReady =>
    rw [hpoint] at hdrawn
    rw [hdrawn.2]
    exact ⟨List.nil_prefix,fun h => absurd h (by decide)⟩
  | stopped =>
    rw [hpoint] at hdrawn
    obtain ⟨hfb,-,hnone⟩ := hdrawn
    rw [hnone,shown,hfb]
    exact ⟨List.nil_prefix,fun _ => rfl⟩
  | drawMain =>
    rw [hpoint] at hdrawn
    rw [hdrawn.2.2]
    exact ⟨List.nil_prefix,fun h => absurd h (by decide)⟩
  | hasInput =>
    rw [hpoint] at hdrawn
    obtain ⟨hfb,-,hmain⟩ := hdrawn
    rw [hmain,shown,if_pos hfb]
    exact ⟨List.cons_prefix_cons.mpr ⟨rfl,List.nil_prefix⟩,fun h => absurd h (by decide)⟩
  | hlt =>
    rw [hpoint] at hdrawn
    rw [hdrawn.2.2]
    exact ⟨List.prefix_rfl,fun _ => rfl⟩

theorem Masked.kbd (h : Masked fbReady intNo k m) :
    m.kbd = k ∨ m.kbd = (keyboardGetchar k).1 := by
  have hdrawn := h.drawn
  rw [Drawn] at hdrawn
  cases hpoint : m.point with
  | cli =>
    rw [hpoint] at hdrawn
    exact hdrawn.elim
  | isReady => rw [hpoint] at hdrawn; exact Or.inl hdrawn.1
  | stopped => rw [hpoint] at hdrawn; exact Or.inl hdrawn.2.1
  | drawMain => rw [hpoint] at hdrawn; exact Or.inl hdrawn.2.1
  | hasInput => rw [hpoint] at hdrawn; exact Or.inl hdrawn.2.1
  | hlt =>
    rw [hpoint] at hdrawn
    rw [hdrawn.2.1]
    split_ifs
    · exact Or.inr rfl
    · exact Or.inl rfl

end Masked

/-- The machine as `kernel_panic` is entered; the keyboard may still interrupt it. -/
structure Entered (fbReady : Bool) (intNo : ℕ) (m : Machine) : Prop where
  point : m.point = .cli
  ready : m.fbReady = fbReady
  number : m.intNo = intNo
  screens : m.screens = []

section Entry
variable {fbReady : Bool} {intNo : ℕ} {m : Machine}

theorem run_entered (h : Entered fbReady intNo m) {es : List Event} (hes : .goOn ∉ es) :
    Entered fbReady intNo (run m es) := by
  induction es generalizing m with
  | nil => exact h
  | cons e es ih =>
    rw [List.mem_cons,not_or] at hes
    refine ih ?_ hes.2
    cases e with
    | goOn => exact absurd rfl hes.1
    | press scancode => exact ⟨h.point,h.ready,h.number,h.screens⟩
    | interrupt =>
      simp only [step,interrupt]
      split
      · exact h
      · split_ifs with hflag hpoint
        · exact absurd (h.point.symm.trans hpoint) (by decide)
        · exact ⟨h.point,h.ready,h.number,h.screens⟩
        · exact h

theorem Entered.masked (h : Entered fbReady intNo m) :
    Masked fbReady intNo m.kbd (goOn m) ∧ left (goOn m) = 3 := by
  have hgo : goOn m = { m with interruptFlag := false, point := .isReady } := by
    simp only [goOn,h.point]
  rw [hgo]
  exact ⟨⟨rfl,h.ready,h.number,rfl,h.screens⟩,rfl⟩

end Entry

/-- Whatever is pressed, and whenever: the second screen comes just if the oldest character
that the driver holds when `cli` is executed is a `d` or a `D`. A key that is pressed after
the panic is never seen, and no more than one character is taken. -/
theorem panic_screens {m : Machine} {fbReady : Bool} {intNo : ℕ} (h : Entered fbReady intNo m)
    {before : List Event} (hbefore : .goOn ∉ before) (after : List Event) :
    let k := (run m before).kbd
    let final := run m (before++.goOn::after)
    final.screens <+: shown fbReady intNo k ∧
      (3 ≤ after.count .goOn → final.screens = shown fbReady intNo k) ∧
      (final.kbd = k ∨ final.kbd = (keyboardGetchar k).1) := by
  intro k final
  obtain ⟨hmasked,hleft⟩ := (run_entered h hbefore).masked
  obtain ⟨hrun,hrest⟩ := run_masked hmasked after
  have hfinal : final = run (goOn (run m before)) after := by
    simp only [final,run,List.foldl_append,List.foldl_cons]
    rfl
  rw [hfinal]
  obtain ⟨hdrawn,hall⟩ := hrun.screens
  refine ⟨hdrawn,fun hcount => hall ?_,hrun.kbd⟩
  rw [hleft] at hrest
  omega

/-- A page fault with an empty buffer, and a `d` that is pressed when the screen is there. -/
def pageFault : Machine := ⟨.cli,true,true,14,boot,[],[]⟩

theorem panic_screens_page_fault :
    (run pageFault [.goOn,.goOn,.goOn,.press 32,.interrupt,.goOn,.interrupt,.goOn]).screens =
      [.main "ERR_PAGE_FAULT" "Access to unmapped or protected memory page"] :=
  (@panic_screens pageFault true 14 ⟨rfl,rfl,rfl,rfl⟩ [] (by decide)
    [.goOn,.goOn,.press 32,.interrupt,.goOn,.interrupt,.goOn]).2.1 (by decide)

end KernelPanic
end ValiantCore
