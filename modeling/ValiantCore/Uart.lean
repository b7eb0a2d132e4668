import ValiantCore.RingBuffer
import ValiantCore.Runs
import Mathlib.Data.Nat.Bitwise

/-! `drivers/uart/uart64.c` beside the transmitter that it feeds. The
transmitter sends at its own pace; a byte that is written while its queue is full is lost. -/
namespace ValiantCore
namespace Uart

def lineFeed : UInt8 := 10
def carriageReturn : UInt8 := 13

def txff : ℕ := 1 <<< 5

/-- The queue of the transmitter, what it has sent, and the driver: the bytes that are left of
its calls of `uart_putc`, and whether it has seen room in the queue for the first of them. -/
structure State where
  fifo : List UInt8
  wire : List UInt8
  todo : List UInt8
  ready : Bool
  deriving DecidableEq, Repr

/-- `UART0_FR`, as far as it is read for sending; the queue has room for `cap` bytes. -/
def flags (cap : ℕ) (s : State) : ℕ := if s.fifo.length < cap then 0 else txff

/-- The transmitter sends a byte, or the driver makes a step. -/
inductive Turn
  | send
  | drive
  deriving DecidableEq, Repr

/-- A step of `uart_putc` reads the flags, or writes the byte once they are clear. -/
def drive (cap : ℕ) (s : State) : State :=
  match s.todo with
  | [] => s
  | c::cs =>
    if s.ready then { s with fifo := Fifo.push cap s.fifo c, todo := cs, ready := false }
    else if flags cap s &&& txff ≠ 0 then s
    else { s with ready := true }

def send (s : State) : State := { s with fifo := s.fifo.tail, wire := s.wire++s.fifo.head?.toList }

def step (cap : ℕ) (s : State) : Turn → State
  | .send => send s
  | .drive => drive cap s

def run (cap : ℕ) (s : State) (turns : List Turn) : State := turns.foldl (step cap) s

/-- The bytes of `uart_print`, in order. -/
def uartPrint : List UInt8 → List UInt8
  | [] => []
  | c::cs => (if c = lineFeed then [carriageReturn] else [])++c::uartPrint cs

def printing (fifo wire : List UInt8) (texts : List (List UInt8)) : State :=
  ⟨fifo,wire,texts.flatMap uartPrint,false⟩

def stream (s : State) : List UInt8 := s.wire++s.fifo++s.todo

section Run
variable {cap : ℕ} {s : State}

/-- The driver writes only what there is room for. -/
def Polled (cap : ℕ) (s : State) : Prop := s.ready = true → s.fifo.length < cap

theorem flags_clear : flags cap s &&& txff ≠ 0 ↔ ¬ s.fifo.length < cap := by
  unfold flags
  by_cases hroom : s.fifo.length < cap
  · simp [hroom]
  · simp [hroom,txff]

theorem step_spec (h : Polled cap s) (t : Turn) : Polled cap (step cap s t) ∧ stream (step cap s t) = stream s := by
  cases t with
  | send =>
    refine ⟨fun hready => ?_,?_⟩
    · have hroom := h hready
      show s.fifo.tail.length < cap
      rw [List.length_tail]
      omega
    · simp only [step,send,stream]
      cases s.fifo <;> simp
  | drive =>
    show Polled cap (drive cap s) ∧ stream (drive cap s) = stream s
    unfold drive
    cases htodo : s.todo with
    | nil => exact ⟨h,rfl⟩
    | cons c cs =>
      dsimp only
      by_cases hready : s.ready = true
      · rw [if_pos hready]
        refine ⟨fun hfalse => absurd hfalse Bool.false_ne_true,?_⟩
        simp only [stream,Fifo.push,if_pos (h hready),htodo]
        simp
      · rw [if_neg hready]
        by_cases hroom : s.fifo.length < cap
        · rw [if_neg (flags_clear.not.mpr (not_not.mpr hroom))]
          exact ⟨fun _ => hroom,by rw [stream,stream,htodo]⟩
        · rw [if_pos (flags_clear.mpr hroom)]
          exact ⟨h,rfl⟩

theorem run_spec (h : Polled cap s) (turns : List Turn) :
    Polled cap (run cap s turns) ∧ stream (run cap s turns) = stream s := by
  induction turns generalizing s with
  | nil => exact ⟨h,rfl⟩
  | cons t turns ih =>
    obtain ⟨hstep,hstream⟩ := step_spec h t
    obtain ⟨hrun,hrest⟩ := ih hstep
    exact ⟨hrun,hrest.trans hstream⟩

/-- What is left to do: a byte is polled for, written and sent. -/
def work (s : State) : ℕ := 3*s.todo.length+s.fifo.length-s.ready.toNat

/-- Between two writes the driver has a byte to write. -/
structure Waiting (cap : ℕ) (s : State) : Prop where
  polled : Polled cap s
  todo : s.ready = true → s.todo ≠ []

theorem send_same_or_less (s : State) (h : s.ready = true → s.todo ≠ []) :
    send s = s ∧ s.fifo = [] ∨ work (send s) < work s := by
  cases hfifo : s.fifo with
  | nil =>
    left
    refine ⟨?_,rfl⟩
    rw [send,hfifo]
    show ({ s with fifo := [], wire := s.wire++[] } : State) = s
    rw [List.append_nil,← hfifo]
  | cons b bs =>
    right
    have hready : s.ready.toNat ≤ 3*s.todo.length := by
      cases hr : s.ready with
      | false => exact Nat.zero_le _
      | true =>
        have hpos := List.length_pos_iff.mpr (h hr)
        rw [Bool.toNat_true]
        omega
    show 3*s.todo.length+s.fifo.tail.length-s.ready.toNat < 3*s.todo.length+s.fifo.length-s.ready.toNat
    rw [hfifo,List.tail_cons,List.length_cons]
    omega

theorem drive_same_or_less (h : Waiting cap s) :
    drive cap s = s ∧ (s.todo = [] ∨ ¬ s.fifo.length < cap) ∨ work (drive cap s) < work s := by
  unfold drive
  cases htodo : s.todo with
  | nil => exact Or.inl ⟨rfl,Or.inl rfl⟩
  | cons c cs =>
    dsimp only
    by_cases hready : s.ready = true
    · right
      rw [if_pos hready,Fifo.push,if_pos (h.polled hready)]
      simp only [work,htodo,hready,List.length_append,List.length_cons,List.length_nil,Bool.toNat_true,Bool.toNat_false]
      omega
    · rw [if_neg hready]
      by_cases hroom : s.fifo.length < cap
      · right
        rw [if_neg (flags_clear.not.mpr (not_not.mpr hroom))]
        simp only [work,htodo,Bool.eq_false_iff.mpr hready,List.length_cons,Bool.toNat_true,Bool.toNat_false]
        omega
      · rw [if_pos (flags_clear.mpr hroom)]
        exact Or.inl ⟨rfl,Or.inr hroom⟩

theorem waiting_step (h : Waiting cap s) (t : Turn) : Waiting cap (step cap s t) := by
  refine ⟨(step_spec h.polled t).1,?_⟩
  cases t with
  | send => exact h.todo
  | drive =>
    show (drive cap s).ready = true → (drive cap s).todo ≠ []
    unfold drive
    cases htodo : s.todo with
    | nil => exact fun hready => absurd htodo (h.todo hready)
    | cons c cs =>
      dsimp only
      by_cases hready : s.ready = true
      · rw [if_pos hready]
        exact fun hfalse => absurd hfalse Bool.false_ne_true
      · rw [if_neg hready]
        split
        · exact fun hpolled => absurd hpolled hready
        · exact fun _ hnil => absurd hnil (List.cons_ne_nil c cs)

/-- If the transmitter goes on sending and the driver goes on, whatever their order, everything
is sent in the end. -/
theorem exists_sent (hcap : 0 < cap) (h : Waiting cap s) {turns : ℕ → Turn}
    (hsend : Runs.Recurs turns .send) (hdrive : Runs.Recurs turns .drive) :
    ∃ n, ∀ m ≥ n, (Runs.after (step cap) s turns m).wire = stream s := by
  have hless : ∀ s t, Waiting cap s → step cap s t = s ∨ work (step cap s t) < work s := by
    intro s t hs
    cases t with
    | send => exact (send_same_or_less s hs.todo).imp_left And.left
    | drive => exact (drive_same_or_less hs).imp_left And.left
  have hhelp : ∀ s, Waiting cap s → work s ≠ 0 → ∃ t, Runs.Recurs turns t ∧ work (step cap s t) < work s := by
    intro s hs hwork
    rcases send_same_or_less s hs.todo with ⟨-,hempty⟩ | hlt
    · rcases drive_same_or_less hs with ⟨-,hnil | hfull⟩ | hlt
      · refine absurd ?_ hwork
        rw [work,hnil,hempty]
        exact Nat.zero_sub _
      · rw [hempty] at hfull
        exact absurd hcap hfull
      · exact ⟨.drive,hdrive,hlt⟩
    · exact ⟨.send,hsend,hlt⟩
  obtain ⟨n,hdone,hrest⟩ := Runs.exists_done (fun _ t hs => waiting_step hs t) hless hhelp h
  refine ⟨n,fun m hm => ?_⟩
  rw [hrest m hm]
  have hs : Waiting cap (Runs.after (step cap) s turns n) :=
    Runs.after_invariant (Waiting cap) (fun _ t hs => waiting_step hs t) h n
  have hstream : stream (Runs.after (step cap) s turns n) = stream s := by
    rw [Runs.after_eq_foldl]
    exact (run_spec h.polled _).2
  -- no work is left, so nothing is in the queue and nothing to print
  generalize Runs.after (step cap) s turns n = s' at hdone hs hstream
  have htodo : s'.todo = [] := by
    by_contra hne
    have hpos := List.length_pos_iff.mpr hne
    have hready : s'.ready.toNat ≤ 1 := Bool.toNat_le s'.ready
    unfold work at hdone
    omega
  have hready : s'.ready = false := Bool.eq_false_iff.mpr fun hr => hs.todo hr htodo
  have hfifo : s'.fifo = [] := by
    rw [work,htodo,hready] at hdone
    exact List.length_eq_zero_iff.mp (by simpa using hdone)
  rw [← hstream,stream,hfifo,htodo,List.append_nil,List.append_nil]

theorem printing_waiting (cap : ℕ) (fifo wire : List UInt8) (texts : List (List UInt8)) :
    Waiting cap (printing fifo wire texts) :=
  ⟨fun hfalse => absurd hfalse Bool.false_ne_true,fun hfalse => absurd hfalse Bool.false_ne_true⟩

/-- However the steps of the driver and of the transmitter follow each other, what was sent,
what is in the queue and what is left to print are the strings with a carriage return before
each line feed: nothing is lost, doubled or overtaken. If both go on, all of it has been sent
from some moment on. -/
theorem prints_all (hcap : 0 < cap) (fifo wire : List UInt8) (texts : List (List UInt8)) :
    (∀ turns, stream (run cap (printing fifo wire texts) turns) =
      wire++fifo++texts.flatMap uartPrint) ∧
    ∀ turns : ℕ → Turn, Runs.Recurs turns .send → Runs.Recurs turns .drive →
      ∃ n, ∀ m ≥ n, (Runs.after (step cap) (printing fifo wire texts) turns m).wire =
        wire++fifo++texts.flatMap uartPrint :=
  ⟨fun turns => (run_spec (printing_waiting cap fifo wire texts).polled turns).2,
    fun _ hsend hdrive => exists_sent hcap (printing_waiting cap fifo wire texts) hsend hdrive⟩

def alternating (n : ℕ) : Turn := if n%2 = 0 then .drive else .send

theorem alternating_recurs (t : Turn) : Runs.Recurs alternating t := by
  intro n
  cases t with
  | send => exact ⟨2*n+1,by omega,if_neg (by omega)⟩
  | drive => exact ⟨2*n,by omega,if_pos (by omega)⟩

theorem prints_all_hello : ∃ n, ∀ m ≥ n,
    (Runs.after (step 16) (printing [] [] [[104,105],[10]]) alternating m).wire = [104,105,13,10] :=
  (prints_all (by decide) [] [] [[104,105],[10]]).2 alternating (alternating_recurs .send) (alternating_recurs .drive)

end Run

end Uart
end ValiantCore
