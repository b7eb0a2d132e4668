import ValiantCore.RingBuffer

/-! The keyboard driver `drivers/keyboard.c`: scancodes come in by interrupt, characters go
out by `keyboard_getchar`, and a ring buffer of 256 cells stands between them. A character
is its ASCII code. -/
namespace ValiantCore
namespace Keyboard

def kbdBufferSize : ℕ := 256
def kbdReleaseMask : UInt8 := 0x80

/-- `kbd_map`, without the zeros behind the last key. -/
def kbdMap : List UInt8 :=
  [0,27,0x31,0x32,0x33,0x34,0x35,0x36,0x37,0x38,
    0x39,0x30,0x2D,0x3D,0x08,0x09,0x71,0x77,0x65,0x72,
    0x74,0x79,0x75,0x69,0x6F,0x70,0x5B,0x5D,0x0A,0,
    0x61,0x73,0x64,0x66,0x67,0x68,0x6A,0x6B,0x6C,0x3B,
    0x27,0x60,0,0x5C,0x7A,0x78,0x63,0x76,0x62,0x6E,
    0x6D,0x2C,0x2E,0x2F,0,0x2A,0,0x20,0,0]

def kbdMapShift : List UInt8 :=
  [0,27,0x21,0x40,0x23,0x24,0x25,0x5E,0x26,0x2A,
    0x28,0x29,0x5F,0x2B,0x08,0x09,0x51,0x57,0x45,0x52,
    0x54,0x59,0x55,0x49,0x4F,0x50,0x7B,0x7D,0x0A,0,
    0x41,0x53,0x44,0x46,0x47,0x48,0x4A,0x4B,0x4C,0x3A,
    0x22,0x7E,0,0x7C,0x5A,0x58,0x43,0x56,0x42,0x4E,
    0x4D,0x3C,0x3E,0x3F,0,0x2A,0,0x20,0,0]

structure State where
  shiftPressed : Bool
  ctrlPressed : Bool
  capsLock : Bool
  kbdBuffer : ℕ → UInt8
  kbdHead : ℕ
  kbdTail : ℕ

def boot : State := ⟨false,false,false,fun _ => 0,0,0⟩

def kbdBufferPush (s : State) (c : UInt8) : State :=
  let next := (s.kbdHead+1) % kbdBufferSize
  if next = s.kbdTail then s
  else { s with kbdBuffer := Function.update s.kbdBuffer s.kbdHead c, kbdHead := next }

/-- `keyboard_getchar`: the oldest character, or 0. -/
def keyboardGetchar (s : State) : State × UInt8 :=
  if s.kbdHead = s.kbdTail then (s,0)
  else ({ s with kbdTail := (s.kbdTail+1) % kbdBufferSize },s.kbdBuffer s.kbdTail)

def keyboardHasInput (s : State) : Bool := s.kbdHead ≠ s.kbdTail

/-- The character of a key that is pressed: by the map that Shift selects, and with the case
of a letter turned by Caps Lock. -/
def charOf (s : State) (code : UInt8) : UInt8 :=
  let c := if s.shiftPressed then kbdMapShift.getD code.toNat 0 else kbdMap.getD code.toNat 0
  if s.capsLock ∧ 0x61 ≤ c ∧ c ≤ 0x7A then c-32
  else if s.capsLock ∧ 0x41 ≤ c ∧ c ≤ 0x5A then c+32
  else c

/-- `keyboard_handler`, where the data port reads `scancode`. -/
def keyboardHandler (s : State) (scancode : UInt8) : State :=
  let released : Bool := scancode &&& kbdReleaseMask ≠ 0
  let code := scancode &&& ~~~kbdReleaseMask
  if code = 42 ∨ code = 54 then { s with shiftPressed := !released }
  else if code = 29 then { s with ctrlPressed := !released }
  else if code = 58 ∧ !released then { s with capsLock := !s.capsLock }
  else if released then s
  else if code ≥ 128 then s
  else if charOf s code ≠ 0 then kbdBufferPush s (charOf s code)
  else s

inductive Op
  | keyboardHandler (scancode : UInt8)
  | keyboardGetchar

/-- A call, with the character that `keyboard_getchar` returns. -/
def step (s : State) : Op → State × Option UInt8
  | .keyboardHandler scancode => (keyboardHandler s scancode,none)
  | .keyboardGetchar => let r := keyboardGetchar s; (r.1,some r.2)

def after (ops : List Op) : State := Runs.exec step boot ops

def State.ring (s : State) : RingBuffer UInt8 := ⟨s.kbdBuffer,s.kbdHead,s.kbdTail⟩

theorem kbdBufferPush_ring (s : State) (c : UInt8) :
    (kbdBufferPush s c).ring = s.ring.push kbdBufferSize c := by
  by_cases hfull : (s.kbdHead+1) % kbdBufferSize = s.kbdTail <;>
    simp [kbdBufferPush,RingBuffer.push,State.ring,hfull]

theorem keyboardGetchar_ring (s : State) :
    (keyboardGetchar s).1.ring = (s.ring.pop kbdBufferSize).1 ∧
      (keyboardGetchar s).2 = (s.ring.pop kbdBufferSize).2.getD 0 := by
  unfold keyboardGetchar RingBuffer.pop
  by_cases hempty : s.kbdHead = s.kbdTail <;> simp [State.ring,hempty]

/-- The character that an interrupt offers to the buffer. -/
def typed (s : State) (scancode : UInt8) : Option UInt8 :=
  if scancode &&& kbdReleaseMask ≠ 0 ∨ scancode = 42 ∨ scancode = 54 ∨ scancode = 29 ∨
    scancode = 58 ∨ charOf s scancode = 0 then none else some (charOf s scancode)

theorem typed_ne_zero {s : State} {scancode c : UInt8} (h : typed s scancode = some c) :
    c ≠ 0 := by
  unfold typed at h
  split_ifs at h with hnone
  push Not at hnone
  rw [← Option.some.inj h]
  exact hnone.2.2.2.2.2

theorem code_eq (scancode : UInt8) :
    (scancode &&& kbdReleaseMask = 0 → scancode &&& ~~~kbdReleaseMask = scancode) ∧
      ¬ 128 ≤ scancode &&& ~~~kbdReleaseMask := by
  obtain ⟨b⟩ := scancode
  revert b
  decide +kernel

theorem keyboardHandler_ring (s : State) (scancode : UInt8) :
    (keyboardHandler s scancode).ring =
      match typed s scancode with
      | none => s.ring
      | some c => s.ring.push kbdBufferSize c := by
  obtain ⟨hpress,hcode⟩ := code_eq scancode
  unfold keyboardHandler typed
  by_cases hreleased : scancode &&& kbdReleaseMask = 0
  · rw [hpress hreleased] at hcode ⊢
    by_cases hshift : scancode = 42 ∨ scancode = 54
    · rcases hshift with rfl | rfl <;> rfl
    · by_cases hctrl : scancode = 29
      · subst hctrl
        rfl
      · by_cases hcaps : scancode = 58
        · subst hcaps
          rfl
        · simp only [if_neg hshift,if_neg hctrl,hcaps,hreleased,if_neg hcode]
          by_cases hchar : charOf s scancode = 0
          · simp [hchar]
          · have hkey := not_or.mp hshift
            simp [hchar,hkey,hctrl,kbdBufferPush_ring]
  · -- a release sets a modifier or does nothing
    rw [if_pos (Or.inl hreleased)]
    dsimp only
    split_ifs <;> first | rfl | simp_all

def requests (e : Runs.Event State Op (Option UInt8)) : List (Request UInt8) :=
  match e.op with
  | .keyboardHandler scancode => (typed e.before scancode).toList.map .push
  | .keyboardGetchar => [.pop]

def demands (ops : List Op) : List (Request UInt8) := (Runs.trace step boot ops).flatMap requests

/-- The queue of capacity 255 after the same run. -/
def waiting (ops : List Op) : List UInt8 := Runs.exec (Fifo.step 255) [] (demands ops)

def accepted (ops : List Op) : List UInt8 :=
  (Runs.trace (Fifo.step 255) [] (demands ops)).flatMap (Fifo.accepted 255)

def received (ops : List Op) : List UInt8 :=
  (Runs.trace step boot ops).flatMap fun e => (e.out.filter (· ≠ 0)).toList

theorem after_concat (ops : List Op) (op : Op) : after (ops++[op]) = (step (after ops) op).1 :=
  Runs.exec_concat _ _ _ _

theorem demands_concat (ops : List Op) (op : Op) :
    demands (ops++[op]) = demands ops++requests ⟨after ops,op,(step (after ops) op).2⟩ := by
  rw [demands,Runs.trace_concat,List.flatMap_append,List.flatMap_singleton]
  rfl

theorem received_concat (ops : List Op) (op : Op) :
    received (ops++[op]) = received ops++((step (after ops) op).2.filter (· ≠ 0)).toList := by
  rw [received,Runs.trace_concat,List.flatMap_append,List.flatMap_singleton]
  rfl

theorem waiting_getchar (ops : List Op) : waiting (ops++[.keyboardGetchar]) = (waiting ops).tail := by
  rw [waiting,demands_concat,Runs.exec_append]
  rfl

theorem waiting_handler (ops : List Op) (scancode : UInt8) :
    waiting (ops++[.keyboardHandler scancode]) =
      match typed (after ops) scancode with
      | none => waiting ops
      | some c => if (waiting ops).length < 255 then waiting ops++[c] else waiting ops := by
  rw [waiting,demands_concat,Runs.exec_append]
  cases htyped : typed (after ops) scancode <;> simp [requests,htyped] <;> rfl

theorem step_ring (s : State) (op : Op) :
    (step s op).1.ring =
      Runs.exec (RingBuffer.step kbdBufferSize) s.ring (requests ⟨s,op,(step s op).2⟩) := by
  cases op with
  | keyboardHandler scancode =>
    change (keyboardHandler s scancode).ring = _
    rw [keyboardHandler_ring]
    cases htyped : typed s scancode <;> simp [requests,htyped,RingBuffer.step]
  | keyboardGetchar => exact (keyboardGetchar_ring s).1

theorem after_ring (ops : List Op) :
    (after ops).ring = Runs.exec (RingBuffer.step kbdBufferSize) boot.ring (demands ops) := by
  induction ops using List.reverseRecOn with
  | nil => rfl
  | append_singleton ops op ih =>
    rw [after_concat,step_ring,demands_concat,Runs.exec_append,← ih]

theorem holds_waiting (ops : List Op) : (after ops).ring.Holds kbdBufferSize (waiting ops) := by
  have hboot : boot.ring.Holds kbdBufferSize ([] : List UInt8) := ⟨by decide,by decide,rfl,by simp⟩
  rw [after_ring]
  exact hboot.exec (demands ops)

theorem waiting_ne_zero (ops : List Op) : ∀ c ∈ waiting ops, c ≠ 0 := by
  induction ops using List.reverseRecOn with
  | nil => simp [waiting,demands]
  | append_singleton ops op ih =>
    cases op with
    | keyboardHandler scancode =>
      rw [waiting_handler]
      cases htyped : typed (after ops) scancode with
      | none => exact ih
      | some c =>
        simp only []
        split_ifs with hroom
        · intro d hd
          rcases List.mem_append.mp hd with hd | hd
          · exact ih d hd
          · rw [List.mem_singleton.mp hd]
            exact typed_ne_zero htyped
        · exact ih
    | keyboardGetchar =>
      rw [waiting_getchar]
      exact fun c hc => ih c (List.mem_of_mem_tail hc)

theorem keyboardGetchar_waiting (ops : List Op) :
    (keyboardGetchar (after ops)).2 = (waiting ops).head?.getD 0 := by
  rw [(keyboardGetchar_ring _).2,(holds_waiting ops).pop.2]

theorem keyboardGetchar_eq_zero (ops : List Op) :
    (keyboardGetchar (after ops)).2 = 0 ↔ waiting ops = [] := by
  rw [keyboardGetchar_waiting]
  cases hq : waiting ops with
  | nil => simp
  | cons c q => simpa using waiting_ne_zero ops c (by simp [hq])

theorem received_eq (ops : List Op) :
    received ops = (Runs.trace (Fifo.step 255) [] (demands ops)).flatMap Fifo.returned := by
  induction ops using List.reverseRecOn with
  | nil => rfl
  | append_singleton ops op ih =>
    rw [received_concat,demands_concat,Runs.trace_append,List.flatMap_append,← ih]
    congr 1
    cases op with
    | keyboardHandler scancode =>
      change [] = _
      cases htyped : typed (after ops) scancode <;> simp [requests,htyped,Fifo.returned,Fifo.step]
    | keyboardGetchar =>
      change (Option.filter _ (some (keyboardGetchar (after ops)).2)).toList =
        ([⟨waiting ops,.pop,(waiting ops).head?⟩] : List _).flatMap Fifo.returned
      rw [keyboardGetchar_waiting]
      cases hq : waiting ops with
      | nil => rfl
      | cons c q => simp [Fifo.returned,waiting_ne_zero ops c (by simp [hq])]

/-- What a queue of capacity 255 shows to its callers, in the state after the run `ops`. -/
structure BehavesAsQueue (ops : List Op) : Prop where
  in_order : received ops++waiting ops = accepted ops
  capacity : (waiting ops).length ≤ 255
  ne_zero : ∀ c ∈ accepted ops, c ≠ 0
  drops : ∀ c, kbdBufferPush (after ops) c = after ops ↔ (waiting ops).length = 255
  pushes : ∀ scancode, waiting (ops++[.keyboardHandler scancode]) =
    match typed (after ops) scancode with
    | none => waiting ops
    | some c => if (waiting ops).length < 255 then waiting ops++[c] else waiting ops
  getchar : (keyboardGetchar (after ops)).2 = (waiting ops).head?.getD 0
  pops : waiting (ops++[.keyboardGetchar]) = (waiting ops).tail
  getchar_zero : (keyboardGetchar (after ops)).2 = 0 ↔ waiting ops = []
  has_input : keyboardHasInput (after ops) = true ↔ waiting ops ≠ []
  head_lt : (after ops).kbdHead < kbdBufferSize
  tail_lt : (after ops).kbdTail < kbdBufferSize

theorem kbdBufferPush_eq_self (s : State) (c : UInt8) :
    kbdBufferPush s c = s ↔ (s.kbdHead+1) % kbdBufferSize = s.kbdTail := by
  unfold kbdBufferPush
  constructor
  · intro h
    by_contra hroom
    rw [if_neg hroom] at h
    have hhead : (s.kbdHead+1) % kbdBufferSize = s.kbdHead := congrArg State.kbdHead h
    unfold kbdBufferSize at hhead
    omega
  · exact fun h => if_pos h

theorem in_order (ops : List Op) : received ops++waiting ops = accepted ops := by
  rw [received_eq]
  exact Fifo.returned_append_waiting 255 (demands ops)

theorem accepted_ne_zero (ops : List Op) : ∀ c ∈ accepted ops, c ≠ 0 := by
  intro c hc
  rw [← in_order] at hc
  rcases List.mem_append.mp hc with hc | hc
  · obtain ⟨e,-,he⟩ := List.mem_flatMap.mp hc
    have := (Option.filter_eq_some_iff.mp (Option.mem_toList.mp he)).2
    simpa using this
  · exact waiting_ne_zero ops c hc

theorem drops_iff (ops : List Op) (c : UInt8) :
    kbdBufferPush (after ops) c = after ops ↔ (waiting ops).length = 255 := by
  rw [kbdBufferPush_eq_self]
  refine (holds_waiting ops).full_iff.trans ?_
  unfold kbdBufferSize
  omega

/-- The keyboard buffer is a first-in first-out queue of capacity 255 in every run. -/
theorem keyboard_fifo (ops : List Op) : BehavesAsQueue ops where
  in_order := in_order ops
  capacity := Fifo.length_le 255 (demands ops)
  ne_zero := accepted_ne_zero ops
  drops := drops_iff ops
  pushes := waiting_handler ops
  getchar := keyboardGetchar_waiting ops
  pops := waiting_getchar ops
  getchar_zero := keyboardGetchar_eq_zero ops
  has_input := decide_eq_true_iff.trans (not_congr (holds_waiting ops).empty_iff)
  head_lt := (holds_waiting ops).head_lt
  tail_lt := (holds_waiting ops).tail_lt

end Keyboard
end ValiantCore
