import ValiantCore.Keyboard

/-! The Shift keys. Two keys set and clear the one variable `shift_pressed`, so that it
tells what the last of their scancodes was, and not which of the two keys is down. -/
namespace ValiantCore
namespace Keyboard

def keyOf (scancode : UInt8) : UInt8 := scancode &&& ~~~kbdReleaseMask
def isRelease (scancode : UInt8) : Bool := decide (scancode &&& kbdReleaseMask ≠ 0)
def isPress (scancode : UInt8) : Bool := !isRelease scancode

def scancodes (ops : List Op) : List UInt8 :=
  ops.filterMap fun op =>
    match op with
    | .keyboardHandler scancode => some scancode
    | .keyboardGetchar => none

/-- The key is down: the last of its scancodes is a press. -/
def held (key : UInt8) (codes : List UInt8) : Bool :=
  (codes.reverse.find? fun scancode => keyOf scancode = key).any isPress

/-- A key is released only when it is down. -/
def KeepsOrder (codes : List UInt8) (scancode : UInt8) : Prop :=
  isRelease scancode = true → held (keyOf scancode) codes = true

instance (codes : List UInt8) (scancode : UInt8) : Decidable (KeepsOrder codes scancode) :=
  inferInstanceAs (Decidable (_ → _))

/-- Each key is pressed, perhaps repeatedly, before it is released. -/
def Alternates (codes : List UInt8) : Prop := Runs.EveryStep KeepsOrder codes

def lastShift (codes : List UInt8) : Option UInt8 :=
  codes.reverse.find? fun scancode => keyOf scancode = 42 ∨ keyOf scancode = 54

/-- The Shift state is that of the keys. -/
def FollowsKeys (ops : List Op) : Prop :=
  (after ops).shiftPressed = true ↔ held 42 (scancodes ops) = true ∨ held 54 (scancodes ops) = true

/-- The last scancode of a Shift key is the release of one of them, and the other one is
held. -/
def OtherHeld (codes : List UInt8) : Prop :=
  ∃ scancode, lastShift codes = some scancode ∧ isRelease scancode = true ∧
    ((keyOf scancode = 42 ∧ held 54 codes = true) ∨ (keyOf scancode = 54 ∧ held 42 codes = true))

section Shift

theorem scancodes_concat (ops : List Op) (op : Op) :
    scancodes (ops++[op]) = scancodes ops++scancodes [op] := List.filterMap_append ..

theorem lastShift_concat (codes : List UInt8) (scancode : UInt8) :
    lastShift (codes++[scancode]) =
      if keyOf scancode = 42 ∨ keyOf scancode = 54 then some scancode else lastShift codes := by
  by_cases h : keyOf scancode = 42 ∨ keyOf scancode = 54
  · simp [lastShift,h]
  · simp [lastShift,h]

theorem shiftPressed_handler (s : State) (scancode : UInt8) :
    (keyboardHandler s scancode).shiftPressed =
      if keyOf scancode = 42 ∨ keyOf scancode = 54 then isPress scancode else s.shiftPressed := by
  by_cases h : keyOf scancode = 42 ∨ keyOf scancode = 54
  · have hset : keyboardHandler s scancode = { s with shiftPressed := isPress scancode } := if_pos h
    rw [hset,if_pos h]
  · have hother : ¬ (scancode &&& ~~~kbdReleaseMask = 42 ∨ scancode &&& ~~~kbdReleaseMask = 54) := h
    rw [if_neg h]
    simp only [keyboardHandler,if_neg hother,kbdBufferPush]
    split_ifs <;> rfl

theorem shiftPressed_after (ops : List Op) :
    (after ops).shiftPressed = (lastShift (scancodes ops)).any isPress := by
  induction ops using List.reverseRecOn with
  | nil => rfl
  | append_singleton ops op ih =>
    rw [after_concat,scancodes_concat]
    cases op with
    | keyboardHandler scancode =>
      have hcodes : scancodes [.keyboardHandler scancode] = [scancode] := rfl
      have hstep : (step (after ops) (.keyboardHandler scancode)).1 = keyboardHandler (after ops) scancode := rfl
      rw [hcodes,hstep,lastShift_concat,shiftPressed_handler,ih]
      split_ifs <;> rfl
    | keyboardGetchar =>
      have hcodes : scancodes [.keyboardGetchar] = [] := rfl
      have hstep : (step (after ops) .keyboardGetchar).1.shiftPressed = (after ops).shiftPressed := by
        simp only [step,keyboardGetchar]
        split_ifs <;> rfl
      rw [hcodes,hstep,List.append_nil,ih]

theorem find?_of_narrower {α : Type} {p q : α → Bool} (hpq : ∀ a, p a = true → q a = true) {l : List α}
    {a : α} (hq : l.find? q = some a) (ha : p a = true) : l.find? p = some a := by
  obtain ⟨-,before,rest,rfl,hbefore⟩ := List.find?_eq_some_iff_append.mp hq
  refine List.find?_eq_some_iff_append.mpr ⟨ha,before,rest,rfl,fun b hb => ?_⟩
  have hnone := hbefore b hb
  simp only [Bool.not_eq_true'] at hnone ⊢
  exact Bool.eq_false_iff.mpr fun hb => Bool.eq_false_iff.mp hnone (hpq b hb)

theorem held_of_lastShift {codes : List UInt8} {scancode : UInt8} (h : lastShift codes = some scancode)
    {key : UInt8} (hkey : key = 42 ∨ key = 54) (hcode : keyOf scancode = key) :
    held key codes = isPress scancode := by
  have hfind : codes.reverse.find? (fun code => keyOf code = key) = some scancode := by
    refine find?_of_narrower (fun code hcode => ?_) h (by simpa using hcode)
    have heq : keyOf code = key := by simpa using hcode
    simpa [heq] using hkey
  rw [held,hfind]
  rfl

theorem held_of_lastShift_none {codes : List UInt8} (h : lastShift codes = none) {key : UInt8}
    (hkey : key = 42 ∨ key = 54) : held key codes = false := by
  have hfind : codes.reverse.find? (fun code => keyOf code = key) = none := by
    rw [List.find?_eq_none]
    intro code hcode heq
    have hnot := List.find?_eq_none.mp h code hcode
    have hsame : keyOf code = key := by simpa using heq
    exact hnot (by simpa [hsame] using hkey)
  rw [held,hfind]
  rfl

end Shift

/-- After every run, Shift is on just if a Shift key is held, unless the last scancode of a
Shift key is the release of one while the other one is held. -/
theorem shift_follows_keys_iff (ops : List Op) : FollowsKeys ops ↔ ¬ OtherHeld (scancodes ops) := by
  rw [FollowsKeys,shiftPressed_after]
  cases hlast : lastShift (scancodes ops) with
  | none =>
    have hleft := held_of_lastShift_none hlast (Or.inl rfl)
    have hright := held_of_lastShift_none hlast (Or.inr rfl)
    simp [OtherHeld,hlast,hleft,hright]
  | some scancode =>
    have hshift : keyOf scancode = 42 ∨ keyOf scancode = 54 := by simpa using List.find?_some hlast
    rcases hshift with hleft | hright
    · have hheld := held_of_lastShift hlast (Or.inl rfl) hleft
      cases hrelease : isRelease scancode with
      | true => simp [OtherHeld,hlast,hleft,hheld,isPress,hrelease]
      | false => simp [OtherHeld,hlast,hheld,isPress,hrelease]
    · have hheld := held_of_lastShift hlast (Or.inr rfl) hright
      cases hrelease : isRelease scancode with
      | true => simp [OtherHeld,hlast,hright,hheld,isPress,hrelease]
      | false => simp [OtherHeld,hlast,hheld,isPress,hrelease]

/-- The left key goes down, the right one goes down, the left one goes up. -/
theorem release_of_one_shift :
    Alternates [42,54,0xAA] ∧
      ¬ FollowsKeys [.keyboardHandler 42,.keyboardHandler 54,.keyboardHandler 0xAA] := by
  constructor
  · have hone := (Runs.everyStep_concat KeepsOrder [] 42).mpr ⟨Runs.everyStep_nil _,by decide⟩
    have htwo := (Runs.everyStep_concat KeepsOrder [42] 54).mpr ⟨hone,by decide⟩
    exact (Runs.everyStep_concat KeepsOrder [42,54] 0xAA).mpr ⟨htwo,by decide⟩
  · unfold FollowsKeys
    decide +kernel

end Keyboard
end ValiantCore
