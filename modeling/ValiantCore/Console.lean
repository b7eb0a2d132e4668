import ValiantCore.PsfFont
import ValiantCore.Runs

/-! The text console of `drivers/font.c`. The cursor counts cells of the font; a line that is
full is continued in the next one, and after the last line the screen is cleared. -/
namespace ValiantCore
namespace Console

open PsfFont (Font Draw Region newline)

structure State where
  cursorX : UInt32
  cursorY : UInt32
  fgColor : UInt32
  bgColor : UInt32
  deriving DecidableEq, Repr

def backspace : UInt8 := 8
def space : UInt8 := 32

section Printing
variable (fb : Framebuffer.State) (font : Font)

def cols : UInt32 := fb.width/font.width
def rows : UInt32 := fb.height/font.height

def drawAt (s : State) (c : UInt8) : Draw :=
  .glyph (s.cursorX*font.width) (s.cursorY*font.height) c s.fgColor s.bgColor 1

def lineBreak (s : State) : State := { s with cursorX := 0, cursorY := s.cursorY+1 }

/-- One byte, before the test for the last row. -/
def putByte (s : State) (c : UInt8) : State × List Draw :=
  if c = newline then (lineBreak s,[])
  else if c = backspace then
    if s.cursorX > 0 then
      let s' := { s with cursorX := s.cursorX-1 }
      (s',[drawAt font s' space])
    else (s,[])
  else if s.cursorX+1 ≥ cols fb font then (lineBreak s,[drawAt font s c])
  else ({ s with cursorX := s.cursorX+1 },[drawAt font s c])

/-- Behind the last row the screen is cleared and the cursor goes to its first cell. -/
def clearAtEnd (s : State) : State × List Draw :=
  if s.cursorY ≥ rows fb font then
    ({ s with cursorX := 0, cursorY := 0 },[.fill 0 0 fb.width fb.height s.bgColor])
  else (s,[])

def printBytes (s : State) : List UInt8 → State × List Draw
  | [] => (s,[])
  | c::cs =>
    let put := putByte fb font s c
    let cleared := clearAtEnd fb font put.1
    let rest := printBytes cleared.1 cs
    (rest.1,put.2++cleared.2++rest.2)

def kprint (s : State) (str : Option (List UInt8)) : State × List Draw :=
  match str with
  | none => (s,[])
  | some cs => if fb.ready ∧ font.ready then printBytes fb font s cs else (s,[])

def kprintColor (s : State) (str : Option (List UInt8)) (fg bg : UInt32) : State × List Draw :=
  let r := kprint fb font { s with fgColor := fg, bgColor := bg } str
  ({ r.1 with fgColor := s.fgColor, bgColor := s.bgColor },r.2)

inductive Call
  | kprint (str : Option (List UInt8))
  | kprintColor (str : Option (List UInt8)) (fg bg : UInt32)
  deriving DecidableEq, Repr

def call (s : State) : Call → State × List Draw
  | .kprint str => kprint fb font s str
  | .kprintColor str fg bg => kprintColor fb font s str fg bg

def drawn (s : State) (calls : List Call) : List Draw :=
  (Runs.trace (call fb font) s calls).flatMap fun e => e.out

def screen : Region := ⟨0,0,fb.width.toNat,fb.height.toNat⟩

/-- An 8-wide font, and a screen of one cell or more. -/
structure Grid : Prop where
  width : font.width = 8
  height : font.height = font.charsize
  charsize : 1 ≤ font.charsize.toNat
  cols : font.width.toNat ≤ fb.width.toNat
  rows : font.height.toNat ≤ fb.height.toNat

def InGrid (s : State) : Prop :=
  s.cursorX.toNat < (cols fb font).toNat ∧ s.cursorY.toNat < (rows fb font).toNat

/-- It may also have come to the line behind the last one. -/
def AtMost (s : State) : Prop :=
  s.cursorX.toNat < (cols fb font).toNat ∧ s.cursorY.toNat ≤ (rows fb font).toNat

end Printing

section Cursor
variable {fb : Framebuffer.State} {font : Font} (hg : Grid fb font) {s : State}

theorem cell_within (c : UInt8) (hs : InGrid fb font s) : (drawAt font s c).Within font (screen fb) := by
  obtain ⟨hx,hy⟩ := hs
  rw [cols,UInt32.toNat_div] at hx
  rw [rows,UInt32.toNat_div] at hy
  have hright := Nat.mul_le_of_le_div _ _ _ (Nat.succ_le_of_lt hx)
  have hbottom := Nat.mul_le_of_le_div _ _ _ (Nat.succ_le_of_lt hy)
  have hw := fb.width.toNat_lt
  have hh := fb.height.toNat_lt
  rw [Nat.succ_mul] at hright hbottom
  change (screen fb).Covers _ _ _ _
  rw [UInt32.toNat_mul,UInt32.toNat_mul,Nat.mod_eq_of_lt (by omega),Nat.mod_eq_of_lt (by omega)]
  simp only [Region.Covers,screen]
  omega

include hg

theorem cols_pos : 0 < (cols fb font).toNat := by
  rw [cols,UInt32.toNat_div,hg.width]
  exact Nat.div_pos (by simpa [hg.width] using hg.cols) (by decide)

theorem rows_pos : 0 < (rows fb font).toNat := by
  rw [rows,UInt32.toNat_div]
  exact Nat.div_pos hg.rows (by rw [hg.height]; exact hg.charsize)

theorem lineBreak_atMost (hs : InGrid fb font s) : AtMost fb font (lineBreak s) := by
  have hrows := (rows fb font).toNat_lt
  have hy : (s.cursorY+1).toNat = s.cursorY.toNat+1 := by
    rw [UInt32.toNat_add,UInt32.toNat_one]
    have h := hs.2
    omega
  exact ⟨cols_pos hg,by rw [lineBreak,hy]; exact hs.2⟩

/-- What one byte does: what it draws is in the grid, and so is the cursor, or it is in the
line behind the last one. -/
theorem putByte_spec (c : UInt8) (hs : InGrid fb font s) :
    AtMost fb font (putByte fb font s c).1 ∧ ∀ d ∈ (putByte fb font s c).2, d.Within font (screen fb) := by
  have hcols := (cols fb font).toNat_lt
  obtain ⟨hx,hy⟩ := hs
  unfold putByte
  split_ifs with hnewline hback hpos hfull
  · exact ⟨lineBreak_atMost hg ⟨hx,hy⟩,List.forall_mem_nil _⟩
  · have hleft : (s.cursorX-1).toNat = s.cursorX.toNat-1 := by
      have hpos' : 0 < s.cursorX.toNat := UInt32.lt_iff_toNat_lt.mp hpos
      have hlt := s.cursorX.toNat_lt
      rw [UInt32.toNat_sub,UInt32.toNat_one]
      omega
    have hin : InGrid fb font { s with cursorX := s.cursorX-1 } := ⟨by rw [hleft]; omega,hy⟩
    exact ⟨⟨hin.1,hin.2.le⟩,List.forall_mem_singleton.mpr (cell_within space hin)⟩
  · exact ⟨⟨hx,hy.le⟩,List.forall_mem_nil _⟩
  · exact ⟨lineBreak_atMost hg ⟨hx,hy⟩,List.forall_mem_singleton.mpr (cell_within c ⟨hx,hy⟩)⟩
  · exact ⟨⟨by simpa [UInt32.lt_iff_toNat_lt] using hfull,hy.le⟩,
      List.forall_mem_singleton.mpr (cell_within c ⟨hx,hy⟩)⟩

theorem clearAtEnd_spec (hs : AtMost fb font s) :
    InGrid fb font (clearAtEnd fb font s).1 ∧ ∀ d ∈ (clearAtEnd fb font s).2, d.Within font (screen fb) := by
  unfold clearAtEnd
  split_ifs with hlast
  · refine ⟨⟨cols_pos hg,rows_pos hg⟩,List.forall_mem_singleton.mpr ?_⟩
    simp [Draw.Within,Region.Covers,screen]
  · exact ⟨⟨hs.1,by simpa [UInt32.lt_iff_toNat_lt] using hlast⟩,List.forall_mem_nil _⟩

theorem printBytes_spec (cs : List UInt8) (hs : InGrid fb font s) :
    InGrid fb font (printBytes fb font s cs).1 ∧
      ∀ d ∈ (printBytes fb font s cs).2, d.Within font (screen fb) := by
  induction cs generalizing s with
  | nil => exact ⟨hs,List.forall_mem_nil _⟩
  | cons c cs ih =>
    obtain ⟨hput,hputIn⟩ := putByte_spec hg c hs
    obtain ⟨hclear,hclearIn⟩ := clearAtEnd_spec hg hput
    obtain ⟨hrest,hrestIn⟩ := ih hclear
    have hbyteIn := List.forall_mem_append.mpr ⟨hputIn,hclearIn⟩
    exact ⟨hrest,List.forall_mem_append.mpr ⟨hbyteIn,hrestIn⟩⟩

theorem kprint_spec (str : Option (List UInt8)) (hs : InGrid fb font s) :
    InGrid fb font (kprint fb font s str).1 ∧ ∀ d ∈ (kprint fb font s str).2, d.Within font (screen fb) := by
  cases str with
  | none => exact ⟨hs,List.forall_mem_nil _⟩
  | some cs =>
    simp only [kprint]
    split_ifs
    · exact printBytes_spec hg cs hs
    · exact ⟨hs,List.forall_mem_nil _⟩

theorem call_spec (op : Call) (hs : InGrid fb font s) :
    InGrid fb font (call fb font s op).1 ∧ ∀ d ∈ (call fb font s op).2, d.Within font (screen fb) := by
  cases op with
  | kprint str => exact kprint_spec hg str hs
  | kprintColor str fg bg => exact kprint_spec (s := { s with fgColor := fg, bgColor := bg }) hg str hs

/-- The cursor stays in the grid, and every glyph is drawn in a cell on the screen, whatever
is printed. -/
theorem kprint_calls_on_screen (hs : InGrid fb font s) (calls : List Call) :
    InGrid fb font (Runs.exec (call fb font) s calls) ∧
      ∀ d ∈ drawn fb font s calls, d.Within font (screen fb) := by
  induction calls generalizing s with
  | nil => exact ⟨hs,List.forall_mem_nil _⟩
  | cons op calls ih =>
    obtain ⟨hcall,hcallIn⟩ := call_spec hg op hs
    obtain ⟨hrest,hrestIn⟩ := ih hcall
    exact ⟨hrest,List.forall_mem_append.mpr ⟨hcallIn,hrestIn⟩⟩

end Cursor

/-- A font of 16 rows on a screen of 80 times 30 cells. -/
def demoFont : Font := ⟨fun _ => 0,256,16,8,16,true⟩
def demoScreen : Framebuffer.State := ⟨0xE0000000,2560,640,480,32,true⟩

theorem kprint_calls_on_screen_demo :
    InGrid demoScreen demoFont (Runs.exec (call demoScreen demoFont) ⟨79,29,0xFFFFFF,0⟩
        [.kprint (some [65,10,8]),.kprintColor (some [66,8]) 0xFF0000 0]) ∧
      ∀ d ∈ drawn demoScreen demoFont ⟨79,29,0xFFFFFF,0⟩
        [.kprint (some [65,10,8]),.kprintColor (some [66,8]) 0xFF0000 0], d.Within demoFont (screen demoScreen) :=
  kprint_calls_on_screen ⟨rfl,rfl,by decide,by decide,by decide⟩ ⟨by decide,by decide⟩ _

end Console
end ValiantCore
