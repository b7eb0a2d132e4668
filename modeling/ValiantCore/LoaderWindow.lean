import ValiantCore.PsfFont
import ValiantCore.Runs

/-! The window of `loaders/vef-loader.c`. Text is continued in the next line where a line is
full, and in the first one, after the content area has been cleared, where the last line is. -/
namespace ValiantCore
namespace LoaderWindow

open PsfFont (Font Draw Region newline fontDrawString fontInit)

def winBg : UInt32 := 0x000000
def winBorder : UInt32 := 0x444444
def winTitleBg : UInt32 := 0x1A1A2E
def winTitleFg : UInt32 := 0xCCCCCC

structure Window where
  x : UInt32
  y : UInt32
  w : UInt32
  h : UInt32
  textX : UInt32
  textY : UInt32
  textStartY : UInt32
  active : Bool
  deriving DecidableEq, Repr

inductive Title
  | error | security | running
  deriving DecidableEq, Repr

def Title.text : Title → List UInt8
  | .error => "VEF Loader - Error".toList.map Char.toUInt8
  | .security => "VEF Loader - Security".toList.map Char.toUInt8
  | .running => "ValiantCore VEF - Running".toList.map Char.toUInt8

section Printing
variable (fb : Framebuffer.State) (font : Font)

def vefWinOpen (title : List UInt8) : Window × List Draw :=
  let w := 600
  let h := 400
  let x := (fb.width-w)/2
  let y := (fb.height-h)/2
  let textY := y+font.height+18
  (⟨x,y,w,h,x+8,textY,textY,true⟩,
    [.fill (x-2) (y-2) (w+4) (h+4) winBorder,.fill x y w (font.height+10) winTitleBg]++
      fontDrawString font (x+8) (y+5) (some title) winTitleFg winTitleBg 1++
      [.fill x (y+font.height+10) w (h-font.height-10) winBg])

def maxX (win : Window) : UInt32 := win.x+win.w-8
def maxY (win : Window) : UInt32 := win.y+win.h-font.height-4

/-- The next line; after the last one the content area is cleared. -/
def lineBreak (win : Window) : Window × List Draw :=
  if win.textY+(font.height+2) > maxY font win then
    ({ win with textX := win.x+8, textY := win.textStartY },
      [.fill win.x (win.y+font.height+10) win.w (win.h+font.height-10) winBg])
  else ({ win with textX := win.x+8, textY := win.textY+(font.height+2) },[])

def putChar (win : Window) (c : UInt8) (color : UInt32) : Window × List Draw :=
  ({ win with textX := win.textX+font.width },fontDrawString font win.textX win.textY (some [c]) color winBg 1)

/-- `*s == '\n' || vef_win.text_x + fw > max_x` -/
def Breaks (win : Window) (c : UInt8) : Prop := c = newline ∨ win.textX+font.width > maxX win

instance (win : Window) (c : UInt8) : Decidable (Breaks font win c) := by
  unfold Breaks
  infer_instance

def printByte (win : Window) (op : UInt8 × UInt32) : Window × List Draw :=
  if Breaks font win op.1 then
    let broken := lineBreak font win
    if op.1 = newline then broken
    else
      let put := putChar font broken.1 op.1 op.2
      (put.1,broken.2++put.2)
  else putChar font win op.1 op.2

def printBytes (win : Window) (color : UInt32) : List UInt8 → Window × List Draw
  | [] => (win,[])
  | c::cs =>
    let put := printByte font win (c,color)
    let rest := printBytes put.1 color cs
    (rest.1,put.2++rest.2)

def vefWinPrint (win : Window) (s : Option (List UInt8)) (color : UInt32) : Window × List Draw :=
  match s with
  | none => (win,[])
  | some cs => if win.active then printBytes font win color cs else (win,[])

def call (win : Window) (op : Option (List UInt8) × UInt32) : Window × List Draw :=
  vefWinPrint font win op.1 op.2

/-- All that is drawn by a window with some calls of `vef_win_print`. -/
def drawn (title : List UInt8) (calls : List (Option (List UInt8) × UInt32)) : List Draw :=
  (vefWinOpen fb font title).2++
    (Runs.trace (call font) (vefWinOpen fb font title).1 calls).flatMap fun e => e.out

def frame (win : Window) : Region :=
  ⟨win.x.toNat-2,win.y.toNat-2,win.x.toNat+win.w.toNat+2,win.y.toNat+win.h.toNat+2⟩

def bytesOf (calls : List (Option (List UInt8) × UInt32)) : List (UInt8 × UInt32) :=
  calls.flatMap fun op => (op.1.getD []).map fun c => (c,op.2)

/-- A byte after which the content area is cleared. -/
def Clears (win : Window) (c : UInt8) : Prop :=
  Breaks font win c ∧ win.textY+(font.height+2) > maxY font win

/-- The byte does not make the window clear its content area, unless the font has one row
at most; and a font of more than 192 rows has no character in the first line. -/
def Tame (win : Window) (op : UInt8 × UInt32) : Prop :=
  (Clears font win op.1 → font.height.toNat ≤ 1) ∧
    (¬ Breaks font win op.1 → win.textY = win.textStartY → font.height.toNat ≤ 192)

end Printing

/-- The window is where it has been opened, and its text goes on in a line that ends above
the lower edge, or in the first one. -/
structure Opened (fb : Framebuffer.State) (font : Font) (win : Window) : Prop where
  x : win.x.toNat = (fb.width.toNat-600)/2
  y : win.y.toNat = (fb.height.toNat-400)/2
  w : win.w = 600
  h : win.h = 400
  textX : win.x.toNat+8 ≤ win.textX.toNat ∧ win.textX.toNat ≤ win.x.toNat+592
  textStartY : win.textStartY.toNat = win.y.toNat+font.height.toNat+18
  textY : win.textY = win.textStartY ∨
    (win.y.toNat ≤ win.textY.toNat ∧ win.textY.toNat+font.height.toNat ≤ win.y.toNat+396)
  active : win.active = true

section Steps
variable {fb : Framebuffer.State} {font : Font} (hwidth : font.width = 8) (hheight : font.height.toNat < 256)
  {win : Window} (hwin : Opened fb font win)
include hwin

theorem Opened.x_lt : win.x.toNat < 2^31 := by
  have hfb := fb.width.toNat_lt
  have hx := hwin.x
  omega

theorem Opened.y_lt : win.y.toNat < 2^31 := by
  have hfb := fb.height.toNat_lt
  have hy := hwin.y
  omega

theorem Opened.size : win.w.toNat = 600 ∧ win.h.toNat = 400 := by
  rw [hwin.w,hwin.h]
  exact ⟨rfl,rfl⟩

theorem Opened.textY_ge : win.y.toNat ≤ win.textY.toNat := by
  have hstart := hwin.textStartY
  rcases hwin.textY with h | h
  · rw [h]
    omega
  · exact h.1

theorem Opened.maxX : (maxX win).toNat = win.x.toNat+592 := by
  have hx := hwin.x_lt
  rw [LoaderWindow.maxX,hwin.w]
  simp only [UInt32.toNat_sub,UInt32.toNat_add,UInt32.reduceToNat]
  omega

include hheight

theorem Opened.maxY : (maxY font win).toNat+font.height.toNat = win.y.toNat+396 := by
  have hy := hwin.y_lt
  rw [LoaderWindow.maxY,hwin.h]
  simp only [UInt32.toNat_sub,UInt32.toNat_add,UInt32.reduceToNat]
  omega

theorem Opened.textY_lt : win.textY.toNat < win.y.toNat+400 := by
  have hstart := hwin.textStartY
  rcases hwin.textY with h | h
  · rw [h]
    omega
  · omega

theorem Opened.nextLine : (win.textY+(font.height+2)).toNat = win.textY.toNat+font.height.toNat+2 := by
  have hy := hwin.y_lt
  have htext := hwin.textY_lt hheight
  simp only [UInt32.toNat_add,UInt32.reduceToNat]
  omega

theorem Opened.lineBreak : Opened fb font (lineBreak font win).1 := by
  have hx := hwin.x_lt
  have hmax := hwin.maxY hheight
  have hnext := hwin.nextLine hheight
  have hleft : (win.x+8).toNat = win.x.toNat+8 := by
    simp only [UInt32.toNat_add,UInt32.reduceToNat]
    omega
  have htextX : win.x.toNat+8 ≤ (win.x+8).toNat ∧ (win.x+8).toNat ≤ win.x.toNat+592 := by omega
  unfold LoaderWindow.lineBreak
  split_ifs with hlast
  · exact ⟨hwin.x,hwin.y,hwin.w,hwin.h,htextX,hwin.textStartY,Or.inl rfl,hwin.active⟩
  · rw [gt_iff_lt,UInt32.lt_iff_toNat_lt,not_lt] at hlast
    refine ⟨hwin.x,hwin.y,hwin.w,hwin.h,htextX,hwin.textStartY,Or.inr ?_,hwin.active⟩
    change win.y.toNat ≤ (win.textY+(font.height+2)).toNat ∧
      (win.textY+(font.height+2)).toNat+font.height.toNat ≤ win.y.toNat+396
    have hlow := hwin.textY_ge
    omega

theorem lineBreak_within_iff :
    (∀ d ∈ (lineBreak font win).2, d.Within font (frame win)) ↔
      (win.textY+(font.height+2) > LoaderWindow.maxY font win → font.height.toNat ≤ 1) := by
  have hx := hwin.x_lt
  have hy := hwin.y_lt
  unfold lineBreak
  split_ifs with hlast
  · have htop : (win.y+font.height+10).toNat = win.y.toNat+font.height.toNat+10 := by
      simp only [UInt32.toNat_add,UInt32.reduceToNat]
      omega
    have hheight' : (win.h+font.height-10).toNat = font.height.toNat+390 := by
      rw [hwin.h]
      simp only [UInt32.toNat_sub,UInt32.toNat_add,UInt32.reduceToNat]
      omega
    obtain ⟨hw,hh⟩ := hwin.size
    simp only [List.forall_mem_singleton,Draw.Within,Region.Covers,frame,htop,hheight',hw,hh]
    constructor
    · intro h _
      omega
    · intro h
      have h1 := h hlast
      omega
  · exact iff_of_true (List.forall_mem_nil _) fun h => absurd h hlast

theorem lineBreak_textY :
    (win.textY+(font.height+2) > LoaderWindow.maxY font win ∧
        (lineBreak font win).1.textY.toNat = win.y.toNat+font.height.toNat+18) ∨
      (lineBreak font win).1.textY.toNat+font.height.toNat ≤ win.y.toNat+396 := by
  have hmax := hwin.maxY hheight
  unfold lineBreak
  split_ifs with hlast
  · exact Or.inl ⟨hlast,hwin.textStartY⟩
  · rw [gt_iff_lt,UInt32.lt_iff_toNat_lt,not_lt] at hlast
    refine Or.inr ?_
    change (win.textY+(font.height+2)).toNat+font.height.toNat ≤ win.y.toNat+396
    omega

end Steps

theorem lineBreak_place (font : Font) (win : Window) :
    frame (lineBreak font win).1 = frame win ∧ (lineBreak font win).1.x = win.x ∧
      (lineBreak font win).1.y = win.y ∧ (lineBreak font win).1.textX = win.x+8 := by
  unfold lineBreak
  split_ifs
  · exact ⟨rfl,rfl,rfl,rfl⟩
  · exact ⟨rfl,rfl,rfl,rfl⟩

theorem fontDrawString_char {font : Font} {x y : UInt32} {c : UInt8} {fg bg : UInt32} (hc : c ≠ newline) :
    fontDrawString font x y (some [c]) fg bg 1 = [.glyph x y c fg bg 1] := by
  simp [fontDrawString,PsfFont.drawString,hc]

theorem frame_printByte (font : Font) (win : Window) (op : UInt8 × UInt32) :
    frame (printByte font win op).1 = frame win := by
  obtain ⟨hframe,-⟩ := lineBreak_place font win
  unfold printByte
  split_ifs
  · exact hframe
  · exact hframe
  · rfl

theorem room_of_lineBreak {fb : Framebuffer.State} {font : Font} {win : Window} (hwin : Opened fb font win) :
    (lineBreak font win).1.textX.toNat+8 ≤ (lineBreak font win).1.x.toNat+592 := by
  obtain ⟨-,hx,-,htextX⟩ := lineBreak_place font win
  have hlt := hwin.x_lt
  rw [htextX,hx]
  simp only [UInt32.toNat_add,UInt32.reduceToNat]
  omega

section Bytes
variable {fb : Framebuffer.State} {font : Font} (hwidth : font.width = 8) (hheight : font.height.toNat < 256)
  {win : Window} (hwin : Opened fb font win)
include hwidth hwin

theorem room_of_not_breaks {c : UInt8} (h : ¬ Breaks font win c) : win.textX.toNat+8 ≤ win.x.toNat+592 := by
  have hx := hwin.x_lt
  have htext := hwin.textX
  have hfull : ¬ win.textX+font.width > maxX win := fun hfull => h (Or.inr hfull)
  rw [gt_iff_lt,UInt32.lt_iff_toNat_lt,hwin.maxX,hwidth] at hfull
  simp only [UInt32.toNat_add,UInt32.reduceToNat] at hfull
  omega

theorem Opened.putChar (hroom : win.textX.toNat+8 ≤ win.x.toNat+592) (c : UInt8) (color : UInt32) :
    Opened fb font (putChar font win c color).1 := by
  have hx := hwin.x_lt
  have htext := hwin.textX
  have hnext : (win.textX+font.width).toNat = win.textX.toNat+8 := by
    rw [hwidth]
    simp only [UInt32.toNat_add,UInt32.reduceToNat]
    omega
  refine ⟨hwin.x,hwin.y,hwin.w,hwin.h,?_,hwin.textStartY,hwin.textY,hwin.active⟩
  change win.x.toNat+8 ≤ (win.textX+font.width).toNat ∧ (win.textX+font.width).toNat ≤ win.x.toNat+592
  omega

theorem putChar_within_iff (hroom : win.textX.toNat+8 ≤ win.x.toNat+592) {c : UInt8} (hc : c ≠ newline)
    (color : UInt32) (hy : win.y.toNat ≤ win.textY.toNat) :
    (∀ d ∈ (putChar font win c color).2, d.Within font (frame win)) ↔
      win.textY.toNat+font.height.toNat ≤ win.y.toNat+402 := by
  have htext := hwin.textX
  obtain ⟨hw,hh⟩ := hwin.size
  have hcell : font.width.toNat = 8 := by rw [hwidth]; rfl
  rw [LoaderWindow.putChar,fontDrawString_char hc]
  simp only [List.forall_mem_singleton,Draw.Within,Region.Covers,frame,hw,hh,hcell]
  omega

include hheight

theorem Opened.printByte (op : UInt8 × UInt32) : Opened fb font (printByte font win op).1 := by
  have hbroken := hwin.lineBreak hheight
  unfold LoaderWindow.printByte
  split_ifs with hbreaks hnewline
  · exact hbroken
  · exact hbroken.putChar hwidth (room_of_lineBreak hwin) op.1 op.2
  · exact hwin.putChar hwidth (room_of_not_breaks hwidth hwin hbreaks) op.1 op.2

theorem printByte_within_iff (op : UInt8 × UInt32) :
    (∀ d ∈ (printByte font win op).2, d.Within font (frame win)) ↔ Tame font win op := by
  have hbroken := hwin.lineBreak hheight
  obtain ⟨hframe,-,hy,-⟩ := lineBreak_place font win
  unfold LoaderWindow.printByte Tame Clears
  split_ifs with hbreaks hnewline
  · rw [lineBreak_within_iff hheight hwin]
    simp [hbreaks]
  · -- a character in the next line, or in the first one behind the clear
    have hput := putChar_within_iff hwidth hbroken (room_of_lineBreak hwin) hnewline op.2
      hbroken.textY_ge
    rw [hframe,hy] at hput
    rw [List.forall_mem_append,lineBreak_within_iff hheight hwin,hput]
    have htext := lineBreak_textY hheight hwin
    constructor
    · rintro ⟨hclear,-⟩
      exact ⟨fun h => hclear h.2,fun h => absurd hbreaks h⟩
    · rintro ⟨hclear,-⟩
      refine ⟨fun h => hclear ⟨hbreaks,h⟩,?_⟩
      rcases htext with ⟨hlast,htext⟩ | htext
      · have hsmall := hclear ⟨hbreaks,hlast⟩
        omega
      · omega
  · have hc : op.1 ≠ newline := fun hc => hbreaks (Or.inl hc)
    rw [putChar_within_iff hwidth hwin (room_of_not_breaks hwidth hwin hbreaks) hc op.2 hwin.textY_ge]
    have hstart := hwin.textStartY
    constructor
    · intro hin
      refine ⟨fun h => absurd h.1 hbreaks,fun _ hfirst => ?_⟩
      rw [hfirst] at hin
      omega
    · rintro ⟨-,hfirst⟩
      rcases hwin.textY with htext | htext
      · have hsmall := hfirst hbreaks htext
        rw [htext]
        omega
      · omega

end Bytes

section Texts
variable {fb : Framebuffer.State} {font : Font} {win : Window}

theorem printBytes_eq (color : UInt32) (cs : List UInt8) :
    (printBytes font win color cs).1 = Runs.exec (printByte font) win (cs.map fun c => (c,color)) ∧
      (printBytes font win color cs).2 =
        (Runs.trace (printByte font) win (cs.map fun c => (c,color))).flatMap fun e => e.out := by
  induction cs generalizing win with
  | nil => exact ⟨rfl,rfl⟩
  | cons c cs ih =>
    obtain ⟨hstate,hdraws⟩ := @ih (printByte font win (c,color)).1
    refine ⟨hstate,?_⟩
    rw [List.map_cons,Runs.trace_cons,List.flatMap_cons,← hdraws]
    rfl

theorem printByte_active (op : UInt8 × UInt32) : (printByte font win op).1.active = win.active := by
  have hbroken : (lineBreak font win).1.active = win.active := by
    unfold lineBreak
    split_ifs
    · rfl
    · rfl
  unfold printByte
  split_ifs
  · exact hbroken
  · exact hbroken
  · rfl

theorem calls_eq (hactive : win.active = true) (calls : List (Option (List UInt8) × UInt32)) :
    (Runs.trace (call font) win calls).flatMap (fun e => e.out) =
      (Runs.trace (printByte font) win (bytesOf calls)).flatMap fun e => e.out := by
  induction calls generalizing win with
  | nil => rfl
  | cons op calls ih =>
    obtain ⟨s,color⟩ := op
    cases s with
    | none => exact ih hactive
    | some cs =>
      have hcall : call font win (some cs,color) = printBytes font win color cs := by
        simp [call,vefWinPrint,hactive]
      obtain ⟨hstate,hdraws⟩ := @printBytes_eq font win color cs
      have hafter : (printBytes font win color cs).1.active = true := by
        rw [hstate]
        exact Runs.exec_invariant (printByte font) (fun w => w.active = true)
          (fun w op h => (printByte_active op).trans h) hactive _
      rw [Runs.trace_cons,List.flatMap_cons,hcall,ih hafter,hdraws,hstate]
      change _ = (Runs.trace (printByte font) win ((cs.map fun c => (c,color))++bytesOf calls)).flatMap _
      rw [Runs.trace_append,List.flatMap_append]

theorem vefWinOpen_opened (hw : 604 ≤ fb.width.toNat) (hh : 404 ≤ fb.height.toNat)
    (hheight : font.height.toNat < 256) (title : List UInt8) : Opened fb font (vefWinOpen fb font title).1 := by
  have hfbw := fb.width.toNat_lt
  have hfbh := fb.height.toNat_lt
  have hx : ((fb.width-600)/2).toNat = (fb.width.toNat-600)/2 := by
    simp only [UInt32.toNat_div,UInt32.toNat_sub,UInt32.reduceToNat]
    omega
  have hy : ((fb.height-400)/2).toNat = (fb.height.toNat-400)/2 := by
    simp only [UInt32.toNat_div,UInt32.toNat_sub,UInt32.reduceToNat]
    omega
  refine ⟨hx,hy,rfl,rfl,?_,?_,Or.inl rfl,rfl⟩
  · change ((fb.width-600)/2).toNat+8 ≤ ((fb.width-600)/2+8).toNat ∧
      ((fb.width-600)/2+8).toNat ≤ ((fb.width-600)/2).toNat+592
    simp only [UInt32.toNat_add,UInt32.reduceToNat]
    omega
  · change ((fb.height-400)/2+font.height+18).toNat = ((fb.height-400)/2).toNat+font.height.toNat+18
    simp only [UInt32.toNat_add,UInt32.reduceToNat]
    omega

theorem drawString_within {r : Region} {x cx y : UInt32} {fg bg : UInt32} (hwidth : font.width = 8)
    {s : List UInt8} (hnewline : newline ∉ s) (hleft : r.left ≤ cx.toNat)
    (hright : cx.toNat+8*s.length ≤ r.right) (hplane : r.right < 2^32) (htop : r.top ≤ y.toNat)
    (hbottom : y.toNat+font.height.toNat ≤ r.bottom) :
    ∀ d ∈ PsfFont.drawString font x fg bg 1 cx y s, d.Within font r := by
  induction s generalizing cx with
  | nil => exact List.forall_mem_nil _
  | cons c s ih =>
    rw [List.mem_cons,not_or] at hnewline
    obtain ⟨hc,hs⟩ := hnewline
    have hcell : font.width.toNat = 8 := by rw [hwidth]; rfl
    have hnext : (cx+font.width*UInt32.ofNat 1).toNat = cx.toNat+8 := by
      rw [List.length_cons] at hright
      rw [hwidth,UInt32.toNat_add]
      change (cx.toNat+8)%2^32 = cx.toNat+8
      omega
    rw [List.length_cons] at hright
    rw [PsfFont.drawString,if_neg (Ne.symm hc)]
    refine List.forall_mem_cons.mpr ⟨?_,ih hs (by omega) (by omega)⟩
    simp only [Draw.Within,Region.Covers,hcell]
    omega

theorem title_fits (title : Title) : newline ∉ title.text ∧ title.text.length ≤ 25 := by
  cases title <;> decide

theorem vefWinOpen_within (hw : 604 ≤ fb.width.toNat) (hh : 404 ≤ fb.height.toNat) (hwidth : font.width = 8)
    (hheight : font.height.toNat < 256) (title : Title) :
    ∀ d ∈ (vefWinOpen fb font title.text).2, d.Within font (frame (vefWinOpen fb font title.text).1) := by
  have hopened := vefWinOpen_opened hw hh hheight title.text
  have hxlt := hopened.x_lt
  have hylt := hopened.y_lt
  have hx := hopened.x
  have hy := hopened.y
  change ((fb.width-600)/2).toNat = _ at hx
  change ((fb.height-400)/2).toNat = _ at hy
  change ((fb.width-600)/2).toNat < _ at hxlt
  change ((fb.height-400)/2).toNat < _ at hylt
  have hframe : frame (vefWinOpen fb font title.text).1 =
      ⟨((fb.width-600)/2).toNat-2,((fb.height-400)/2).toNat-2,((fb.width-600)/2).toNat+602,
        ((fb.height-400)/2).toNat+402⟩ := rfl
  obtain ⟨hnewline,hlength⟩ := title_fits title
  rw [hframe]
  refine List.forall_mem_append.mpr ⟨List.forall_mem_append.mpr ⟨?_,?_⟩,?_⟩
  · refine List.forall_mem_cons.mpr ⟨?_,List.forall_mem_singleton.mpr ?_⟩
    all_goals simp only [Draw.Within,Region.Covers,UInt32.toNat_add,UInt32.toNat_sub,UInt32.reduceToNat]
    all_goals omega
  · have hright : ((fb.width-600)/2+8).toNat = ((fb.width-600)/2).toNat+8 := by
      simp only [UInt32.toNat_add,UInt32.reduceToNat]
      omega
    have htop : ((fb.height-400)/2+5).toNat = ((fb.height-400)/2).toNat+5 := by
      simp only [UInt32.toNat_add,UInt32.reduceToNat]
      omega
    change ∀ d ∈ PsfFont.drawString font ((fb.width-600)/2+8) winTitleFg winTitleBg 1 ((fb.width-600)/2+8)
      ((fb.height-400)/2+5) title.text, _
    refine drawString_within hwidth hnewline ?_ ?_ ?_ ?_ ?_
    all_goals simp only [hright,htop]
    all_goals omega
  · simp only [List.forall_mem_singleton,Draw.Within,Region.Covers,UInt32.toNat_add,
      UInt32.toNat_sub,UInt32.reduceToNat]
    omega

end Texts

/-- With every font that is accepted, on every screen that has room for the frame, what the
window and its text draw stays in the frame just if all bytes of the text are tame. -/
theorem text_in_frame_iff {fb : Framebuffer.State} {font font' : Font} {data : Option (ℕ → UInt8)}
    (hfont : fontInit font' data = (font,0)) (hw : 604 ≤ fb.width.toNat) (hh : 404 ≤ fb.height.toNat)
    (title : Title) (calls : List (Option (List UInt8) × UInt32)) :
    (∀ d ∈ drawn fb font title.text calls, d.Within font (frame (vefWinOpen fb font title.text).1)) ↔
      Runs.EveryStep (fun pre op =>
        Tame font (Runs.exec (printByte font) (vefWinOpen fb font title.text).1 pre) op) (bytesOf calls) := by
  obtain ⟨hwidth,-,hheight⟩ := PsfFont.fontInit_size hfont
  have hopened := vefWinOpen_opened hw hh hheight title.text
  have hopen := vefWinOpen_within hw hh hwidth hheight title
  rw [drawn,List.forall_mem_append,and_iff_right hopen,calls_eq hopened.active]
  generalize (vefWinOpen fb font title.text).1 = win at hopened
  rw [← Runs.trace_forall_iff (printByte font) (fun w => Opened fb font w ∧ frame w = frame win) (Tame font)
    (fun draws => ∀ d ∈ draws, d.Within font (frame win))]
  · simp only [List.mem_flatMap]
    exact ⟨fun h e he d hd => h d ⟨e,he,hd⟩,fun h d hd => by
      obtain ⟨e,he,hd⟩ := hd
      exact h e he d hd⟩
  · rintro w op ⟨hw,hframe⟩
    exact ⟨hw.printByte hwidth hheight op,(frame_printByte font w op).trans hframe⟩
  · rintro w op ⟨hw,hframe⟩
    rw [← hframe]
    exact printByte_within_iff hwidth hheight hw op
  · exact ⟨hopened,rfl⟩

/-- The header of the font that the kernel brings along: 512 glyphs of 16 rows. -/
def terminus16Header (i : ℕ) : UInt8 := [0x36,0x04,0x03,0x10].getD i 0
def noFont : Font := ⟨fun _ => 0,0,0,0,0,false⟩
def terminus16 : Font := (fontInit noFont (some terminus16Header)).1
def demoScreen : Framebuffer.State := ⟨0xE0000000,2560,640,480,32,true⟩
def winFg : UInt32 := 0x00FF00

theorem text_in_frame_demo :
    (∀ d ∈ drawn demoScreen terminus16 Title.running.text [(some [79,75,10],winFg)],
        d.Within terminus16 (frame (vefWinOpen demoScreen terminus16 Title.running.text).1)) ↔
      Runs.EveryStep (fun pre op =>
        Tame terminus16 (Runs.exec (printByte terminus16)
          (vefWinOpen demoScreen terminus16 Title.running.text).1 pre) op) (bytesOf [(some [79,75,10],winFg)]) :=
  @text_in_frame_iff demoScreen terminus16 noFont (some terminus16Header) rfl (by decide) (by decide) .running _

/-- The 20th line break clears the content area, and more than that. -/
theorem twentieth_line_leaves_frame :
    ¬ ∀ d ∈ drawn demoScreen terminus16 Title.running.text [(some (List.replicate 20 newline),winFg)],
      d.Within terminus16 (frame (vefWinOpen demoScreen terminus16 Title.running.text).1) := by
  intro h
  exact absurd (h (.fill 20 66 600 406 winBg) (by decide)) (by decide)

end LoaderWindow
end ValiantCore
