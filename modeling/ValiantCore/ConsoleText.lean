import ValiantCore.Console
import ValiantCore.FramebufferPicture

/-! What the console of `drivers/font.c` shows. A terminal is a cursor and a grid of coloured
characters over a background; the pixels that `kprint` leaves are those of the terminal that
is typed on. -/
namespace ValiantCore
namespace ConsoleText

open Framebuffer (State)
open FramebufferPicture
open PsfFont (Font Draw Pixel charPixels perform glyphIndex newline)
open Console (Grid InGrid backspace space)
open Raster (Place Dot)

structure Cell where
  char : UInt8
  fg : UInt32
  bg : UInt32
  deriving DecidableEq, Repr

structure Terminal where
  col : ℕ
  row : ℕ
  cell : ℕ × ℕ → Option Cell
  base : Place → UInt32

namespace Terminal
variable (cols rows : ℕ) (fg bg : UInt32)

def lineFeed (t : Terminal) : Terminal := { t with col := 0, row := t.row+1 }

def write (t : Terminal) (c : UInt8) : Terminal :=
  { t with cell := Function.update t.cell (t.col,t.row) (some ⟨c,fg,bg⟩) }

/-- A character goes into the cell of the cursor, which moves on, over the end of the line to
the next one; a backspace empties the cell before it, if there is one in the line. -/
def put (t : Terminal) (c : UInt8) : Terminal :=
  if c = newline then t.lineFeed
  else if c = backspace then
    if 0 < t.col then write fg bg { t with col := t.col-1 } space else t
  else if cols ≤ t.col+1 then (write fg bg t c).lineFeed
  else { write fg bg t c with col := t.col+1 }

def clear (t : Terminal) : Terminal :=
  if rows ≤ t.row then ⟨0,0,fun _ => none,fun _ => bg⟩ else t

def type (t : Terminal) (c : UInt8) : Terminal := clear rows bg (put cols fg bg t c)

end Terminal

/-- Bit `col` of row `row` of the glyph of a character. -/
def glyphBit (font : Font) (c : UInt8) (row col : ℕ) : Bool :=
  (font.glyphs (glyphIndex font c*font.charsize.toNat+row)).toNat &&& 0x80 >>> col ≠ 0

/-- The colour of a pixel: that of the cell in which it is, or of the background. -/
def picture (font : Font) (t : Terminal) (p : Place) : UInt32 :=
  match t.cell (p.1/8,p.2/font.height.toNat) with
  | some k => if glyphBit font k.char (p.2%font.height.toNat) (p.1%8) then k.fg else k.bg
  | none => t.base p

/-- The terminal after a call; the colours of `kprint` are those of the console. -/
def typed (cols rows : ℕ) (fg bg : UInt32) (t : Terminal) : Console.Call → Terminal
  | .kprint str => (str.getD []).foldl (Terminal.type cols rows fg bg) t
  | .kprintColor str fg bg => (str.getD []).foldl (Terminal.type cols rows fg bg) t

theorem cell_place {n k : ℕ} (y : ℕ) (hk : k < n) : (y*n+k)/n = y ∧ (y*n+k)%n = k := by
  rw [Nat.mul_comm y n,Nat.mul_add_div (by omega),Nat.mul_add_mod,Nat.div_eq_of_lt hk,Nat.mod_eq_of_lt hk]
  exact ⟨rfl,rfl⟩

theorem mem_charPixels {font : Font} {x y : UInt32} {c : UInt8} {fg bg : UInt32} {q : Pixel} :
    q ∈ charPixels font x y c fg bg 1 ↔ ∃ row < font.height.toNat, ∃ col < font.width.toNat,
      q = ⟨x+UInt32.ofNat col,y+UInt32.ofNat row,if glyphBit font c row col then fg else bg⟩ := by
  simp only [charPixels,List.mem_flatMap,List.mem_map,List.mem_range,Nat.lt_one_iff,exists_eq_left,
    Nat.mul_one,Nat.add_zero,glyphBit,decide_eq_true_eq,@eq_comm Pixel q]

section Glyphs
variable {fb : State} {font : Font} (h : Sound fb) (hsize : Below4G fb) (hg : Grid fb font)
  (hfont : font.ready = true)
include hsize hfont

theorem perform_glyph (m : Memory) (x y : UInt32) (c : UInt8) (fg bg : UInt32) (scale : ℕ) :
    perform font fb m (.glyph x y c fg bg scale) =
      (raster h).draw m (dots (charPixels font x y c fg bg scale)) := by
  rw [perform,if_pos ⟨hfont,h.ready⟩]
  exact plot_eq h hsize m _

omit hfont in
theorem perform_clear (m : Memory) (color : UInt32) {p : Place} (hp : (raster h).Visible p) :
    (raster h).shown (perform font fb m (.fill 0 0 fb.width fb.height color)) p = color := by
  have hx : p.1 < fb.width.toNat := hp.1
  have hy : p.2 < fb.height.toNat := hp.2
  have hmem : p ∈ rectPlaces (0 : UInt32).toNat (0 : UInt32).toNat fb.width.toNat fb.height.toNat :=
    mem_rectPlaces.mpr ⟨⟨Nat.zero_le _,by simpa using hx⟩,Nat.zero_le _,by simpa using hy⟩
  rw [perform,fbFillRect_eq h (by simp) (by simp) hsize,Raster.draw_plain_shown hp,if_pos hmem]

include hg

/-- A glyph shows in the cell in which it is drawn, and nothing changes in the others. -/
theorem glyph_shown (m : Memory) {x y : UInt32} (hx : x.toNat < (Console.cols fb font).toNat)
    (hy : y.toNat < (Console.rows fb font).toNat) (c : UInt8) (fg bg : UInt32) {p : Place}
    (hp : (raster h).Visible p) :
    (raster h).shown (perform font fb m (.glyph (x*font.width) (y*font.height) c fg bg 1)) p =
      if (p.1/8,p.2/font.height.toNat) = (x.toNat,y.toNat) then
        if glyphBit font c (p.2%font.height.toNat) (p.1%8) then fg else bg
      else (raster h).shown m p := by
  have hwidth : font.width.toNat = 8 := by
    rw [hg.width]
    rfl
  have hpos : 0 < font.height.toNat := by
    rw [hg.height]
    exact hg.charsize
  have hright := fb.width.toNat_lt
  have hbottom := fb.height.toNat_lt
  rw [Console.cols,UInt32.toNat_div] at hx
  rw [Console.rows,UInt32.toNat_div] at hy
  have hcol := Nat.mul_le_of_le_div _ _ _ (Nat.succ_le_of_lt hx)
  have hrow := Nat.mul_le_of_le_div _ _ _ (Nat.succ_le_of_lt hy)
  rw [Nat.succ_mul] at hcol hrow
  have hplace : ∀ {row col : ℕ} {color : UInt32}, row < font.height.toNat → col < font.width.toNat →
      place ⟨x*font.width+UInt32.ofNat col,y*font.height+UInt32.ofNat row,color⟩ =
        (x.toNat*font.width.toNat+col,y.toNat*font.height.toNat+row) := by
    intro row col color hr hc
    rw [place,Framebuffer.add_ofNat_toNat,Framebuffer.add_ofNat_toNat,UInt32.toNat_mul,UInt32.toNat_mul,
      Nat.mod_eq_of_lt (by omega : x.toNat*font.width.toNat < 2^32),
      Nat.mod_eq_of_lt (by omega : y.toNat*font.height.toNat < 2^32),Nat.mod_eq_of_lt (by omega),
      Nat.mod_eq_of_lt (by omega)]
  rw [perform_glyph h hsize hfont]
  by_cases hin : (p.1/8,p.2/font.height.toNat) = (x.toNat,y.toNat)
  · rw [if_pos hin]
    obtain ⟨hpx,hpy⟩ := Prod.mk.inj hin
    have hsub : p.2%font.height.toNat < font.height.toNat := Nat.mod_lt _ hpos
    have hsub' : p.1%8 < font.width.toNat := by
      rw [hwidth]
      exact Nat.mod_lt _ (by decide)
    have hp' : p = (x.toNat*font.width.toNat+p.1%8,y.toNat*font.height.toNat+p.2%font.height.toNat) := by
      rw [← hpx,← hpy,hwidth]
      exact Prod.ext (Nat.div_add_mod' _ _).symm (Nat.div_add_mod' _ _).symm
    refine Raster.draw_shown_of_mem hp ?_ ?_
    · rw [dots_places,List.mem_map]
      exact ⟨_,mem_charPixels.mpr ⟨_,hsub,_,hsub',rfl⟩,(hplace hsub hsub').trans hp'.symm⟩
    · intro d hd hdp
      obtain ⟨q,hq,rfl⟩ := List.mem_map.mp hd
      obtain ⟨row,hr,col,hc,rfl⟩ := mem_charPixels.mp hq
      have hpq : p = (x.toNat*font.width.toNat+col,y.toNat*font.height.toNat+row) :=
        hdp.symm.trans (hplace hr hc)
      rw [hpq,(cell_place y.toNat hr).2,hwidth,(cell_place x.toNat (hwidth ▸ hc)).2]
      rfl
  · rw [if_neg hin]
    refine Raster.draw_shown_of_notMem hp fun hmem => hin ?_
    rw [dots_places] at hmem
    obtain ⟨q,hq,rfl⟩ := List.mem_map.mp hmem
    obtain ⟨row,hr,col,hc,rfl⟩ := mem_charPixels.mp hq
    rw [hplace hr hc,(cell_place y.toNat hr).1,hwidth,(cell_place x.toNat (hwidth ▸ hc)).1]

end Glyphs

/-- The console and its screen are in the state of the terminal; of the memory `m₀` nothing but
pixels has changed. -/
structure Shows {fb : State} (h : Sound fb) (font : Font) (fg bg : UInt32) (m₀ : Memory)
    (s : Console.State) (m : Memory) (t : Terminal) : Prop where
  fg : s.fgColor = fg
  bg : s.bgColor = bg
  col : s.cursorX.toNat = t.col
  row : s.cursorY.toNat = t.row
  shown : ∀ p, (raster h).Visible p → (raster h).shown m p = picture font t p
  rest : ∀ a, ¬ (raster h).Holds a → m a = m₀ a

section Simulation
variable {fb : State} {font : Font} {h : Sound fb} (hsize : Below4G fb) (hg : Grid fb font)
  (hfont : font.ready = true) {fg bg : UInt32} {m₀ m : Memory} {s : Console.State} {t : Terminal}

def performed (font : Font) (fb : State) (m : Memory) (ds : List Draw) : Memory :=
  ds.foldl (perform font fb) m

theorem lineBreak_shows (ht : Shows h font fg bg m₀ s m t) (hs : s.cursorY.toNat < (Console.rows fb font).toNat) :
    Shows h font fg bg m₀ (Console.lineBreak s) m t.lineFeed := by
  have hlt := (Console.rows fb font).toNat_lt
  have hrow := ht.row
  refine ⟨ht.fg,ht.bg,rfl,?_,ht.shown,ht.rest⟩
  show (s.cursorY+1).toNat = t.row+1
  rw [UInt32.toNat_add,UInt32.toNat_one]
  omega

include hsize hg hfont

theorem write_shows (ht : Shows h font fg bg m₀ s m t) (hs : InGrid fb font s) (c : UInt8) :
    Shows h font fg bg m₀ s (performed font fb m [Console.drawAt font s c]) (t.write fg bg c) := by
  refine ⟨ht.fg,ht.bg,ht.col,ht.row,fun p hp => ?_,fun a ha => ?_⟩
  · refine (glyph_shown h hsize hg hfont m hs.1 hs.2 c s.fgColor s.bgColor hp).trans ?_
    rw [ht.col,ht.row,ht.fg,ht.bg,picture,Terminal.write]
    dsimp only
    by_cases hcell : (p.1/8,p.2/font.height.toNat) = (t.col,t.row)
    · rw [if_pos hcell,hcell,Function.update_self]
    · rw [if_neg hcell,Function.update_of_ne hcell,ht.shown p hp,picture]
  · have hglyph : performed font fb m [Console.drawAt font s c] = _ :=
      perform_glyph h hsize hfont m (s.cursorX*font.width) (s.cursorY*font.height) c s.fgColor s.bgColor 1
    rw [hglyph,Raster.draw_outside ha,ht.rest a ha]

theorem put_shows (ht : Shows h font fg bg m₀ s m t) (hs : InGrid fb font s) (c : UInt8) :
    Shows h font fg bg m₀ (Console.putByte fb font s c).1
      (performed font fb m (Console.putByte fb font s c).2)
      (t.put (Console.cols fb font).toNat fg bg c) := by
  have hcols := (Console.cols fb font).toNat_lt
  have hx := hs.1
  have hcol := ht.col
  unfold Console.putByte Terminal.put
  by_cases hnewline : c = newline
  · rw [if_pos hnewline,if_pos hnewline]
    exact lineBreak_shows ht hs.2
  rw [if_neg hnewline,if_neg hnewline]
  by_cases hback : c = backspace
  · rw [if_pos hback,if_pos hback]
    by_cases hpos : s.cursorX > 0
    · have hpos' : 0 < s.cursorX.toNat := UInt32.lt_iff_toNat_lt.mp hpos
      have hleft : (s.cursorX-1).toNat = s.cursorX.toNat-1 := by
        have hlt := s.cursorX.toNat_lt
        rw [UInt32.toNat_sub,UInt32.toNat_one]
        omega
      rw [if_pos hpos,if_pos (by omega)]
      have ht' : Shows h font fg bg m₀ { s with cursorX := s.cursorX-1 } m { t with col := t.col-1 } :=
        ⟨ht.fg,ht.bg,by rw [hleft,hcol],ht.row,ht.shown,ht.rest⟩
      exact write_shows hsize hg hfont ht' ⟨by rw [hleft]; omega,hs.2⟩ space
    · have hzero : ¬ 0 < s.cursorX.toNat := fun h0 => hpos (UInt32.lt_iff_toNat_lt.mpr h0)
      rw [if_neg hpos,if_neg (by omega)]
      exact ht
  rw [if_neg hback,if_neg hback]
  have hwrite := write_shows hsize hg hfont ht hs c
  have hnext : (s.cursorX+1).toNat = s.cursorX.toNat+1 := by
    rw [UInt32.toNat_add,UInt32.toNat_one]
    omega
  by_cases hfull : s.cursorX+1 ≥ Console.cols fb font
  · have hfull' : (Console.cols fb font).toNat ≤ (s.cursorX+1).toNat := UInt32.le_iff_toNat_le.mp hfull
    rw [if_pos hfull,if_pos (by omega)]
    exact lineBreak_shows hwrite hs.2
  · have hroom : ¬ (Console.cols fb font).toNat ≤ (s.cursorX+1).toNat := fun hle =>
      hfull (UInt32.le_iff_toNat_le.mpr hle)
    rw [if_neg hfull,if_neg (by omega)]
    exact ⟨hwrite.fg,hwrite.bg,by rw [hnext,hcol],hwrite.row,hwrite.shown,hwrite.rest⟩

omit hg hfont in
theorem clear_shows (ht : Shows h font fg bg m₀ s m t) :
    Shows h font fg bg m₀ (Console.clearAtEnd fb font s).1
      (performed font fb m (Console.clearAtEnd fb font s).2)
      (t.clear (Console.rows fb font).toNat bg) := by
  have hrow := ht.row
  unfold Console.clearAtEnd Terminal.clear
  by_cases hlast : s.cursorY ≥ Console.rows fb font
  · have hlast' : (Console.rows fb font).toNat ≤ s.cursorY.toNat := UInt32.le_iff_toNat_le.mp hlast
    rw [if_pos hlast,if_pos (by omega)]
    refine ⟨ht.fg,ht.bg,rfl,rfl,fun p hp => ?_,fun a ha => ?_⟩
    · exact (@perform_clear fb font h hsize m s.bgColor p hp).trans ht.bg
    · have hfill : performed font fb m [.fill 0 0 fb.width fb.height s.bgColor] = _ :=
        fbFillRect_eq h (by simp) (by simp) hsize m s.bgColor
      rw [hfill,Raster.draw_outside ha,ht.rest a ha]
  · have hin : ¬ (Console.rows fb font).toNat ≤ s.cursorY.toNat := fun hle =>
      hlast (UInt32.le_iff_toNat_le.mpr hle)
    rw [if_neg hlast,if_neg (by omega)]
    exact ht

theorem printBytes_shows (ht : Shows h font fg bg m₀ s m t) (hs : InGrid fb font s) (cs : List UInt8) :
    Shows h font fg bg m₀ (Console.printBytes fb font s cs).1
      (performed font fb m (Console.printBytes fb font s cs).2)
      (cs.foldl (Terminal.type (Console.cols fb font).toNat (Console.rows fb font).toNat fg bg) t) := by
  induction cs generalizing s m t with
  | nil => exact ht
  | cons c cs ih =>
    have hput := put_shows hsize hg hfont ht hs c
    have hclear := clear_shows hsize hput
    have hin := (Console.clearAtEnd_spec hg (Console.putByte_spec hg c hs).1).1
    rw [Console.printBytes]
    dsimp only
    rw [performed,List.foldl_append,List.foldl_append]
    exact ih hclear hin

theorem kprint_shows (ht : Shows h font fg bg m₀ s m t) (hs : InGrid fb font s)
    (str : Option (List UInt8)) : Shows h font fg bg m₀ (Console.kprint fb font s str).1
      (performed font fb m (Console.kprint fb font s str).2)
      ((str.getD []).foldl
        (Terminal.type (Console.cols fb font).toNat (Console.rows fb font).toNat fg bg) t) := by
  cases str with
  | none => exact ht
  | some cs =>
    rw [Console.kprint,if_pos ⟨h.ready,hfont⟩]
    exact printBytes_shows hsize hg hfont ht hs cs

theorem call_shows (ht : Shows h font fg bg m₀ s m t) (hs : InGrid fb font s) (op : Console.Call) :
    Shows h font fg bg m₀ (Console.call fb font s op).1
      (performed font fb m (Console.call fb font s op).2)
      (typed (Console.cols fb font).toNat (Console.rows fb font).toNat fg bg t op) := by
  cases op with
  | kprint str => exact kprint_shows hsize hg hfont ht hs str
  | kprintColor str fg' bg' =>
    have ht' : Shows h font fg' bg' m₀ { s with fgColor := fg', bgColor := bg' } m t :=
      ⟨rfl,rfl,ht.col,ht.row,ht.shown,ht.rest⟩
    have hprint := kprint_shows hsize hg hfont ht' hs str
    exact ⟨ht.fg,ht.bg,hprint.col,hprint.row,hprint.shown,hprint.rest⟩

theorem calls_shows (ht : Shows h font fg bg m₀ s m t) (hs : InGrid fb font s)
    (calls : List Console.Call) : Shows h font fg bg m₀ (Runs.exec (Console.call fb font) s calls)
      (performed font fb m (Console.drawn fb font s calls))
      (calls.foldl (typed (Console.cols fb font).toNat (Console.rows fb font).toNat fg bg) t) := by
  induction calls generalizing s m t with
  | nil => exact ht
  | cons op calls ih =>
    have hcall := call_shows hsize hg hfont ht hs op
    rw [Console.drawn,Runs.trace_cons,List.flatMap_cons,performed,List.foldl_append]
    exact ih hcall (Console.call_spec hg op hs).1

/-- Whatever is printed, with whatever colours, the screen shows the text of a terminal on
which it is typed, over the picture that was there before; nothing else of the memory
changes. -/
theorem console_shows_terminal (hs : InGrid fb font s) (m : Memory) (calls : List Console.Call) :
    Shows h font s.fgColor s.bgColor m (Runs.exec (Console.call fb font) s calls)
      (performed font fb m (Console.drawn fb font s calls))
      (calls.foldl
        (typed (Console.cols fb font).toNat (Console.rows fb font).toNat s.fgColor s.bgColor)
        ⟨s.cursorX.toNat,s.cursorY.toNat,fun _ => none,(raster h).shown m⟩) :=
  calls_shows hsize hg hfont ⟨rfl,rfl,rfl,rfl,fun _ _ => rfl,fun _ _ => rfl⟩ hs calls

end Simulation

theorem demoScreen_sound : Sound Console.demoScreen := ⟨rfl,rfl,by decide⟩

theorem console_shows_terminal_demo :
    Shows demoScreen_sound Console.demoFont 0xFFFFFF 0 (fun _ => 0)
      (Runs.exec (Console.call Console.demoScreen Console.demoFont) ⟨79,29,0xFFFFFF,0⟩ [.kprint (some [65])])
      (performed Console.demoFont Console.demoScreen (fun _ => 0)
        (Console.drawn Console.demoScreen Console.demoFont ⟨79,29,0xFFFFFF,0⟩ [.kprint (some [65])]))
      ([Console.Call.kprint (some [65])].foldl
        (typed (Console.cols Console.demoScreen Console.demoFont).toNat
          (Console.rows Console.demoScreen Console.demoFont).toNat 0xFFFFFF 0)
        ⟨79,29,fun _ => none,(raster demoScreen_sound).shown fun _ => 0⟩) :=
  @console_shows_terminal Console.demoScreen Console.demoFont demoScreen_sound
    (by unfold Below4G; decide) ⟨rfl,rfl,by decide,by decide,by decide⟩ rfl ⟨79,29,0xFFFFFF,0⟩
    ⟨by decide,by decide⟩ (fun _ => 0) [.kprint (some [65])]

end ConsoleText
end ValiantCore
