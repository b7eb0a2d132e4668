import ValiantCore.Framebuffer

/-! The bitmap font of `drivers/font.c`. What is drawn on the screen is a rectangle or a
glyph; a glyph is drawn pixel by pixel and stays in its cell. -/
namespace ValiantCore
namespace PsfFont

open Framebuffer (fbButPixel fbFillRect)

structure Font where
  glyphs : ℕ → UInt8
  numglyph : UInt32
  charsize : UInt32
  width : UInt32
  height : UInt32
  ready : Bool

def psf1Magic0 : UInt8 := 0x36
def psf1Magic1 : UInt8 := 0x04
def psf1Modes12 : UInt8 := 0x01

/-- The header of a font file is its two magic bytes, the mode and the size of a glyph. -/
def fontInit (font : Font) : Option (ℕ → UInt8) → Font × ℤ
  | none => (font,-1)
  | some data =>
    if data 0 ≠ psf1Magic0 ∨ data 1 ≠ psf1Magic1 then (font,-1)
    else
      ({ glyphs := fun i => data (4+i)
         numglyph := if data 2 &&& psf1Modes12 ≠ 0 then 512 else 256
         charsize := (data 3).toUInt32
         width := 8
         height := (data 3).toUInt32
         ready := true },0)

theorem fontInit_size {font font' : Font} {data : Option (ℕ → UInt8)} (h : fontInit font data = (font',0)) :
    font'.width = 8 ∧ font'.height = font'.charsize ∧ font'.height.toNat < 256 := by
  cases data with
  | none => cases (Prod.mk.inj h).2
  | some data =>
    rw [fontInit] at h
    by_cases hmagic : data 0 ≠ psf1Magic0 ∨ data 1 ≠ psf1Magic1
    · rw [if_pos hmagic] at h
      cases (Prod.mk.inj h).2
    · rw [if_neg hmagic] at h
      obtain ⟨rfl,-⟩ := Prod.mk.inj h
      exact ⟨rfl,rfl,(data 3).toNat_lt⟩

/-- A call that draws: `fb_fill_rect` or `font_draw_char`. -/
inductive Draw
  | fill (x y w h color : UInt32)
  | glyph (x y : UInt32) (c : UInt8) (fg bg : UInt32) (scale : ℕ)
  deriving DecidableEq, Repr

structure Pixel where
  x : UInt32
  y : UInt32
  color : UInt32
  deriving DecidableEq, Repr

section Draws
variable (font : Font)

/-- The glyph of a character; there is a `?` for those that the font has not. -/
def glyphIndex (c : UInt8) : ℕ := if c.toNat ≥ font.numglyph.toNat then 63 else c.toNat

def charPixels (x y : UInt32) (c : UInt8) (fg bg : UInt32) (scale : ℕ) : List Pixel :=
  (List.range font.height.toNat).flatMap fun row =>
    let bits := font.glyphs (glyphIndex font c*font.charsize.toNat+row)
    (List.range font.width.toNat).flatMap fun col =>
      let color := if bits.toNat &&& 0x80 >>> col ≠ 0 then fg else bg
      (List.range scale).flatMap fun sy =>
        (List.range scale).map fun sx =>
          ⟨x+UInt32.ofNat (col*scale+sx),y+UInt32.ofNat (row*scale+sy),color⟩

/-- What a call does to the memory of the framebuffer. -/
def perform (fb : Framebuffer.State) (m : ℕ → UInt8) : Draw → ℕ → UInt8
  | .fill x y w h color => fbFillRect fb m x y w h color
  | .glyph x y c fg bg scale =>
    if font.ready ∧ fb.ready then
      (charPixels font x y c fg bg scale).foldl (fun m p => fbButPixel fb m p.x p.y p.color) m
    else m

def newline : UInt8 := 10

/-- The calls of `font_draw_string`, from the position `cx`, `y` on in lines that begin at
`x`. -/
def drawString (x : UInt32) (fg bg : UInt32) (scale : ℕ) : UInt32 → UInt32 → List UInt8 → List Draw
  | _, _, [] => []
  | cx, y, c::s =>
    if c = newline then drawString x fg bg scale x (y+font.height*UInt32.ofNat scale) s
    else .glyph cx y c fg bg scale::drawString x fg bg scale (cx+font.width*UInt32.ofNat scale) y s

def fontDrawString (x y : UInt32) (s : Option (List UInt8)) (fg bg : UInt32) (scale : ℕ) : List Draw :=
  drawString font x fg bg scale x y (s.getD [])

/-- The length of the string is an `int`; its width in pixels is computed in 32 bits. -/
def fontDrawStringCentered (fb : Framebuffer.State) (y : UInt32) (s : Option (List UInt8)) (fg bg : UInt32)
    (scale : ℕ) : List Draw :=
  match s with
  | none => []
  | some cs =>
    let tw := UInt32.ofNat cs.length*font.width*UInt32.ofNat scale
    let x := if fb.width > tw then (fb.width-tw)/2 else 0
    fontDrawString font x y (some cs) fg bg scale

structure Region where
  left : ℕ
  top : ℕ
  right : ℕ
  bottom : ℕ
  deriving DecidableEq, Repr

def Region.Covers (r : Region) (x y w h : ℕ) : Prop :=
  r.left ≤ x ∧ x+w ≤ r.right ∧ r.top ≤ y ∧ y+h ≤ r.bottom

instance (r : Region) (x y w h : ℕ) : Decidable (r.Covers x y w h) := by
  unfold Region.Covers
  infer_instance

/-- The rectangle, or the cell of the glyph, lies in the region. -/
def Draw.Within (r : Region) : Draw → Prop
  | .fill x y w h _ => r.Covers x.toNat y.toNat w.toNat h.toNat
  | .glyph x y _ _ _ scale => r.Covers x.toNat y.toNat (font.width.toNat*scale) (font.height.toNat*scale)

instance (r : Region) : (d : Draw) → Decidable (d.Within font r)
  | .fill x y w h _ => inferInstanceAs (Decidable (r.Covers x.toNat y.toNat w.toNat h.toNat))
  | .glyph x y _ _ _ scale =>
    inferInstanceAs (Decidable (r.Covers x.toNat y.toNat (font.width.toNat*scale) (font.height.toNat*scale)))

theorem charPixels_within {r : Region} {x y : UInt32} {c : UInt8} {fg bg : UInt32} {scale : ℕ} {p : Pixel}
    (hright : r.right < 2^32) (hbottom : r.bottom < 2^32)
    (hcell : (Draw.glyph x y c fg bg scale).Within font r) (hp : p ∈ charPixels font x y c fg bg scale) :
    r.Covers p.x.toNat p.y.toNat 1 1 := by
  obtain ⟨row,hrow,hp⟩ := List.mem_flatMap.mp hp
  obtain ⟨col,hcol,hp⟩ := List.mem_flatMap.mp hp
  obtain ⟨sy,hsy,hp⟩ := List.mem_flatMap.mp hp
  obtain ⟨sx,hsx,rfl⟩ := List.mem_map.mp hp
  rw [List.mem_range] at hrow hcol hsy hsx
  obtain ⟨hleft,hx,htop,hy⟩ := hcell
  have hcolumn := Nat.mul_le_mul_right scale (Nat.succ_le_of_lt hcol)
  have hline := Nat.mul_le_mul_right scale (Nat.succ_le_of_lt hrow)
  rw [Nat.succ_mul] at hcolumn hline
  rw [Region.Covers,Framebuffer.add_ofNat_toNat,Framebuffer.add_ofNat_toNat,Nat.mod_eq_of_lt (by omega),
    Nat.mod_eq_of_lt (by omega)]
  omega

end Draws

end PsfFont
end ValiantCore
