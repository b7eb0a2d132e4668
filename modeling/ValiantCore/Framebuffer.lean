import ValiantCore.Patches

/-! The framebuffer of `drivers/framebuffer.c`: single pixels, and rectangles that are
filled line by line. The memory is seen from `fb_addr` on; offsets are computed in 32 bits,
and only the column of a line is added to the address itself. -/
namespace ValiantCore
namespace Framebuffer

open Bytes Patches

structure State where
  addr : UInt64
  pitch : UInt32
  width : UInt32
  height : UInt32
  bpp : UInt8
  ready : Bool
  deriving DecidableEq, Repr

/-- `fb_init` returns -1 and changes nothing when there is no address. -/
def fbInit (fb : State) (addr : UInt64) (pitch width height : UInt32) (bpp : UInt8) : State × ℤ :=
  if addr = 0 then (fb,-1) else (⟨addr,pitch,width,height,bpp,true⟩,0)

/-- `y * fb_pitch + x * (fb_bpp / 8)` -/
def offset (fb : State) (x y : UInt32) : UInt32 := y*fb.pitch+x*(fb.bpp/8).toUInt32

/-- `*pixel = color` -/
def poke (m : ℕ → UInt8) (off : ℕ) (color : UInt32) : ℕ → UInt8 := patch (leBytes 4 color.toNat) m off

def fbButPixel (fb : State) (m : ℕ → UInt8) (x y color : UInt32) : ℕ → UInt8 :=
  if fb.ready then
    if x ≥ fb.width ∨ y ≥ fb.height then m else poke m (offset fb x y).toNat color
  else m

def fbFillRect (fb : State) (m : ℕ → UInt8) (x y w h color : UInt32) : ℕ → UInt8 :=
  if fb.ready then
    (List.range h.toNat).foldl (fun m row =>
      (List.range w.toNat).foldl (fun m col =>
        poke m ((offset fb x (y+UInt32.ofNat row)).toNat+4*col) color) m) m
  else m

/-- `fb_but_pixel(x + i, y + j, color)` for all `i < w`, `j < h`. -/
def butPixels (fb : State) (m : ℕ → UInt8) (x y w h color : UInt32) : ℕ → UInt8 :=
  (List.range h.toNat).foldl (fun m row =>
    (List.range w.toNat).foldl (fun m col =>
      fbButPixel fb m (x+UInt32.ofNat col) (y+UInt32.ofNat row) color) m) m

/-- The fast fill leaves every memory as the pixels would. -/
def FillsAsPixels (fb : State) (x y w h color : UInt32) : Prop :=
  ∀ m, fbFillRect fb m x y w h color = butPixels fb m x y w h color

/-- The rectangle lies on the screen, or it is empty; and no line of it runs beyond the
offsets of 32 bits. -/
def Inside (fb : State) (x y w h : UInt32) : Prop :=
  w = 0 ∨ h = 0 ∨
    (x.toNat+w.toNat ≤ fb.width.toNat ∧ y.toNat+h.toNat ≤ fb.height.toNat ∧
      ∀ row < h.toNat, (offset fb x (y+UInt32.ofNat row)).toNat+4*w.toNat ≤ 2^32)

def fillOffsets (fb : State) (x y w h : UInt32) : List ℕ :=
  (List.range h.toNat).flatMap fun row =>
    (List.range w.toNat).map fun col => (offset fb x (y+UInt32.ofNat row)).toNat+4*col

def pixelOffsets (fb : State) (x y : UInt32) : List ℕ :=
  if x ≥ fb.width ∨ y ≥ fb.height then [] else [(offset fb x y).toNat]

def butOffsets (fb : State) (x y w h : UInt32) : List ℕ :=
  (List.range h.toNat).flatMap fun row =>
    (List.range w.toNat).flatMap fun col => pixelOffsets fb (x+UInt32.ofNat col) (y+UInt32.ofNat row)

section Writes
variable {fb : State} (hready : fb.ready = true) (m : ℕ → UInt8) (x y w h color : UInt32)
include hready

theorem fbButPixel_eq : fbButPixel fb m x y color = patches (leBytes 4 color.toNat) m (pixelOffsets fb x y) := by
  rw [fbButPixel,if_pos hready,pixelOffsets]
  split_ifs
  · rfl
  · rfl

theorem fbFillRect_eq :
    fbFillRect fb m x y w h color = patches (leBytes 4 color.toNat) m (fillOffsets fb x y w h) := by
  rw [fbFillRect,if_pos hready,fillOffsets,← foldl_patches]
  congr 1
  funext m row
  rw [patches,List.foldl_map]
  rfl

theorem butPixels_eq :
    butPixels fb m x y w h color = patches (leBytes 4 color.toNat) m (butOffsets fb x y w h) := by
  rw [butPixels,butOffsets,← foldl_patches]
  congr 1
  funext m row
  rw [← foldl_patches]
  congr 1
  funext m col
  exact fbButPixel_eq hready m _ _ color

end Writes

/-! Where the writes of a framebuffer of less than 4 GiB differ. Rows and columns are
counted modulo 2^32. -/

/-- One of `n` coordinates from `start` on is `k`. -/
def Reaches (start n k : ℕ) : Prop := ∃ i < n, (start+i)%2^32 = k

def FillAt (P x y w h a : ℕ) : Prop :=
  ∃ j < h, ∃ i < w, ((y+j)%2^32*P+4*x)%2^32+4*i ≤ a ∧ a < ((y+j)%2^32*P+4*x)%2^32+4*i+4

def PixelAt (W H P x y w h a : ℕ) : Prop :=
  ∃ Y < H, ∃ X < W, Reaches y h Y ∧ Reaches x w X ∧ Y*P+4*X ≤ a ∧ a < Y*P+4*X+4

structure Bounds (W H P x y w h : ℕ) : Prop where
  row : 4*W ≤ P
  size : H*P < 2^32
  height : H < 2^32
  pitch : P < 2^32
  x : x < 2^32
  y : y < 2^32
  w : 0 < w ∧ w < 2^32
  h : 0 < h ∧ h < 2^32

theorem firstRow {H y h : ℕ} (hy : y < 2^32) (hh : h < 2^32) (hrows : ∃ Y < H, Reaches y h Y) :
    ∃ Y < H, Reaches y h Y ∧ (0 < Y → ¬ Reaches y h (Y-1)) := by
  obtain ⟨Y,hY,j,hj,hrow⟩ := hrows
  by_cases hyH : y < H
  · refine ⟨y,hyH,⟨0,by omega,by omega⟩,fun h0 => ?_⟩
    rintro ⟨j',hj',hrow'⟩
    omega
  · exact ⟨0,by omega,⟨2^32-y,by omega,by omega⟩,fun h0 => absurd h0 (lt_irrefl 0)⟩

theorem lastRow {H y h : ℕ} (hH : H < 2^32) (hy : y < 2^32) (hh : h < 2^32) (hrows : ∃ Y < H, Reaches y h Y) :
    ∃ Y < H, Reaches y h Y ∧ (Y+1 < H → ¬ Reaches y h (Y+1)) := by
  obtain ⟨Y,hY,j,hj,hrow⟩ := hrows
  -- the rectangle ends on the screen, or it covers the last row
  by_cases hyH : y < H
  · by_cases hin : y+h ≤ H
    · refine ⟨y+(h-1),by omega,⟨h-1,by omega,by omega⟩,fun hnext => ?_⟩
      rintro ⟨j',hj',hrow'⟩
      omega
    · exact ⟨H-1,by omega,⟨H-1-y,by omega,by omega⟩,fun hnext => by omega⟩
  · by_cases hin : y+h-2^32 ≤ H
    · refine ⟨y+(h-1)-2^32,by omega,⟨h-1,by omega,by omega⟩,fun hnext => ?_⟩
      rintro ⟨j',hj',hrow'⟩
      omega
    · exact ⟨H-1,by omega,⟨2^32+(H-1)-y,by omega,by omega⟩,fun hnext => by omega⟩

theorem row_end {Y Z : ℕ} (P : ℕ) (h : Y < Z) : Y*P+P ≤ Z*P := by
  have hrows := Nat.mul_le_mul_right P h
  rwa [Nat.succ_mul] at hrows

theorem row_offset {W H P X Y : ℕ} (hP : 4*W ≤ P) (hsize : H*P < 2^32) (hY : Y < H) (hX : X < W) :
    (Y*P+4*X)%2^32 = Y*P+4*X := by
  have hrows := row_end P hY
  omega

section Differences
variable {W H P x y w h : ℕ} (hb : Bounds W H P x y w h)
include hb

theorem pixelAt_row {Z r : ℕ} (hr : r < P) (ha : PixelAt W H P x y w h (Z*P+r)) :
    (Z < H ∧ Reaches y h Z) ∧ r/4 < W ∧ Reaches x w (r/4) := by
  obtain ⟨Y,hY,X,hX,hrow,hcol,hlow,hhigh⟩ := ha
  have hP := hb.row
  have hYZ : Y = Z := by
    rcases lt_trichotomy Y Z with hlt | heq | hlt
    · have hrows := row_end P hlt
      omega
    · exact heq
    · have hrows := row_end P hlt
      omega
  subst hYZ
  obtain rfl : X = r/4 := by omega
  exact ⟨⟨hY,hrow⟩,hX,hcol⟩

theorem pixelAt_lt {a : ℕ} (ha : PixelAt W H P x y w h a) : a < H*P := by
  obtain ⟨Y,hY,X,hX,-,-,-,hhigh⟩ := ha
  have hrows := row_end P hY
  have hP := hb.row
  omega

theorem differs_of_invisible (hout : (∀ Y < H, ¬ Reaches y h Y) ∨ ∀ X < W, ¬ Reaches x w X) :
    ∃ a, FillAt P x y w h a ∧ ¬ PixelAt W H P x y w h a := by
  refine ⟨_,⟨0,hb.h.1,0,hb.w.1,le_rfl,by omega⟩,?_⟩
  rintro ⟨Y,hY,X,hX,hrow,hcol,-⟩
  rcases hout with hout | hout
  · exact hout Y hY hrow
  · exact hout X hX hcol

/-- The last row that is visible runs on behind the last column: into the padding, or into
a row in which the rectangle has no pixels. -/
theorem differs_right (hx : x < W) (hright : W < x+w) {Y : ℕ} (hY : Y < H) (hrow : Reaches y h Y)
    (hlast : Y+1 < H → ¬ Reaches y h (Y+1)) :
    ∃ a, FillAt P x y w h a ∧ ¬ PixelAt W H P x y w h a := by
  obtain ⟨j,hj,rfl⟩ := hrow
  have hP := hb.row
  refine ⟨(y+j)%2^32*P+4*W,⟨j,hj,W-x,by omega,?_⟩,?_⟩
  · rw [row_offset hP hb.size hY hx]
    omega
  · intro ha
    rcases Nat.lt_or_eq_of_le hP with hpad | hpad
    · have hcol := (pixelAt_row hb hpad ha).2.1
      omega
    · have hnext : (y+j)%2^32*P+4*W = ((y+j)%2^32+1)*P+0 := by
        rw [hpad,Nat.succ_mul,Nat.add_zero]
      rw [hnext] at ha
      obtain ⟨⟨hZ,hreach⟩,-⟩ := pixelAt_row hb (by have := hb.row; omega) ha
      exact hlast hZ hreach

/-- In the first row that is visible, the columns left of the first one reach back into the
row before. -/
theorem differs_left (hW : 0 < W) (hx : W ≤ x) (hwrap : 2^32 < x+w) {Y : ℕ} (hY : Y < H) (hrow : Reaches y h Y)
    (hfirst : 0 < Y → ¬ Reaches y h (Y-1)) :
    ∃ a, FillAt P x y w h a ∧ ¬ PixelAt W H P x y w h a := by
  obtain ⟨j,hj,rfl⟩ := hrow
  have hxlt := hb.x
  refine ⟨((y+j)%2^32*P+4*x)%2^32+4*(2^32-1-x)+3,⟨j,hj,2^32-1-x,by omega,by omega,by omega⟩,?_⟩
  intro ha
  have hlt := pixelAt_lt hb ha
  have hP := hb.row
  have hsize := hb.size
  have hrows := row_end P hY
  rcases Nat.eq_zero_or_pos ((y+j)%2^32) with h0 | hpos
  · rw [h0] at hlt
    omega
  · have hbefore : ((y+j)%2^32*P+4*x)%2^32+4*(2^32-1-x)+3 = ((y+j)%2^32-1)*P+(P-1) := by
      have hback : (y+j)%2^32*P = ((y+j)%2^32-1)*P+P := by
        rw [← Nat.succ_mul,Nat.succ_eq_add_one,Nat.sub_add_cancel hpos]
      rw [hback] at hlt hrows ⊢
      generalize ((y+j)%2^32-1)*P = t at hlt hrows ⊢
      omega
    rw [hbefore] at ha
    exact hfirst hpos (pixelAt_row hb (by omega) ha).1.2

/-- The row below the screen has its own offset, or it wraps into row 0 left of the
rectangle. -/
theorem differs_below (hright : x+w ≤ W) (hy : y < H) (hbelow : H < y+h) :
    ∃ a, FillAt P x y w h a ∧ ¬ PixelAt W H P x y w h a := by
  have hH := hb.height
  have hpitch := hb.pitch
  have hsize := hb.size
  have hP := hb.row
  have hw := hb.w.1
  have hrow : (y+(H-y))%2^32 = H := by omega
  refine ⟨(H*P+4*x)%2^32,⟨H-y,by omega,0,hw,?_⟩,?_⟩
  · rw [hrow]
    omega
  · intro ha
    have hlt := pixelAt_lt hb ha
    have hzero : (H*P+4*x)%2^32 = 0*P+(H*P+4*x-2^32) := by omega
    rw [hzero] at ha
    obtain ⟨-,-,i,hi,hcol⟩ := pixelAt_row hb (by omega) ha
    omega

theorem differs_above (hright : x+w ≤ W) (hy : H ≤ y) (habove : 2^32 < y+h) :
    ∃ a, FillAt P x y w h a ∧ ¬ PixelAt W H P x y w h a := by
  have hylt := hb.y
  have hpitch := hb.pitch
  have hsize := hb.size
  have hP := hb.row
  have hw := hb.w.1
  have hrow : (y+(2^32-1-y))%2^32 = 2^32-1 := by omega
  refine ⟨2^32-P+4*(x+w)-1,⟨2^32-1-y,by omega,w-1,by omega,?_⟩,?_⟩
  · rw [hrow]
    omega
  · intro ha
    have hlt := pixelAt_lt hb ha
    obtain ⟨Z,rfl⟩ : ∃ Z, H = Z+1 := Nat.exists_eq_add_one_of_ne_zero (by rintro rfl; omega)
    rw [Nat.succ_mul Z P] at hlt hsize
    have hlast : 2^32-P+4*(x+w)-1 = Z*P+(2^32-P+4*(x+w)-1-Z*P) := by omega
    rw [hlast] at ha
    obtain ⟨-,-,i,hi,hcol⟩ := pixelAt_row hb (by omega) ha
    omega

theorem differs_of_outside (hout : ¬ (x+w ≤ W ∧ y+h ≤ H)) :
    ∃ a, FillAt P x y w h a ∧ ¬ PixelAt W H P x y w h a := by
  by_cases hrows : ∃ Y < H, Reaches y h Y
  · by_cases hcols : ∃ X < W, Reaches x w X
    · obtain ⟨X,hX,i,hi,hcol⟩ := hcols
      by_cases hright : x+w ≤ W
      · by_cases hy : y < H
        · exact differs_below hb hright hy (by omega)
        · obtain ⟨Y,hY,j,hj,hrow⟩ := hrows
          exact differs_above hb hright (by omega) (by omega)
      · by_cases hx : x < W
        · obtain ⟨Y,hY,hrow,hlast⟩ := lastRow hb.height hb.y hb.h.2 hrows
          exact differs_right hb hx (by omega) hY hrow hlast
        · obtain ⟨Y,hY,hrow,hfirst⟩ := firstRow hb.y hb.h.2 hrows
          exact differs_left hb (by omega) (by omega) (by omega) hY hrow hfirst
    · exact differs_of_invisible hb (Or.inr fun X hX hcol => hcols ⟨X,hX,hcol⟩)
  · exact differs_of_invisible hb (Or.inl fun Y hY hrow => hrows ⟨Y,hY,hrow⟩)

end Differences

theorem add_ofNat_toNat (x : UInt32) (i : ℕ) : (x+UInt32.ofNat i).toNat = (x.toNat+i)%2^32 := by
  rw [UInt32.toNat_add,UInt32.toNat_ofNat']
  omega

section Rectangles
variable {fb : State} (hbpp : fb.bpp = 32) (hpitch : 4*fb.width.toNat ≤ fb.pitch.toNat)
  (hsize : fb.height.toNat*fb.pitch.toNat < 2^32) {x y w h : UInt32}
include hbpp

theorem offset_toNat (x y : UInt32) :
    (offset fb x y).toNat = (y.toNat*fb.pitch.toNat+4*x.toNat)%2^32 := by
  have hbytes : (fb.bpp/8).toUInt32.toNat = 4 := by rw [hbpp]; rfl
  rw [offset,UInt32.toNat_add,UInt32.toNat_mul,UInt32.toNat_mul,hbytes]
  omega

theorem fill_covers {a : ℕ} (ha : FillAt fb.pitch.toNat x.toNat y.toNat w.toNat h.toNat a) :
    Covers 4 (fillOffsets fb x y w h) a := by
  obtain ⟨j,hj,i,hi,hin⟩ := ha
  refine ⟨(offset fb x (y+UInt32.ofNat j)).toNat+4*i,?_,?_⟩
  · exact List.mem_flatMap.mpr ⟨j,List.mem_range.mpr hj,List.mem_map.mpr ⟨i,List.mem_range.mpr hi,rfl⟩⟩
  · rw [offset_toNat hbpp,add_ofNat_toNat]
    exact hin

theorem fillOffsets_of_inside (hin : Inside fb x y w h) : fillOffsets fb x y w h = butOffsets fb x y w h := by
  rcases hin with rfl | rfl | ⟨hright,hbelow,hlines⟩
  · simp [fillOffsets,butOffsets]
  · simp [fillOffsets,butOffsets]
  · refine List.flatMap_congr fun row hrow => ?_
    rw [List.map_eq_flatMap]
    refine List.flatMap_congr fun col hcol => ?_
    have hrow := List.mem_range.mp hrow
    have hcol := List.mem_range.mp hcol
    have hwidth := fb.width.toNat_lt
    have hheight := fb.height.toNat_lt
    have hline := hlines row hrow
    have hx : (x+UInt32.ofNat col).toNat = x.toNat+col := by
      rw [add_ofNat_toNat,Nat.mod_eq_of_lt (by omega)]
    have hy : (y+UInt32.ofNat row).toNat = y.toNat+row := by
      rw [add_ofNat_toNat,Nat.mod_eq_of_lt (by omega)]
    rw [offset_toNat hbpp] at hline
    rw [pixelOffsets,if_neg,offset_toNat hbpp,offset_toNat hbpp,hx]
    · congr 1
      omega
    · rw [not_or,ge_iff_le,ge_iff_le,UInt32.le_iff_toNat_le,UInt32.le_iff_toNat_le,hx,hy]
      omega

theorem fillsAsPixels_of_inside (hready : fb.ready = true) (color : UInt32) (hin : Inside fb x y w h) :
    FillsAsPixels fb x y w h color := by
  intro m
  rw [fbFillRect_eq hready,butPixels_eq hready,fillOffsets_of_inside hbpp hin]

include hpitch hsize

theorem pixelAt_of_covers {a : ℕ} (ha : Covers 4 (butOffsets fb x y w h) a) :
    PixelAt fb.width.toNat fb.height.toNat fb.pitch.toNat x.toNat y.toNat w.toNat h.toNat a := by
  obtain ⟨off,hoff,hin⟩ := ha
  obtain ⟨j,hj,hrow⟩ := List.mem_flatMap.mp hoff
  obtain ⟨i,hi,hpixel⟩ := List.mem_flatMap.mp hrow
  unfold pixelOffsets at hpixel
  split_ifs at hpixel with hout
  · cases hpixel
  · obtain ⟨hX,hY⟩ : (x+UInt32.ofNat i).toNat < fb.width.toNat ∧ (y+UInt32.ofNat j).toNat < fb.height.toNat := by
      simpa [UInt32.lt_iff_toNat_lt] using hout
    rw [List.mem_singleton.mp hpixel,offset_toNat hbpp,row_offset hpitch hsize hY hX] at hin
    exact ⟨_,hY,_,hX,⟨j,List.mem_range.mp hj,(add_ofNat_toNat y j).symm⟩,
      ⟨i,List.mem_range.mp hi,(add_ofNat_toNat x i).symm⟩,hin⟩

theorem inside_of_fillsAsPixels (hready : fb.ready = true) {color : UInt32}
    (hfills : FillsAsPixels fb x y w h color) : Inside fb x y w h := by
  by_contra hout
  unfold Inside at hout
  rw [not_or,not_or] at hout
  obtain ⟨hw,hh,hout⟩ := hout
  have hb : Bounds fb.width.toNat fb.height.toNat fb.pitch.toNat x.toNat y.toNat w.toNat h.toNat :=
    ⟨hpitch,hsize,fb.height.toNat_lt,fb.pitch.toNat_lt,x.toNat_lt,y.toNat_lt,
      ⟨Nat.pos_of_ne_zero fun h0 => hw (UInt32.toNat_inj.mp h0),w.toNat_lt⟩,
      ⟨Nat.pos_of_ne_zero fun h0 => hh (UInt32.toNat_inj.mp h0),h.toNat_lt⟩⟩
  have hedges : ¬ (x.toNat+w.toNat ≤ fb.width.toNat ∧ y.toNat+h.toNat ≤ fb.height.toNat) := by
    rintro ⟨hright,hbelow⟩
    refine hout ⟨hright,hbelow,fun row hrow => ?_⟩
    have hheight := fb.height.toNat_lt
    have hwpos := hb.w.1
    rw [offset_toNat hbpp,add_ofNat_toNat,Nat.mod_eq_of_lt (by omega : y.toNat+row < 2^32),
      row_offset hpitch hsize (by omega : y.toNat+row < _) (by omega)]
    have hrows := row_end fb.pitch.toNat (by omega : y.toNat+row < fb.height.toNat)
    omega
  obtain ⟨a,hfill,hpixel⟩ := differs_of_outside hb hedges
  have hsame : ∀ m, patches (leBytes 4 color.toNat) m (fillOffsets fb x y w h) =
      patches (leBytes 4 color.toNat) m (butOffsets fb x y w h) := by
    intro m
    rw [← fbFillRect_eq hready,← butPixels_eq hready]
    exact hfills m
  have hcovers := covers_of_patches_eq (a := a) hsame
  rw [leBytes_length] at hcovers
  exact hpixel (pixelAt_of_covers hbpp hpitch hsize (hcovers (fill_covers hbpp hfill)))

end Rectangles

def smallScreen : State := ⟨0xE0000000,1280,320,200,32,true⟩

end Framebuffer
end ValiantCore
