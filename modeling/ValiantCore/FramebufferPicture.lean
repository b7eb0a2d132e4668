import ValiantCore.Raster
import ValiantCore.PsfFont
import ValiantCore.FramebufferLine

/-! The drawing functions of `drivers/framebuffer.c` and `arch/aarch64/framebuffer64.c` and
the picture that they leave on the screen. The drivers differ in the width of their offsets:
the first computes them in 32 bits, so that a screen of 4 GiB or more is beyond it. -/
namespace ValiantCore
namespace FramebufferPicture

open Framebuffer (State offset poke fbButPixel fbFillRect)
open FramebufferLine (IsInt int32)
open PsfFont (Pixel)
open Raster (Place Dot plain)

abbrev Memory := ℕ → UInt8

def fb64Init (fb : State) (addr : UInt64) (pitch width height : UInt32) (bpp : UInt8) : State × ℤ :=
  if addr = 0 ∨ width = 0 ∨ height = 0 then (fb,-1) else (⟨addr,pitch,width,height,bpp,true⟩,0)

/-- `(addr_t)y * fb_pitch + (addr_t)x * (fb_bpp / 8)` -/
def offset64 (fb : State) (x y : UInt32) : UInt64 :=
  y.toUInt64*fb.pitch.toUInt64+x.toUInt64*(fb.bpp/8).toUInt64

def fb64PutPixel (fb : State) (m : Memory) (x y color : UInt32) : Memory :=
  if fb.ready then
    if x ≥ fb.width ∨ y ≥ fb.height then m else poke m (offset64 fb x y).toNat color
  else m

def fb64FillRect (fb : State) (m : Memory) (x y w h color : UInt32) : Memory :=
  if fb.ready then
    (List.range h.toNat).foldl (fun m row =>
      (List.range w.toNat).foldl (fun m col =>
        poke m ((offset64 fb x (y+UInt32.ofNat row)).toNat+4*col) color) m) m
  else m

def fbClear (fb : State) (m : Memory) (color : UInt32) : Memory :=
  if fb.ready then fbFillRect fb m 0 0 fb.width fb.height color else m

def fb64Clear (fb : State) (m : Memory) (color : UInt32) : Memory :=
  if fb.ready then fb64FillRect fb m 0 0 fb.width fb.height color else m

def plot (fb : State) (m : Memory) (ps : List Pixel) : Memory :=
  ps.foldl (fun m p => fbButPixel fb m p.x p.y p.color) m

/-- `for (int i = a; i <= b; i++)` -/
def upTo (a b : ℤ) : List ℤ := (List.range (b-a+1).toNat).map fun k : ℕ => a+k

/-- One turn of the inner loop of `fb_fill_circle`, unless an `int` overflows. -/
def circleTurn (put : Memory → UInt32 → UInt32 → UInt32 → Memory) (cx cy r : ℤ) (color : UInt32)
    (y : ℤ) (m : Memory) (x : ℤ) : Option Memory := do
  let xx ← int32 (x*x)
  let yy ← int32 (y*y)
  let d ← int32 (xx+yy)
  let rr ← int32 (r*r)
  if d ≤ rr then do
    let px ← int32 (cx+x)
    let py ← int32 (cy+y)
    some (put m (UInt32.ofNat (u32 px)) (UInt32.ofNat (u32 py)) color)
  else some m

def fillCircle (put : Memory → UInt32 → UInt32 → UInt32 → Memory) (m : Memory) (cx cy r : ℤ)
    (color : UInt32) : Option Memory := do
  let low ← int32 (-r)
  (upTo low r).foldlM (fun m y => (upTo low r).foldlM (circleTurn put cx cy r color y) m) m

def fbFillCircle (fb : State) (m : Memory) (cx cy r : ℤ) (color : UInt32) : Option Memory :=
  if fb.ready then fillCircle (fbButPixel fb) m cx cy r color else some m

def fb64FillCircle (fb : State) (m : Memory) (cx cy r : ℤ) (color : UInt32) : Option Memory :=
  if fb.ready then fillCircle (fb64PutPixel fb) m cx cy r color else some m

/-- A screen that is ready, with pixels of 32 bits and rows that do not overlap. -/
structure Sound (fb : State) : Prop where
  ready : fb.ready = true
  depth : fb.bpp = 32
  row : 4*fb.width.toNat ≤ fb.pitch.toNat

theorem init_sound_iff {fb fb' : State} {addr : UInt64} {pitch width height : UInt32} {bpp : UInt8}
    (h : Framebuffer.fbInit fb addr pitch width height bpp = (fb',0) ∨ fb64Init fb addr pitch width height bpp = (fb',0)) :
    Sound fb' ↔ bpp = 32 ∧ 4*width.toNat ≤ pitch.toNat := by
  have hfb : fb' = ⟨addr,pitch,width,height,bpp,true⟩ := by
    unfold Framebuffer.fbInit fb64Init at h
    rcases h with h | h <;> split_ifs at h
    · cases (Prod.mk.inj h).2
    · exact (Prod.mk.inj h).1.symm
    · cases (Prod.mk.inj h).2
    · exact (Prod.mk.inj h).1.symm
  rw [hfb]
  exact ⟨fun hs => ⟨hs.depth,hs.row⟩,fun hs => ⟨rfl,hs.1,hs.2⟩⟩

/-- The 32-bit offsets of its pixels do not wrap. -/
def Below4G (fb : State) : Prop := fb.height.toNat*fb.pitch.toNat < 2^32

def raster {fb : State} (h : Sound fb) : Raster := ⟨fb.width.toNat,fb.height.toNat,fb.pitch.toNat,h.row⟩

def dot (x y color : UInt32) : Dot := ((x.toNat,y.toNat),color)

def place (p : Pixel) : Place := (p.x.toNat,p.y.toNat)

def dots (ps : List Pixel) : List Dot := ps.map fun p => dot p.x p.y p.color

theorem dots_places (ps : List Pixel) : (dots ps).map Prod.fst = ps.map place := by
  rw [dots,List.map_map]
  rfl

section Offsets
variable {fb : State} (h : Sound fb)

theorem offset_eq (hsize : Below4G fb) {x y : UInt32} (hx : x.toNat < fb.width.toNat)
    (hy : y.toNat < fb.height.toNat) : (offset fb x y).toNat = (raster h).offset (x.toNat,y.toNat) := by
  rw [Framebuffer.offset_toNat h.depth,Framebuffer.row_offset h.row hsize hy hx]
  rfl

theorem offset64_eq {x : UInt32} (y : UInt32) (hx : x.toNat < fb.width.toNat) :
    (offset64 fb x y).toNat = (raster h).offset (x.toNat,y.toNat) := by
  have hbytes : (fb.bpp/8).toUInt64.toNat = 4 := by
    rw [h.depth]
    rfl
  have hrow := h.row
  have hprod : (y.toNat+1)*fb.pitch.toNat ≤ 2^32*(2^32-1) :=
    Nat.mul_le_mul (Nat.succ_le_of_lt y.toNat_lt) (Nat.le_sub_one_of_lt fb.pitch.toNat_lt)
  rw [Nat.succ_mul] at hprod
  rw [offset64,UInt64.toNat_add,UInt64.toNat_mul,UInt64.toNat_mul,hbytes,UInt32.toNat_toUInt64,
    UInt32.toNat_toUInt64,UInt32.toNat_toUInt64]
  show _ = y.toNat*fb.pitch.toNat+4*x.toNat
  generalize y.toNat*fb.pitch.toNat = t at hprod ⊢
  omega

theorem visible_iff {x y color : UInt32} :
    (raster h).Visible (dot x y color).1 ↔ ¬ (x ≥ fb.width ∨ y ≥ fb.height) := by
  rw [not_or,ge_iff_le,ge_iff_le,UInt32.not_le,UInt32.not_le]
  exact Iff.rfl

theorem fbButPixel_eq (hsize : Below4G fb) (m : Memory) (x y color : UInt32) :
    fbButPixel fb m x y color = (raster h).put m (dot x y color) := by
  rw [fbButPixel,if_pos h.ready,Raster.put]
  by_cases hout : x ≥ fb.width ∨ y ≥ fb.height
  · rw [if_pos hout,if_neg ((visible_iff h).not.mpr (not_not.mpr hout))]
  · have hvis : (raster h).Visible (dot x y color).1 := (visible_iff h).mpr hout
    rw [if_neg hout,if_pos hvis,poke,offset_eq h hsize hvis.1 hvis.2]
    rfl

theorem plot_eq (hsize : Below4G fb) (m : Memory) (ps : List Pixel) :
    plot fb m ps = (raster h).draw m (dots ps) := by
  rw [plot,Raster.draw,dots,List.foldl_map]
  congr 1
  funext m p
  exact fbButPixel_eq h hsize m p.x p.y p.color

theorem fb64PutPixel_eq (m : Memory) (x y color : UInt32) :
    fb64PutPixel fb m x y color = (raster h).put m (dot x y color) := by
  rw [fb64PutPixel,if_pos h.ready,Raster.put]
  by_cases hout : x ≥ fb.width ∨ y ≥ fb.height
  · rw [if_pos hout,if_neg ((visible_iff h).not.mpr (not_not.mpr hout))]
  · have hvis : (raster h).Visible (dot x y color).1 := (visible_iff h).mpr hout
    rw [if_neg hout,if_pos hvis,poke,offset64_eq h y hvis.1]
    rfl

end Offsets

section Rectangles
variable {fb : State} (h : Sound fb)

def rectPlaces (x y w h : ℕ) : List Place :=
  (List.range h).flatMap fun row => (List.range w).map fun col => (x+col,y+row)

theorem mem_rectPlaces {x y w h : ℕ} {p : Place} :
    p ∈ rectPlaces x y w h ↔ (x ≤ p.1 ∧ p.1 < x+w) ∧ y ≤ p.2 ∧ p.2 < y+h := by
  simp only [rectPlaces,List.mem_flatMap,List.mem_map,List.mem_range]
  constructor
  · rintro ⟨row,hrow,col,hcol,rfl⟩
    dsimp only
    omega
  · rintro ⟨⟨hleft,hright⟩,htop,hbottom⟩
    exact ⟨p.2-y,by omega,p.1-x,by omega,Prod.ext (by dsimp only; omega) (by dsimp only; omega)⟩

/-- Lines that begin where their first pixel is are filled as its pixels. -/
theorem fill_eq {start : ℕ → ℕ} {x y w n : ℕ}
    (hstart : 0 < w → ∀ row < n, start row = (raster h).offset (x,y+row))
    (hright : x+w ≤ fb.width.toNat) (hbottom : y+n ≤ fb.height.toNat) (m : Memory) (color : UInt32) :
    (List.range n).foldl (fun m row =>
      (List.range w).foldl (fun m col => poke m (start row+4*col) color) m) m =
    (raster h).draw m (plain color (rectPlaces x y w n)) := by
  rw [Raster.draw,plain,List.foldl_map,rectPlaces,List.foldl_flatMap]
  refine List.foldl_ext _ _ _ fun m row hrow => ?_
  rw [List.foldl_map]
  refine List.foldl_ext _ _ _ fun m col hcol => ?_
  rw [List.mem_range] at hrow hcol
  have hvis : (raster h).Visible (x+col,y+row) := ⟨show x+col < fb.width.toNat by omega,
    show y+row < fb.height.toNat by omega⟩
  have hplace : start row+4*col = (raster h).offset (x+col,y+row) := by
    rw [hstart (by omega) row hrow,Raster.offset,Raster.offset,Nat.mul_add,Nat.add_assoc]
  rw [hplace,Raster.put,if_pos hvis,poke]

theorem row_toNat {y n : UInt32} (hbottom : y.toNat+n.toNat ≤ fb.height.toNat) {row : ℕ}
    (hrow : row < n.toNat) : (y+UInt32.ofNat row).toNat = y.toNat+row := by
  have hlt := fb.height.toNat_lt
  rw [Framebuffer.add_ofNat_toNat,Nat.mod_eq_of_lt (by omega)]

variable {x y w n : UInt32} (hright : x.toNat+w.toNat ≤ fb.width.toNat)
  (hbottom : y.toNat+n.toNat ≤ fb.height.toNat)
include hright hbottom

theorem fbFillRect_eq (hsize : Below4G fb) (m : Memory) (color : UInt32) : fbFillRect fb m x y w n color =
    (raster h).draw m (plain color (rectPlaces x.toNat y.toNat w.toNat n.toNat)) := by
  rw [fbFillRect,if_pos h.ready]
  refine fill_eq h (fun hw row hrow => ?_) hright hbottom m color
  have hy := row_toNat hbottom hrow
  rw [offset_eq h hsize (by omega) (by omega),hy]

theorem fb64FillRect_eq (m : Memory) (color : UInt32) : fb64FillRect fb m x y w n color =
    (raster h).draw m (plain color (rectPlaces x.toNat y.toNat w.toNat n.toNat)) := by
  rw [fb64FillRect,if_pos h.ready]
  refine fill_eq h (fun hw row hrow => ?_) hright hbottom m color
  rw [offset64_eq h _ (by omega),row_toNat hbottom hrow]

end Rectangles

section Circles

theorem mem_upTo {a b z : ℤ} : z ∈ upTo a b ↔ a ≤ z ∧ z ≤ b := by
  simp only [upTo,List.mem_map,List.mem_range]
  constructor
  · rintro ⟨k,hk,rfl⟩
    omega
  · rintro ⟨hlow,hhigh⟩
    exact ⟨(z-a).toNat,by omega,by omega⟩

theorem foldlM_of_some {S A : Type} {f : S → A → Option S} {g : S → A → S} {l : List A}
    (h : ∀ s, ∀ a ∈ l, f s a = some (g s a)) (s : S) : l.foldlM f s = some (l.foldl g s) := by
  induction l generalizing s with
  | nil => rfl
  | cons a l ih =>
    rw [List.foldlM_cons,h s a List.mem_cons_self,Option.bind_eq_bind,Option.bind_some]
    exact ih (fun s b hb => h s b (List.mem_cons_of_mem a hb)) _

structure Drawable (cx cy r : ℤ) : Prop where
  radius : -2^31 < r ∧ r < 2^15
  left : IsInt (cx-r)
  right : IsInt (cx+r)
  top : IsInt (cy-r)
  bottom : IsInt (cy+r)

def discPlaces (cx cy r : ℤ) : List Place :=
  (upTo (-r) r).flatMap fun y =>
    ((upTo (-r) r).filter fun x => x*x+y*y ≤ r*r).map fun x => (u32 (cx+x),u32 (cy+y))

theorem u32_lt (z : ℤ) : u32 z < 2^32 := by
  unfold u32
  omega

theorem u32_eq_iff {z : ℤ} (hz : IsInt z) {n : ℕ} (hn : n < 2^31) : u32 z = n ↔ z = n := by
  unfold IsInt at hz
  unfold u32
  omega

theorem square_le {z r : ℤ} (hlow : -r ≤ z) (hhigh : z ≤ r) : z*z ≤ r*r := by nlinarith

variable {cx cy r : ℤ} (hd : Drawable cx cy r)
include hd

theorem circleTurn_eq (put : Memory → UInt32 → UInt32 → UInt32 → Memory) (color : UInt32) {x y : ℤ}
    (hx : x ∈ upTo (-r) r) (hy : y ∈ upTo (-r) r) (m : Memory) :
    circleTurn put cx cy r color y m x = some (if x*x+y*y ≤ r*r then
      put m (UInt32.ofNat (u32 (cx+x))) (UInt32.ofNat (u32 (cy+y))) color else m) := by
  rw [mem_upTo] at hx hy
  have hr := hd.radius
  have hxx := square_le hx.1 hx.2
  have hyy := square_le hy.1 hy.2
  have hrr : r*r ≤ (2^15-1)*(2^15-1) := by nlinarith
  have hpos := mul_self_nonneg x
  have hpos' := mul_self_nonneg y
  have h1 : IsInt (x*x) := ⟨by omega,by omega⟩
  have h2 : IsInt (y*y) := ⟨by omega,by omega⟩
  have h3 : IsInt (x*x+y*y) := ⟨by omega,by omega⟩
  have h4 : IsInt (r*r) := ⟨by omega,by omega⟩
  have hl := hd.left
  have hr' := hd.right
  have ht := hd.top
  have hb := hd.bottom
  unfold IsInt at hl hr' ht hb
  have h5 : IsInt (cx+x) := ⟨by omega,by omega⟩
  have h6 : IsInt (cy+y) := ⟨by omega,by omega⟩
  simp only [circleTurn,int32,if_pos h1,if_pos h2,if_pos h3,if_pos h4,if_pos h5,if_pos h6,
    Option.bind_eq_bind,Option.bind_some]
  split <;> rfl

theorem fillCircle_eq {R : Raster} {put : Memory → UInt32 → UInt32 → UInt32 → Memory}
    (hput : ∀ m x y color, put m x y color = R.put m (dot x y color)) (m : Memory) (color : UInt32) :
    fillCircle put m cx cy r color = some (R.draw m (plain color (discPlaces cx cy r))) := by
  have hr := hd.radius
  have hneg : IsInt (-r) := ⟨by omega,by omega⟩
  have hrows : ∀ m, ∀ y ∈ upTo (-r) r, (upTo (-r) r).foldlM (circleTurn put cx cy r color y) m =
      some ((upTo (-r) r).foldl (fun m x => if x*x+y*y ≤ r*r then
        put m (UInt32.ofNat (u32 (cx+x))) (UInt32.ofNat (u32 (cy+y))) color else m) m) :=
    fun m y hy => foldlM_of_some (fun m x hx => circleTurn_eq hd put color hx hy m) m
  rw [fillCircle,int32,if_pos hneg,Option.bind_eq_bind,Option.bind_some,foldlM_of_some hrows,
    Raster.draw,plain,List.foldl_map,discPlaces,List.foldl_flatMap]
  congr 1
  refine List.foldl_ext _ _ _ fun m y _ => ?_
  rw [List.foldl_map,List.foldl_filter]
  refine List.foldl_ext _ _ _ fun m x _ => ?_
  have hdot : dot (UInt32.ofNat (u32 (cx+x))) (UInt32.ofNat (u32 (cy+y))) color =
      ((u32 (cx+x),u32 (cy+y)),color) := by
    rw [dot,UInt32.toNat_ofNat',UInt32.toNat_ofNat',Nat.mod_eq_of_lt (u32_lt _),Nat.mod_eq_of_lt (u32_lt _)]
  simp only [hput,hdot,decide_eq_true_iff]

theorem mem_discPlaces {p : Place} (hx : p.1 < 2^31) (hy : p.2 < 2^31) :
    p ∈ discPlaces cx cy r ↔ 0 ≤ r ∧ ((p.1 : ℤ)-cx)^2+((p.2 : ℤ)-cy)^2 ≤ r^2 := by
  have hl := hd.left
  have hr' := hd.right
  have ht := hd.top
  have hb := hd.bottom
  unfold IsInt at hl hr' ht hb
  simp only [discPlaces,List.mem_flatMap,List.mem_map,List.mem_filter,decide_eq_true_iff,mem_upTo]
  constructor
  · rintro ⟨y,⟨hy1,hy2⟩,x,⟨⟨hx1,hx2⟩,hin⟩,rfl⟩
    have hpx := (u32_eq_iff (show IsInt (cx+x) from ⟨by omega,by omega⟩) hx).mp rfl
    have hpy := (u32_eq_iff (show IsInt (cy+y) from ⟨by omega,by omega⟩) hy).mp rfl
    refine ⟨by omega,?_⟩
    rw [← hpx,← hpy]
    linarith
  · rintro ⟨hr,hin⟩
    have hcol : -r ≤ (p.1 : ℤ)-cx ∧ (p.1 : ℤ)-cx ≤ r := abs_le.mp (abs_le_of_sq_le_sq (by nlinarith) hr)
    have hrow : -r ≤ (p.2 : ℤ)-cy ∧ (p.2 : ℤ)-cy ≤ r := abs_le.mp (abs_le_of_sq_le_sq (by nlinarith) hr)
    refine ⟨p.2-cy,hrow,p.1-cx,⟨hcol,by linarith⟩,Prod.ext ?_ ?_⟩
    · exact (u32_eq_iff (show IsInt _ from ⟨by omega,by omega⟩) hx).mpr (by ring)
    · exact (u32_eq_iff (show IsInt _ from ⟨by omega,by omega⟩) hy).mpr (by ring)

end Circles

inductive Call
  | pixel (x y color : UInt32)
  | rect (x y w h color : UInt32)
  | clear (color : UInt32)
  | disc (cx cy r : ℤ) (color : UInt32)

namespace Call

def color : Call → UInt32
  | .pixel _ _ color => color
  | .rect _ _ _ _ color => color
  | .clear color => color
  | .disc _ _ _ color => color

/-- The part of the plane that a call colours. -/
def Covers : Call → Place → Prop
  | .pixel x y _, p => p = (x.toNat,y.toNat)
  | .rect x y w h _, p => (x.toNat ≤ p.1 ∧ p.1 < x.toNat+w.toNat) ∧ y.toNat ≤ p.2 ∧ p.2 < y.toNat+h.toNat
  | .clear _, _ => True
  | .disc cx cy r _, p => 0 ≤ r ∧ ((p.1 : ℤ)-cx)^2+((p.2 : ℤ)-cy)^2 ≤ r^2

instance : (c : Call) → (p : Place) → Decidable (c.Covers p)
  | .pixel .., _ => inferInstanceAs (Decidable (_ = _))
  | .rect .., _ => inferInstanceAs (Decidable (_ ∧ _))
  | .clear _, _ => inferInstanceAs (Decidable True)
  | .disc .., _ => inferInstanceAs (Decidable (_ ∧ _))

/-- Rectangles stay on the screen, circles within the numbers of an `int`; pixels need not. -/
def Allowed (fb : State) : Call → Prop
  | .pixel .. => True
  | .rect x y w h _ => x.toNat+w.toNat ≤ fb.width.toNat ∧ y.toNat+h.toNat ≤ fb.height.toNat
  | .clear _ => True
  | .disc cx cy r _ => Drawable cx cy r

end Call

/-- A picture in which what the call covers has its colour. -/
def paint (picture : Place → UInt32) (c : Call) : Place → UInt32 :=
  fun p => if c.Covers p then c.color else picture p

def fbCall (fb : State) (m : Memory) : Call → Option Memory
  | .pixel x y color => some (fbButPixel fb m x y color)
  | .rect x y w h color => some (fbFillRect fb m x y w h color)
  | .clear color => some (fbClear fb m color)
  | .disc cx cy r color => fbFillCircle fb m cx cy r color

def fb64Call (fb : State) (m : Memory) : Call → Option Memory
  | .pixel x y color => some (fb64PutPixel fb m x y color)
  | .rect x y w h color => some (fb64FillRect fb m x y w h color)
  | .clear color => some (fb64Clear fb m color)
  | .disc cx cy r color => fb64FillCircle fb m cx cy r color

section Calls
variable {fb : State} (h : Sound fb)

def callPlaces (fb : State) : Call → List Place
  | .pixel x y _ => [(x.toNat,y.toNat)]
  | .rect x y w h _ => rectPlaces x.toNat y.toNat w.toNat h.toNat
  | .clear _ => rectPlaces 0 0 fb.width.toNat fb.height.toNat
  | .disc cx cy r _ => discPlaces cx cy r

theorem mem_callPlaces (hheight : fb.height.toNat ≤ 2^31) {c : Call} (hc : c.Allowed fb) {p : Place}
    (hp : (raster h).Visible p) : p ∈ callPlaces fb c ↔ c.Covers p := by
  obtain ⟨hx,hy⟩ := hp
  have hrow := h.row
  have hpitch := fb.pitch.toNat_lt
  have hx' : p.1 < fb.width.toNat := hx
  have hy' : p.2 < fb.height.toNat := hy
  cases c with
  | pixel x y color => exact List.mem_singleton
  | rect x y w n color => exact mem_rectPlaces
  | clear color =>
    rw [callPlaces,mem_rectPlaces]
    exact iff_of_true ⟨⟨Nat.zero_le _,by omega⟩,Nat.zero_le _,by omega⟩ trivial
  | disc cx cy r color => exact mem_discPlaces hc (by omega) (by omega)

theorem fbCall_eq (hsize : Below4G fb) {c : Call} (hc : c.Allowed fb) (m : Memory) :
    fbCall fb m c = some ((raster h).draw m (plain c.color (callPlaces fb c))) := by
  cases c with
  | pixel x y color => exact congrArg some (fbButPixel_eq h hsize m x y color)
  | rect x y w n color => exact congrArg some (fbFillRect_eq h hc.1 hc.2 hsize m color)
  | clear color =>
    rw [fbCall,fbClear,if_pos h.ready,fbFillRect_eq h (by simp) (by simp) hsize]
    rfl
  | disc cx cy r color =>
    rw [fbCall,fbFillCircle,if_pos h.ready]
    exact fillCircle_eq hc (fbButPixel_eq h hsize) m color

theorem fb64Call_eq {c : Call} (hc : c.Allowed fb) (m : Memory) :
    fb64Call fb m c = some ((raster h).draw m (plain c.color (callPlaces fb c))) := by
  cases c with
  | pixel x y color => exact congrArg some (fb64PutPixel_eq h m x y color)
  | rect x y w n color => exact congrArg some (fb64FillRect_eq h hc.1 hc.2 m color)
  | clear color =>
    rw [fb64Call,fb64Clear,if_pos h.ready,fb64FillRect_eq h (by simp) (by simp)]
    rfl
  | disc cx cy r color =>
    rw [fb64Call,fb64FillCircle,if_pos h.ready]
    exact fillCircle_eq hc (fb64PutPixel_eq h) m color

/-- A sequence of calls returns; what it leaves on the screen is the painted picture, and
nothing else of the memory has changed. -/
def Paints (call : State → Memory → Call → Option Memory) (calls : List Call) (m : Memory) : Prop :=
  ∃ m', calls.foldlM (call fb) m = some m' ∧
    (∀ p, (raster h).Visible p → (raster h).shown m' p = calls.foldl paint ((raster h).shown m) p) ∧
    ∀ a, ¬ (raster h).Holds a → m' a = m a

theorem paints_of_calls {call : State → Memory → Call → Option Memory}
    (hheight : fb.height.toNat ≤ 2^31) {calls : List Call} (hcalls : ∀ c ∈ calls, c.Allowed fb)
    (hcall : ∀ c ∈ calls, ∀ m, call fb m c =
      some ((raster h).draw m (plain c.color (callPlaces fb c)))) (m : Memory) :
    Paints h call calls m := by
  refine ⟨_,foldlM_of_some (fun m c hc => hcall c hc m) m,fun p hp => ?_,fun a ha => ?_⟩
  · clear hcall
    induction calls using List.reverseRecOn with
    | nil => rfl
    | append_singleton calls c ih =>
      have hlast : c.Allowed fb := hcalls c (by simp)
      rw [List.foldl_append,List.foldl_append,List.foldl_cons,List.foldl_nil,List.foldl_cons,
        List.foldl_nil,Raster.draw_plain_shown hp,paint,ih fun c hc => hcalls c (by simp [hc])]
      simp only [mem_callPlaces h hheight hlast hp]
  · clear hcall hcalls
    induction calls using List.reverseRecOn with
    | nil => rfl
    | append_singleton calls c ih =>
      rw [List.foldl_append,List.foldl_cons,List.foldl_nil,Raster.draw_outside ha,ih]

/-- Both drivers paint what a sequence of calls stands for: pixels, rectangles, the whole
screen and discs, each over what was there before. The first does on screens below 4 GiB. -/
theorem calls_paint (hheight : fb.height.toNat ≤ 2^31) (calls : List Call)
    (hcalls : ∀ c ∈ calls, c.Allowed fb) (m : Memory) :
    (Below4G fb → Paints h fbCall calls m) ∧ Paints h fb64Call calls m :=
  ⟨fun hsize => paints_of_calls h hheight hcalls (fun c hc m => fbCall_eq h hsize (hcalls c hc) m) m,
    paints_of_calls h hheight hcalls (fun c hc m => fb64Call_eq h (hcalls c hc) m) m⟩

end Calls

def tinyScreen : State := ⟨0xE0000000,16,4,4,32,true⟩

theorem tinyScreen_sound : Sound tinyScreen :=
  (@init_sound_iff ⟨0,0,0,0,0,false⟩ tinyScreen 0xE0000000 16 4 4 32 (.inr rfl)).mpr ⟨rfl,by decide⟩

theorem calls_paint_tiny :
    (Below4G tinyScreen → Paints tinyScreen_sound fbCall [.clear 7,.disc (-1) 2 2 9] fun _ => 0) ∧
      Paints tinyScreen_sound fb64Call [.clear 7,.disc (-1) 2 2 9] fun _ => 0 :=
  calls_paint tinyScreen_sound (by decide) [.clear 7,.disc (-1) 2 2 9]
    (by
      intro c hc
      simp only [List.mem_cons,List.not_mem_nil,or_false] at hc
      rcases hc with rfl | rfl
      · trivial
      · exact ⟨by decide,by decide,by decide,by decide,by decide⟩) fun _ => 0

end FramebufferPicture
end ValiantCore
