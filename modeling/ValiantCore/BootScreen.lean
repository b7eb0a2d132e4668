import ValiantCore.FramebufferPicture

/-! The boot screen of `kernel/vcore_bootscreen.c`: a logo, a line of text and a spinner that
turns by 30 degrees a step. What a step draws is inside of the disc that it clears first. -/
namespace ValiantCore
namespace BootScreen

open Framebuffer (State)
open FramebufferPicture
open PsfFont (Font Pixel Draw)
open Raster (Place Dot plain)

/-- The table has one number less than it has room for; the last entry is zero. -/
def sinTable : List ℤ :=
  [0,17,34,52,69,87,104,121,139,156,173,190,207,224,241,258,275,292,309,325,342,358,374,390,406,
    422,438,453,469,484,499,515,529,544,559,573,587,601,615,629,642,656,669,681,694,707,719,731,
    743,754,766,777,788,798,809,819,829,838,848,857,866,874,882,891,898,906,913,920,927,933,939,
    945,951,956,961,965,970,974,978,981,984,987,990,992,994,996,997,998,999,999,1000,999,999,998,
    997,996,994,992,990,987,984,981,978,974,970,965,961,956,951,945,939,933,927,920,913,906,898,
    891,882,874,866,857,848,838,829,819,809,798,788,777,766,754,743,731,719,707,694,681,669,656,
    642,629,615,601,587,573,559,544,529,515,499,484,469,453,438,422,406,390,374,358,342,325,309,
    292,275,258,241,224,207,190,173,156,139,121,104,87,69,52,34,17,0,-17,-34,-52,-69,-87,-104,
    -121,-139,-156,-173,-190,-207,-224,-241,-258,-275,-292,-309,-325,-342,-358,-374,-390,-406,
    -422,-438,-453,-469,-484,-500,-515,-529,-544,-559,-573,-587,-601,-615,-629,-642,-656,-669,
    -681,-694,-707,-719,-743,-754,-766,-777,-788,-798,-809,-819,-829,-838,-848,-857,-866,-874,
    -882,-891,-898,-906,-913,-920,-927,-933,-939,-945,-951,-956,-961,-965,-970,-974,-978,-981,
    -984,-987,-990,-992,-994,-996,-997,-998,-999,-999,-1000,-999,-999,-998,-997,-996,-994,-992,
    -990,-987,-984,-981,-978,-974,-970,-965,-961,-956,-951,-945,-939,-933,-927,-920,-913,-906,
    -898,-891,-882,-874,-866,-857,-848,-838,-829,-819,-809,-798,-788,-777,-766,-754,-743,-731,
    -719,-707,-694,-681,-669,-656,-642,-629,-615,-601,-587,-573,-559,-544,-529,-515,-500,-484,
    -469,-453,-438,-422,-406,-390,-374,-358,-342,-325,-309,-292,-275,-258,-241,-224,-207,-190,
    -173,-156,-139,-121,-104,-87,-69,-52,-34,-17]

def cosTable : List ℤ :=
  [1000,999,999,998,997,996,994,992,990,987,984,981,978,974,970,965,961,956,951,945,939,933,927,
    920,913,906,898,891,882,874,866,857,848,838,829,819,809,798,788,777,766,754,743,731,719,707,
    694,681,669,656,642,629,615,601,587,573,559,544,529,515,500,484,469,453,438,422,406,390,374,
    358,342,325,309,292,275,258,241,224,207,190,173,156,139,121,104,87,69,52,34,17,0,-17,-34,-52,
    -69,-87,-104,-121,-139,-156,-173,-190,-207,-224,-241,-258,-275,-292,-309,-325,-342,-358,-374,
    -390,-406,-422,-438,-453,-469,-484,-499,-515,-529,-544,-559,-573,-587,-601,-615,-629,-642,
    -656,-669,-681,-694,-707,-719,-731,-743,-754,-766,-777,-788,-798,-809,-819,-829,-838,-848,
    -857,-866,-874,-882,-891,-898,-906,-913,-920,-927,-933,-939,-945,-951,-956,-961,-965,-970,
    -974,-978,-981,-984,-987,-990,-992,-994,-996,-997,-998,-999,-999,-1000,-999,-999,-998,-997,
    -996,-994,-992,-990,-987,-984,-981,-978,-974,-970,-965,-961,-956,-951,-945,-939,-933,-927,
    -920,-913,-906,-898,-891,-882,-874,-866,-857,-848,-838,-829,-819,-809,-798,-788,-777,-766,
    -754,-743,-731,-719,-707,-694,-681,-669,-656,-642,-629,-615,-601,-587,-573,-559,-544,-529,
    -515,-500,-484,-469,-453,-438,-422,-406,-390,-374,-358,-342,-325,-309,-292,-275,-258,-241,
    -224,-207,-190,-173,-156,-139,-121,-104,-87,-69,-52,-34,-17,0,17,34,52,69,87,104,121,139,156,
    173,190,207,224,241,258,275,292,309,325,342,358,374,390,406,422,438,453,469,484,500,515,529,
    544,559,573,587,601,615,629,642,656,669,681,694,707,719,731,743,754,766,777,788,798,809,819,
    829,838,848,857,866,874,882,891,898,906,913,920,927,933,939,945,951,956,961,965,970,974,978,
    981,984,987,990,992,994,996,997,998,999,999]

def colorBg : UInt32 := 0x0A0A14
def colorGray : UInt32 := 0x888888

def spinnerSegments : ℤ := 12
def spinnerROuter : ℤ := 24
def spinnerRInner : ℤ := 14
def spinnerGap : ℤ := 4
def logoWidth : UInt32 := 128
def logoHeight : UInt32 := 128

structure Spinner where
  offset : ℤ
  cx : ℤ
  cy : ℤ
  deriving DecidableEq, Repr

def pixelAt (color : UInt32) (x y : ℤ) : Pixel := ⟨UInt32.ofNat (u32 x),UInt32.ofNat (u32 y),color⟩

def degree (deg : ℤ) : ℤ := if deg.tmod 360 < 0 then deg.tmod 360+360 else deg.tmod 360

/-- The pixel of radius `r` in the direction `d`. -/
def rayPixel (cx cy : ℤ) (color : UInt32) (d r : ℤ) : Pixel :=
  pixelAt color (cx+(r*cosTable.getD d.toNat 0).tdiv 1000) (cy+(r*sinTable.getD d.toNat 0).tdiv 1000)

def drawSegment (cx cy s e rOut rIn : ℤ) (color : UInt32) : List Pixel :=
  (upTo s e).flatMap fun deg => (upTo rIn rOut).map (rayPixel cx cy color (degree deg))

/-- The pixels around a centre that pass a test. -/
def around (cx cy r : ℤ) (color : UInt32) (test : ℤ → Bool) : List Pixel :=
  (upTo (-r) r).flatMap fun dy =>
    ((upTo (-r) r).filter fun dx => test (dx*dx+dy*dy)).map fun dx => pixelAt color (cx+dx) (cy+dy)

def segmentColor (i : ℤ) : UInt32 :=
  let active := (spinnerSegments-1-i).tmod spinnerSegments
  if active = 0 then 0xFFFFFF
  else if active = 1 then 0xCCCCCC
  else if active ≤ 3 then 0x888888
  else 0x333333

def drawSpinner (cx cy offset : ℤ) : List Pixel :=
  let segDeg := (360 : ℤ).tdiv spinnerSegments
  ((upTo 0 (spinnerSegments-1)).flatMap fun i =>
    let s := degree (i*segDeg+spinnerGap.tdiv 2+offset)
    let e := if s+segDeg+spinnerGap ≥ 360 then 359 else s+segDeg+spinnerGap
    drawSegment cx cy s e spinnerROuter spinnerRInner (segmentColor i))++
  around cx cy spinnerRInner colorBg fun d => d < spinnerRInner*spinnerRInner

/-- `valiantcore_logo` is the table of the logo's colours. -/
def drawLogo (fb : State) (valiantcoreLogo : ℕ → UInt32) : List Pixel :=
  let logoX := (fb.width-logoWidth)/2
  let logoY := fb.height/2-logoHeight-60
  (List.range logoHeight.toNat).flatMap fun row =>
    (List.range logoWidth.toNat).map fun col =>
      ⟨logoX+UInt32.ofNat col,logoY+UInt32.ofNat row,valiantcoreLogo (row*logoWidth.toNat+col)⟩

/-- The line of text under the logo. -/
def credit : List UInt8 := [0x42,0x79,0x20,0x46,0x69,0x6E,0x6E,0x20,0x44,0x65,0x76]

/-- Whether the spinner's numbers were set depends on the screen being ready. -/
def bootScreenShow (fb : State) (font : Font) (valiantcoreLogo : ℕ → UInt32) (m : Memory) (s : Spinner) :
    Memory × Spinner :=
  if fb.ready then
    let m := fbClear fb m colorBg
    let m := plot fb m (drawLogo fb valiantcoreLogo)
    let s : Spinner := ⟨0,(fb.width/2).toNat,(fb.height/2).toNat+20⟩
    let m := plot fb m (drawSpinner s.cx s.cy s.offset)
    let y := UInt32.ofNat (u32 (s.cy+spinnerROuter+20))
    let m := (PsfFont.fontDrawStringCentered font fb y (some credit) colorGray colorBg 1).foldl
      (PsfFont.perform font fb) m
    (m,s)
  else (m,s)

def bootScreenSpin (fb : State) (r : Memory × Spinner) : Memory × Spinner :=
  if fb.ready then
    let s := r.2
    let radius := spinnerROuter+2
    let m := plot fb r.1 (around s.cx s.cy radius colorBg fun d => d ≤ radius*radius)
    let s := { s with offset := (s.offset+30).tmod 360 }
    (plot fb m (drawSpinner s.cx s.cy s.offset),s)
  else r

section Places

theorem place_pixelAt (color : UInt32) (x y : ℤ) : place (pixelAt color x y) = (u32 x,u32 y) := by
  rw [place,pixelAt,UInt32.toNat_ofNat',UInt32.toNat_ofNat',Nat.mod_eq_of_lt (u32_lt x),Nat.mod_eq_of_lt (u32_lt y)]

theorem degree_bounds (deg : ℤ) : 0 ≤ degree deg ∧ degree deg < 360 := by
  have hlow := Int.lt_tmod_of_pos deg (show (0 : ℤ) < 360 by decide)
  have hhigh := Int.tmod_lt_of_pos deg (show (0 : ℤ) < 360 by decide)
  unfold degree
  split_ifs
  · omega
  · omega

set_option maxRecDepth 4000 in
theorem tables_check :
    ((cosTable.zip (sinTable++[0])).all fun p => p.1*p.1+p.2*p.2 ≤ 1100000) = true := by decide +kernel

theorem tables_length : cosTable.length = 360 ∧ sinTable.length = 359 := by decide +kernel

theorem tables_near {d : ℕ} (hd : d < 360) : cosTable.getD d 0^2+sinTable.getD d 0^2 ≤ 1100000 := by
  obtain ⟨hcos,hsin⟩ := tables_length
  have hlast : (sinTable++[0]).getD d 0 = sinTable.getD d 0 := by
    by_cases hd' : d < 359
    · exact List.getD_append _ _ _ _ (hsin ▸ hd')
    · have hdefault := List.getD_eq_default sinTable (0 : ℤ) (show sinTable.length ≤ d by omega)
      rw [List.getD_append_right _ _ _ _ (by omega),hdefault,show d-sinTable.length = 0 by omega]
      rfl
  have hmem : (cosTable.getD d 0,sinTable.getD d 0) ∈ cosTable.zip (sinTable++[0]) := by
    rw [← hlast,List.getD_eq_getElem _ _ (by omega),List.getD_eq_getElem _ _ (by simp [hsin]; omega),
      ← List.getElem_zip]
    exact List.getElem_mem (by simp [hcos,hsin]; omega)
  have hcheck := of_decide_eq_true (List.all_eq_true.mp tables_check _ hmem)
  linarith

theorem tdiv_square (a : ℤ) : 1000000*(a.tdiv 1000)^2 ≤ a^2 := by
  have hle : 1000*(a.tdiv 1000).natAbs ≤ a.natAbs := by
    rw [Int.natAbs_tdiv]
    exact Nat.mul_div_le a.natAbs 1000
  have hsquare := Nat.pow_le_pow_left hle 2
  rw [← Int.natAbs_sq,← Int.natAbs_sq a]
  rw [mul_pow] at hsquare
  exact_mod_cast hsquare

theorem ray_inside {d r : ℤ} (hd : 0 ≤ d ∧ d < 360) (hr : 0 ≤ r ∧ r ≤ 24) :
    ((r*cosTable.getD d.toNat 0).tdiv 1000)^2+((r*sinTable.getD d.toNat 0).tdiv 1000)^2 ≤ 26^2 := by
  have hx := tdiv_square (r*cosTable.getD d.toNat 0)
  have hy := tdiv_square (r*sinTable.getD d.toNat 0)
  have htables := tables_near (show d.toNat < 360 by omega)
  have hsquare : r^2 ≤ 24^2 := by nlinarith
  rw [mul_pow] at hx hy
  have hmul := mul_le_mul hsquare htables (by positivity) (by norm_num)
  linarith

end Places

section Spinner

def InDisc (cx cy : ℤ) (q : Place) : Prop := ∃ x y : ℤ, x^2+y^2 ≤ 26^2 ∧ q = (u32 (cx+x),u32 (cy+y))

def eraser (s : Spinner) : List Pixel :=
  around s.cx s.cy (spinnerROuter+2) colorBg fun d => d ≤ (spinnerROuter+2)*(spinnerROuter+2)

theorem mem_around {cx cy r : ℤ} {color : UInt32} {test : ℤ → Bool} {q : Place} :
    q ∈ (around cx cy r color test).map place ↔
      ∃ y ∈ upTo (-r) r, ∃ x ∈ upTo (-r) r, test (x*x+y*y) ∧ q = (u32 (cx+x),u32 (cy+y)) := by
  simp only [around,List.mem_map,List.mem_flatMap,List.mem_filter]
  constructor
  · rintro ⟨p,⟨y,hy,x,⟨hx,htest⟩,rfl⟩,rfl⟩
    exact ⟨y,hy,x,hx,htest,place_pixelAt color _ _⟩
  · rintro ⟨y,hy,x,hx,htest,rfl⟩
    exact ⟨_,⟨y,hy,x,⟨hx,htest⟩,rfl⟩,place_pixelAt color _ _⟩

theorem mem_eraser {s : Spinner} {q : Place} : q ∈ (eraser s).map place ↔ InDisc s.cx s.cy q := by
  rw [eraser,mem_around]
  constructor
  · rintro ⟨y,-,x,-,htest,rfl⟩
    have hle : x*x+y*y ≤ 26*26 := of_decide_eq_true htest
    exact ⟨x,y,by linarith,rfl⟩
  · rintro ⟨x,y,hin,rfl⟩
    have hx : -26 ≤ x ∧ x ≤ 26 := abs_le.mp (abs_le_of_sq_le_sq (by nlinarith) (by decide))
    have hy : -26 ≤ y ∧ y ≤ 26 := abs_le.mp (abs_le_of_sq_le_sq (by nlinarith) (by decide))
    exact ⟨y,mem_upTo.mpr hy,x,mem_upTo.mpr hx,decide_eq_true (show x*x+y*y ≤ 26*26 by linarith),rfl⟩

theorem spinner_inside {cx cy offset : ℤ} {p : Pixel} (hp : p ∈ drawSpinner cx cy offset) :
    InDisc cx cy (place p) := by
  rcases List.mem_append.mp hp with hp | hp
  · obtain ⟨i,-,hp⟩ := List.mem_flatMap.mp hp
    obtain ⟨deg,-,hp⟩ := List.mem_flatMap.mp hp
    obtain ⟨r,hr,rfl⟩ := List.mem_map.mp hp
    have hbounds : 14 ≤ r ∧ r ≤ 24 := mem_upTo.mp hr
    exact ⟨_,_,ray_inside (degree_bounds deg) ⟨by omega,hbounds.2⟩,place_pixelAt _ _ _⟩
  · obtain ⟨y,-,x,-,htest,hplace⟩ := mem_around.mp (List.mem_map_of_mem hp)
    have hlt : x*x+y*y < 14*14 := of_decide_eq_true htest
    exact ⟨x,y,by linarith,hplace⟩

def turned (s : Spinner) : Spinner := { s with offset := (s.offset+30).tmod 360 }

/-- What a step draws that leaves the spinner at `s`. -/
def stepDots (s : Spinner) : List Dot := dots (eraser s)++dots (drawSpinner s.cx s.cy s.offset)

theorem mem_stepDots {s : Spinner} {q : Place} :
    q ∈ (stepDots s).map Prod.fst ↔ InDisc s.cx s.cy q := by
  rw [stepDots,List.map_append,dots_places,dots_places,List.mem_append,mem_eraser]
  refine or_iff_left_of_imp fun hq => ?_
  obtain ⟨p,hp,rfl⟩ := List.mem_map.mp hq
  exact spinner_inside hp

theorem stepDots_turned (s : Spinner) {q : Place} (hq : q ∈ (stepDots s).map Prod.fst) :
    q ∈ (stepDots (turned s)).map Prod.fst := by
  rw [mem_stepDots] at hq ⊢
  exact hq

theorem turned_center (s : Spinner) (n : ℕ) :
    (turned^[n] s).cx = s.cx ∧ (turned^[n] s).cy = s.cy := by
  induction n with
  | zero => exact ⟨rfl,rfl⟩
  | succ n ih =>
    rw [Function.iterate_succ_apply']
    exact ih

theorem turned_offset {s : Spinner} (h : 0 ≤ s.offset ∧ s.offset < 360) (n : ℕ) :
    (turned^[n] s).offset = (s.offset+30*n)%360 := by
  induction n with
  | zero =>
    show s.offset = _
    omega
  | succ n ih =>
    rw [Function.iterate_succ_apply',turned,ih,Int.tmod_eq_emod_of_nonneg (by omega)]
    push_cast
    omega

theorem turned_period {s : Spinner} (h : 0 ≤ s.offset ∧ s.offset < 360) (n : ℕ) :
    turned^[n+12] s = turned^[n] s := by
  obtain ⟨hx,hy⟩ := turned_center s n
  obtain ⟨hx',hy'⟩ := turned_center s (n+12)
  have hoffset : (turned^[n+12] s).offset = (turned^[n] s).offset := by
    rw [turned_offset h,turned_offset h]
    push_cast
    omega
  rcases hs : turned^[n] s with ⟨offset,cx,cy⟩
  rcases hs' : turned^[n+12] s with ⟨offset',cx',cy'⟩
  rw [hs] at hx hy hoffset
  rw [hs'] at hx' hy' hoffset
  dsimp only at hx hy hx' hy' hoffset
  rw [hoffset,hx',hy',hx,hy]

variable {fb : State} (h : Sound fb) (hsize : Below4G fb)
include h hsize

theorem spin_eq (m : Memory) (s : Spinner) :
    bootScreenSpin fb (m,s) = ((raster h).draw m (stepDots (turned s)),turned s) := by
  have hstep : bootScreenSpin fb (m,s) = (plot fb (plot fb m (eraser s))
      (drawSpinner s.cx s.cy (turned s).offset),turned s) := by
    rw [bootScreenSpin,if_pos h.ready,eraser,turned]
  have heraser : eraser s = eraser (turned s) := by
    rw [eraser,eraser,turned]
  rw [hstep,plot_eq h hsize,plot_eq h hsize,← Raster.draw_append,stepDots,heraser,turned]

theorem spins_eq (m : Memory) (s : Spinner) (n : ℕ) : (bootScreenSpin fb)^[n+1] (m,s) =
    ((raster h).draw m (stepDots (turned^[n+1] s)),turned^[n+1] s) := by
  induction n with
  | zero => exact spin_eq h hsize m s
  | succ n ih =>
    rw [Function.iterate_succ_apply',ih,spin_eq h hsize,
      Raster.draw_absorb fun q hq _ => stepDots_turned _ hq,Function.iterate_succ_apply' turned (n+1)]

/-- From the screen that `boot_screen_show` leaves, the spinner comes back to the same screen
every twelve steps, the whole memory included, and nothing outside of its disc ever changes. -/
theorem spinner_periodic (font : Font) (valiantcoreLogo : ℕ → UInt32) (m : Memory) (s : Spinner) (n : ℕ) :
    (bootScreenSpin fb)^[n+13] (bootScreenShow fb font valiantcoreLogo m s) =
      (bootScreenSpin fb)^[n+1] (bootScreenShow fb font valiantcoreLogo m s) ∧
    ∀ p, (raster h).Visible p →
      26^2 < ((p.1 : ℤ)-(fb.width/2).toNat)^2+((p.2 : ℤ)-((fb.height/2).toNat+20))^2 →
      (raster h).shown ((bootScreenSpin fb)^[n] (bootScreenShow fb font valiantcoreLogo m s)).1 p =
        (raster h).shown (bootScreenShow fb font valiantcoreLogo m s).1 p := by
  obtain ⟨m',hshow⟩ : ∃ m', bootScreenShow fb font valiantcoreLogo m s =
      (m',⟨0,(fb.width/2).toNat,(fb.height/2).toNat+20⟩) := by
    rw [bootScreenShow,if_pos h.ready]
    exact ⟨_,rfl⟩
  rw [hshow]
  refine ⟨?_,fun p hp hout => ?_⟩
  · rw [show n+13 = n+12+1 from rfl,spins_eq h hsize,spins_eq h hsize,show n+12+1 = n+1+12 from rfl,
      turned_period ⟨le_rfl,show (0 : ℤ) < 360 by decide⟩]
  · cases n with
    | zero => rfl
    | succ n =>
      rw [spins_eq h hsize]
      dsimp only
      refine Raster.draw_shown_of_notMem hp fun hmem => ?_
      obtain ⟨x,y,hin,rfl⟩ := mem_stepDots.mp hmem
      obtain ⟨hx,hy⟩ := turned_center ⟨0,(fb.width/2).toNat,(fb.height/2).toNat+20⟩ (n+1)
      rw [hx,hy] at hp hout
      -- the screen is not so large that coordinates below zero are on it
      have hwidth : u32 ((fb.width/2).toNat+x) < fb.width.toNat := hp.1
      have hheight : u32 ((fb.height/2).toNat+20+y) < fb.height.toNat := hp.2
      have hrow := h.row
      have hpitch := fb.pitch.toNat_lt
      have hrows : fb.height.toNat*4 ≤ fb.height.toNat*fb.pitch.toNat := Nat.mul_le_mul_left _ (by omega)
      unfold Below4G at hsize
      have hx' : -26 ≤ x ∧ x ≤ 26 := abs_le.mp (abs_le_of_sq_le_sq (by nlinarith) (by decide))
      have hy' : -26 ≤ y ∧ y ≤ 26 := abs_le.mp (abs_le_of_sq_le_sq (by nlinarith) (by decide))
      have hw2 : (fb.width/2).toNat ≤ fb.width.toNat := by
        rw [UInt32.toNat_div]
        exact Nat.div_le_self _ _
      have hh2 : (fb.height/2).toNat ≤ fb.height.toNat := by
        rw [UInt32.toNat_div]
        exact Nat.div_le_self _ _
      have hcol := (u32_eq_iff (show FramebufferLine.IsInt ((fb.width/2).toNat+x) from
        ⟨by omega,by omega⟩) (show u32 _ < 2^31 by omega)).mp rfl
      have hline := (u32_eq_iff (show FramebufferLine.IsInt ((fb.height/2).toNat+20+y) from
        ⟨by omega,by omega⟩) (show u32 _ < 2^31 by omega)).mp rfl
      dsimp only at hout
      rw [← hcol,← hline] at hout
      ring_nf at hout hin
      linarith

end Spinner

def demoFont : Font := ⟨fun _ => 0,256,16,8,16,true⟩

theorem spinner_periodic_tiny :
    (bootScreenSpin tinyScreen)^[13] (bootScreenShow tinyScreen demoFont (fun _ => 1) (fun _ => 0) ⟨0,0,0⟩) =
      (bootScreenSpin tinyScreen)^[1] (bootScreenShow tinyScreen demoFont (fun _ => 1) (fun _ => 0) ⟨0,0,0⟩) :=
  (spinner_periodic tinyScreen_sound (by unfold Below4G; decide) demoFont (fun _ => 1) (fun _ => 0) ⟨0,0,0⟩ 0).1

end BootScreen
end ValiantCore
