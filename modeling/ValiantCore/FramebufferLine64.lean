import ValiantCore.FramebufferLine

/-! The lines of `arch/aarch64/framebuffer64.c` beside those of `drivers/framebuffer.c`. What
`fb64_draw_line` computes before the loop lets it arrive on level lines only. -/
namespace ValiantCore
namespace FramebufferLine

open LineWalk

/-- The pixel that `fb_but_pixel((uint32_t)x, (uint32_t)y, color)` sets. -/
def pixel (width height : UInt32) (p : ℤ × ℤ) : Option (ℕ × ℕ) :=
  if u32 p.1 ≥ width.toNat ∨ u32 p.2 ≥ height.toNat then none else some (u32 p.1,u32 p.2)

/-- `if (x0 >= 0 && y0 >= 0) fb64_put_pixel((uint32_t)x0, (uint32_t)y0, color)` -/
def pixel64 (width height : UInt32) (p : ℤ × ℤ) : Option (ℕ × ℕ) :=
  if p.1 ≥ 0 ∧ p.2 ≥ 0 then pixel width height p else none

/-- `fb64_init` refuses a screen without pixels; `fb_init` does not. -/
def fb64Ready (width height : UInt32) : Bool := width ≠ 0 ∧ height ≠ 0

section Pixels
variable (width height : UInt32) (x0 y0 x1 y1 : ℤ)

/-- The pixels that are set on the screen, in a run of whatever length. -/
def Sets (q : ℕ × ℕ) : Prop := ∃ fuel, ∃ p ∈ (fbDrawLine true fuel x0 y0 x1 y1).1, pixel width height p = some q

def Sets64 (q : ℕ × ℕ) : Prop :=
  ∃ fuel, ∃ p ∈ (fb64DrawLine (fb64Ready width height) fuel x0 y0 x1 y1).1, pixel64 width height p = some q

structure Agrees : Prop where
  terminates : ∃ fuel, (fb64DrawLine (fb64Ready width height) fuel x0 y0 x1 y1).2 = .returned
  pixels : ∀ q, Sets64 width height x0 y0 x1 y1 q ↔ Sets width height x0 y0 x1 y1 q

/-- A level line, to the left or with its end less than 2^30 to the right of `y0`. -/
def Level : Prop := y0 = y1 ∧ (x1 ≤ x0 ∨ (0 < x1-y0 ∧ x1-y0 < 2^30))

/-- A level line has a point with a negative coordinate that is on the screen after the
conversion to `uint32_t`. -/
def NegativeShown : Prop :=
  ∃ x, (min x0 x1 ≤ x ∧ x ≤ max x0 x1) ∧ (x < 0 ∨ y0 < 0) ∧ u32 x < width.toNat ∧ u32 y0 < height.toNat

end Pixels

theorem drawLoop_never {l : Line} {S : Pen → Prop} (hnot : ∀ p, S p → ¬ AtEnd l p)
    (hturn : ∀ p p', S p → turn l p = some p' → S p') {p : Pen} (hp : S p) (fuel : ℕ) :
    (drawLoop l fuel p).2 ≠ .returned := by
  induction fuel generalizing p with
  | zero =>
    intro hreturned
    cases hreturned
  | succ fuel ih =>
    rw [drawLoop,if_neg (hnot p hp)]
    cases hnext : turn l p with
    | none =>
      intro hreturned
      cases hreturned
    | some p' => exact ih (hturn p p' hp hnext)

theorem drawLoop_subset {l : Line} {n : ℕ} {p : Pen} (hreturned : (drawLoop l n p).2 = .returned) (fuel : ℕ) :
    (drawLoop l fuel p).1 ⊆ (drawLoop l n p).1 := by
  induction fuel generalizing n p with
  | zero => exact List.nil_subset _
  | succ fuel ih =>
    cases n with
    | zero => cases hreturned
    | succ n =>
      rw [drawLoop] at hreturned ⊢
      rw [drawLoop]
      split_ifs at hreturned ⊢
      · exact List.Subset.refl _
      · cases hnext : turn l p with
        | none =>
          rw [hnext] at hreturned
          cases hreturned
        | some p' =>
          rw [hnext] at hreturned
          exact List.cons_subset_cons _ (ih hreturned)

theorem int32_some {z w : ℤ} (h : int32 z = some w) : IsInt z ∧ w = z := by
  unfold int32 at h
  split_ifs at h with hz
  exact ⟨hz,(Option.some.inj h).symm⟩

theorem stepX_some {l : Line} {e2 : ℤ} {p q : Pen} (h : stepX l e2 p = some q) :
    q = if l.dy ≤ e2 then ⟨p.x+l.sx,p.y,p.err+l.dy⟩ else p := by
  unfold stepX at h
  split_ifs at h ⊢ with htest
  · obtain ⟨err,herr,h⟩ := Option.bind_eq_some_iff.mp h
    obtain ⟨x,hx,h⟩ := Option.bind_eq_some_iff.mp h
    rw [← Option.some.inj h,(int32_some herr).2,(int32_some hx).2]
  · exact (Option.some.inj h).symm

theorem stepY_some {l : Line} {e2 : ℤ} {p q : Pen} (h : stepY l e2 p = some q) :
    q = if e2 ≤ l.dx then ⟨p.x,p.y+l.sy,p.err+l.dx⟩ else p := by
  unfold stepY at h
  split_ifs at h ⊢ with htest
  · obtain ⟨err,herr,h⟩ := Option.bind_eq_some_iff.mp h
    obtain ⟨y,hy,h⟩ := Option.bind_eq_some_iff.mp h
    rw [← Option.some.inj h,(int32_some herr).2,(int32_some hy).2]
  · exact (Option.some.inj h).symm

theorem turn_some {l : Line} {p p' : Pen} (h : turn l p = some p') :
    IsInt (2*p.err) ∧ ∃ q, (q = if l.dy ≤ 2*p.err then ⟨p.x+l.sx,p.y,p.err+l.dy⟩ else p) ∧
      p' = if 2*p.err ≤ l.dx then ⟨q.x,q.y+l.sy,q.err+l.dx⟩ else q := by
  obtain ⟨e2,he2,h⟩ := Option.bind_eq_some_iff.mp h
  obtain ⟨hint,rfl⟩ := int32_some he2
  obtain ⟨q,hq,h⟩ := Option.bind_eq_some_iff.mp h
  exact ⟨hint,q,stepX_some hq,stepY_some h⟩

section Stray
variable {l : Line} {p : Pen}

theorem never_of_high (hdy : 0 ≤ l.dy) (herr : l.dx < 2*p.err) (hy : p.y ≠ l.y1) (fuel : ℕ) :
    (drawLoop l fuel p).2 ≠ .returned := by
  refine drawLoop_never (S := fun q => q.y ≠ l.y1 ∧ l.dx < 2*q.err) (fun q hq hend => hq.1 hend.2) ?_ ⟨hy,herr⟩ fuel
  rintro q q' ⟨hqy,hqerr⟩ hturn
  obtain ⟨-,r,rfl,rfl⟩ := turn_some hturn
  rw [if_neg (not_le.mpr hqerr)]
  split_ifs
  · exact ⟨hqy,by dsimp only; omega⟩
  · exact ⟨hqy,hqerr⟩

theorem never_of_low (hdx : l.dx < 0) (hdy : 0 ≤ l.dy) (herr : 2*p.err ≤ l.dx) (hx : p.x ≠ l.x1) (fuel : ℕ) :
    (drawLoop l fuel p).2 ≠ .returned := by
  refine drawLoop_never (S := fun q => q.x ≠ l.x1 ∧ 2*q.err ≤ l.dx) (fun q hq hend => hq.1 hend.1) ?_ ⟨hx,herr⟩ fuel
  rintro q q' ⟨hqx,hqerr⟩ hturn
  obtain ⟨-,r,rfl,rfl⟩ := turn_some hturn
  rw [if_pos hqerr,if_neg (by omega)]
  exact ⟨hqx,by dsimp only; omega⟩

theorem never_of_diagonal (hl : l.dx = 0 ∧ l.dy = 0 ∧ l.sx = 1 ∧ l.sy = -1) (herr : p.err = 0) (hx : p.x ≠ l.x1)
    (hy : p.y = l.y1) (fuel : ℕ) : (drawLoop l fuel p).2 ≠ .returned := by
  obtain ⟨hdx,hdy,hsx,hsy⟩ := hl
  refine drawLoop_never (S := fun q => q.err = 0 ∧ (q.x = p.x ∨ q.y < l.y1) ∧ q.y ≤ l.y1) ?_ ?_
    ⟨herr,Or.inl rfl,hy.le⟩ fuel
  · rintro q ⟨-,hq,-⟩ ⟨hendX,hendY⟩
    rcases hq with hq | hq
    · exact hx (hq.symm.trans hendX)
    · omega
  · rintro q q' ⟨hqerr,hq,hqy⟩ hturn
    obtain ⟨-,r,rfl,rfl⟩ := turn_some hturn
    rw [if_pos (by omega),if_pos (by omega)]
    refine ⟨by dsimp only; omega,Or.inr ?_,?_⟩
    · dsimp only
      omega
    · dsimp only
      omega

theorem never_of_overflow (hend : ¬ AtEnd l p) (hover : ¬ IsInt (2*p.err)) (fuel : ℕ) :
    (drawLoop l fuel p).2 ≠ .returned := by
  refine drawLoop_never (S := fun q => q = p) ?_ ?_ rfl fuel
  · rintro q rfl
    exact hend
  · rintro q q' rfl hturn
    rw [turn_overflow hover] at hturn
    cases hturn

end Stray

def dx64 (x0 y0 x1 : ℤ) : ℤ := if x1 > x0 then x1-y0 else x0-x1

def line64 (x0 y0 x1 y1 : ℤ) : Line := ⟨dx64 x0 y0 x1,|y1-y0|,sign x0 x1,sign y0 y1,x1,y1⟩

def pen64 (x0 y0 x1 y1 : ℤ) : Pen := ⟨x0,y0,dx64 x0 y0 x1+|y1-y0|⟩

theorem fb64Dx_eq (x0 y0 x1 : ℤ) : fb64Dx x0 y0 x1 = int32 (dx64 x0 y0 x1) := by
  unfold fb64Dx dx64
  split_ifs
  · rfl
  · rfl

theorem fb64Dy_eq (y0 y1 : ℤ) : fb64Dy y0 y1 = int32 |y1-y0| := by
  unfold fb64Dy
  by_cases hlt : y1 > y0
  · rw [if_pos hlt,if_pos (by decide),abs_of_pos (by omega)]
  · rw [if_neg hlt,if_neg (by decide),abs_of_nonpos (by omega),neg_sub]

section Level
variable {x0 y0 x1 y1 : ℤ}

theorem fb64Setup_some {s : Line × Pen} (hsetup : fb64Setup x0 y0 x1 y1 = some s) :
    s = (line64 x0 y0 x1 y1,pen64 x0 y0 x1 y1) := by
  obtain ⟨dx,hdx,hsetup⟩ := Option.bind_eq_some_iff.mp hsetup
  obtain ⟨dy,hdy,hsetup⟩ := Option.bind_eq_some_iff.mp hsetup
  obtain ⟨err,herr,hsetup⟩ := Option.bind_eq_some_iff.mp hsetup
  rw [fb64Dx_eq] at hdx
  rw [fb64Dy_eq] at hdy
  obtain ⟨-,rfl⟩ := int32_some hdx
  obtain ⟨-,rfl⟩ := int32_some hdy
  obtain ⟨-,rfl⟩ := int32_some herr
  exact (Option.some.inj hsetup).symm

theorem level_of_returned {fuel : ℕ} (hreturned : (fb64DrawLine true fuel x0 y0 x1 y1).2 = .returned) :
    Level x0 y0 x1 y1 := by
  cases hsetup : fb64Setup x0 y0 x1 y1 with
  | none =>
    rw [fb64DrawLine,hsetup] at hreturned
    cases hreturned
  | some s =>
    rw [fb64DrawLine,hsetup,fb64Setup_some hsetup] at hreturned
    change (drawLoop (line64 x0 y0 x1 y1) fuel (pen64 x0 y0 x1 y1)).2 = .returned at hreturned
    have hE := abs_nonneg (y1-y0)
    by_contra hnot
    by_cases hy : y0 = y1
    · subst hy
      have hflat : |y0-y0| = 0 := by simp
      obtain ⟨hright,hrange⟩ : x0 < x1 ∧ (x1-y0 ≤ 0 ∨ 2^30 ≤ x1-y0) := by
        unfold Level at hnot
        omega
      have hdx : dx64 x0 y0 x1 = x1-y0 := if_pos hright
      have hx : x0 ≠ x1 := hright.ne
      rcases lt_trichotomy (x1-y0) 0 with hneg | hzero | hpos
      · exact never_of_low (by rw [line64,hdx]; exact hneg) hE (by simp only [pen64,line64,hdx,hflat]; omega) hx
          fuel hreturned
      · refine never_of_diagonal ⟨hdx.trans hzero,hflat,if_pos hright,if_neg (lt_irrefl y0)⟩ ?_ hx rfl fuel hreturned
        simp only [pen64,hdx,hflat]
        omega
      · refine never_of_overflow (fun hend => hx hend.1) ?_ fuel hreturned
        simp only [pen64,hdx,hflat,IsInt]
        omega
    · have hEpos : 0 < |y1-y0| := abs_pos.mpr (by omega)
      by_cases hhigh : 0 < dx64 x0 y0 x1+2*|y1-y0|
      · exact never_of_high hE (by simp only [pen64,line64]; omega) hy fuel hreturned
      · have hneg : dx64 x0 y0 x1 < 0 := by omega
        have hx : x0 ≠ x1 := by
          rintro rfl
          simp [dx64] at hneg
        exact never_of_low hneg hE (by simp only [pen64,line64]; omega) hx fuel hreturned

end Level

def levelWalk (x0 y0 x1 : ℤ) : List (ℤ × ℤ) :=
  (List.range (|x1-x0|.toNat+1)).map fun k : ℕ => (x0+sign x0 x1*k,y0)

theorem mem_levelWalk {x0 y0 x1 : ℤ} {p : ℤ × ℤ} :
    p ∈ levelWalk x0 y0 x1 ↔ p.2 = y0 ∧ min x0 x1 ≤ p.1 ∧ p.1 ≤ max x0 x1 := by
  have hD := abs_nonneg (x1-x0)
  constructor
  · intro hp
    obtain ⟨k,hk,rfl⟩ := List.mem_map.mp hp
    rw [List.mem_range] at hk
    exact ⟨rfl,between (Int.natCast_nonneg k) (by omega)⟩
  · rintro ⟨hy,hx⟩
    refine List.mem_map.mpr ⟨(p.1-x0).natAbs,List.mem_range.mpr ?_,Prod.ext ?_ hy.symm⟩
    · rcases le_total x0 x1 with hle | hle
      · rw [abs_of_nonneg (by omega)]
        omega
      · rw [abs_of_nonpos (by omega)]
        omega
    · unfold sign
      split_ifs
      · omega
      · omega

section LevelRuns
variable {x0 y0 x1 y1 : ℤ} (h : Ends x0 y0 x1 y1)
include h

theorem fbDrawLine_level (hy : y0 = y1) : fbDrawLine true (|x1-x0|.toNat+1) x0 y0 x1 y1 = (levelWalk x0 y0 x1,.returned) := by
  subst hy
  have hD := abs_nonneg (x1-x0)
  have hflat : |y0-y0| = 0 := by simp
  have hfits : ErrFits |x1-x0| |y0-y0| := by
    have hlength := h.length
    rw [hflat,ErrFits,if_pos hD,maxErr_flat hD]
    omega
  have hwalk := fbDrawLine_walk h hfits
  have hmax : max |x1-x0| |y0-y0| = |x1-x0| := by rw [hflat,max_eq_left hD]
  rw [hmax] at hwalk
  rw [hwalk,walk,hmax]
  congr 1
  refine List.map_congr_left fun k hk => ?_
  rw [place_penAt,hflat,sides_flat hD,minor_flat _ _ hD,mul_zero,add_zero]

theorem fb64DrawLine_level (hl : Level x0 y0 x1 y1) :
    fb64DrawLine true (|x1-x0|.toNat+1) x0 y0 x1 y1 = (levelWalk x0 y0 x1,.returned) := by
  obtain ⟨rfl,hdir⟩ := hl
  have hD := abs_nonneg (x1-x0)
  have hlength := h.length
  have hflat : |y0-y0| = 0 := by simp
  have hdx : 0 ≤ dx64 x0 y0 x1 ∧ dx64 x0 y0 x1 < 2^30 ∧ (0 < |x1-x0| → 0 < dx64 x0 y0 x1) := by
    unfold dx64
    split_ifs with hright
    · omega
    · rw [abs_of_nonpos (by omega)] at hlength ⊢
      omega
  have hint : IsInt (dx64 x0 y0 x1) := by
    unfold IsInt
    omega
  have hsetup : fb64Setup x0 y0 x1 y0 = some (line64 x0 y0 x1 y0,pen64 x0 y0 x1 y0) := by
    have hzero : IsInt (0 : ℤ) := by decide
    rw [fb64Setup,fb64Dx_eq,fb64Dy_eq,hflat,int32,int32,if_pos hint,if_pos hzero]
    simp only [Option.bind_eq_bind,Option.bind_some,add_zero,int32,if_pos hint,line64,pen64,hflat,sign]
  have hloop := @drawLoop_path (line64 x0 y0 x1 y0) |x1-x0|.toNat
    (fun k : ℕ => ⟨x0+sign x0 x1*k,y0,dx64 x0 y0 x1⟩) (fun k hk => ?_) ?_
  · rw [Nat.cast_zero,mul_zero,add_zero] at hloop
    rw [fb64DrawLine,hsetup]
    change drawLoop (line64 x0 y0 x1 y0) (|x1-x0|.toNat+1) ⟨x0,y0,dx64 x0 y0 x1+|y0-y0|⟩ = _
    rw [hflat,add_zero,hloop]
    rfl
  · -- a turn to the side, which leaves the error term as it is
    have hnext := isInt_between h.startX h.endX (by omega : 0 ≤ (k : ℤ)+1) (by omega)
    rw [mul_add,mul_one,← add_assoc] at hnext
    refine ⟨fun hend => ?_,?_⟩
    · have hgap := along_distance (by omega : (k : ℤ) ≤ |x1-x0|)
      rw [show x0+sign x0 x1*k = x1 from hend.1,sub_self,abs_zero] at hgap
      omega
    · have hturn := @turn_x (line64 x0 y0 x1 y0) ⟨x0+sign x0 x1*k,y0,dx64 x0 y0 x1⟩
        (by unfold IsInt; dsimp only; omega) (by simp only [line64,hflat]; omega) (by simp only [line64]; omega)
        (by simpa only [line64,hflat,add_zero] using hint) hnext
      rw [hturn]
      simp only [line64,hflat,Nat.cast_add,Nat.cast_one,mul_add,mul_one,add_assoc,add_zero]
  · rw [AtEnd,Int.toNat_of_nonneg hD]
    exact ⟨along_end x0 x1,rfl⟩

end LevelRuns

theorem draw_subset {ready : Bool} {setup : Option (Line × Pen)} {n : ℕ}
    (hreturned : (draw ready setup n).2 = .returned) (fuel : ℕ) : (draw ready setup fuel).1 ⊆ (draw ready setup n).1 := by
  cases ready with
  | false => exact List.Subset.refl _
  | true =>
    cases setup with
    | none => cases hreturned
    | some s => exact drawLoop_subset hreturned fuel

section Agreement
variable {width height : UInt32} {x0 y0 x1 y1 : ℤ}

theorem pixel_some {p : ℤ × ℤ} {q : ℕ × ℕ} :
    pixel width height p = some q ↔ (u32 p.1 < width.toNat ∧ u32 p.2 < height.toNat) ∧ (u32 p.1,u32 p.2) = q := by
  unfold pixel
  split_ifs with hout
  · refine iff_of_false nofun fun hin => ?_
    omega
  · rw [Option.some_inj]
    exact (and_iff_right (by omega)).symm

theorem pixel64_some {p : ℤ × ℤ} {q : ℕ × ℕ} :
    pixel64 width height p = some q ↔ (p.1 ≥ 0 ∧ p.2 ≥ 0) ∧ pixel width height p = some q := by
  unfold pixel64
  split_ifs with hin
  · exact (and_iff_right hin).symm
  · exact iff_of_false nofun fun h => hin h.1

theorem draws_level {ready : Bool} {setup : Option (Line × Pen)} {n : ℕ}
    (hrun : draw ready setup n = (levelWalk x0 y0 x1,.returned)) (P : ℤ × ℤ → Prop) :
    (∃ fuel, ∃ p ∈ (draw ready setup fuel).1, P p) ↔
      ∃ x, (min x0 x1 ≤ x ∧ x ≤ max x0 x1) ∧ P (x,y0) := by
  constructor
  · rintro ⟨fuel,p,hp,hP⟩
    have hmem := draw_subset (by rw [hrun]) fuel hp
    rw [hrun,mem_levelWalk] at hmem
    exact ⟨p.1,hmem.2,hmem.1 ▸ hP⟩
  · rintro ⟨x,hx,hP⟩
    refine ⟨n,(x,y0),?_,hP⟩
    rw [hrun]
    exact mem_levelWalk.mpr ⟨rfl,hx⟩

theorem sets_level (h : Ends x0 y0 x1 y1) (hy : y0 = y1) (q : ℕ × ℕ) :
    Sets width height x0 y0 x1 y1 q ↔
      ∃ x, (min x0 x1 ≤ x ∧ x ≤ max x0 x1) ∧ pixel width height (x,y0) = some q :=
  draws_level (fbDrawLine_level h hy) _

theorem sets64_level (h : Ends x0 y0 x1 y1) (hl : Level x0 y0 x1 y1) (hready : fb64Ready width height = true)
    (q : ℕ × ℕ) : Sets64 width height x0 y0 x1 y1 q ↔
      ∃ x, (min x0 x1 ≤ x ∧ x ≤ max x0 x1) ∧ (x ≥ 0 ∧ y0 ≥ 0) ∧ pixel width height (x,y0) = some q := by
  unfold Sets64
  rw [hready]
  refine (draws_level (fb64DrawLine_level h hl) _).trans ?_
  simp only [pixel64_some]

/-- On a level line the two drivers set the same pixels, unless the one lets a negative
coordinate through to the screen. -/
theorem pixels_level_iff (h : Ends x0 y0 x1 y1) (hl : Level x0 y0 x1 y1) (hready : fb64Ready width height = true) :
    (∀ q, Sets64 width height x0 y0 x1 y1 q ↔ Sets width height x0 y0 x1 y1 q) ↔
      ¬ NegativeShown width height x0 y0 x1 := by
  simp only [sets_level h hl.1,sets64_level h hl hready]
  constructor
  · rintro hsame ⟨x,hx,hneg,hshown⟩
    obtain ⟨x',hx',hin,hpixel⟩ := (hsame (u32 x,u32 y0)).mpr ⟨x,hx,pixel_some.mpr ⟨hshown,rfl⟩⟩
    obtain ⟨-,hcoords⟩ := pixel_some.mp hpixel
    -- converted, a negative coordinate is at least 2^31
    have hxx := (Prod.mk.inj hcoords).1
    have hstart := h.startX
    have hend := h.endX
    unfold IsInt at hstart hend
    unfold u32 at hxx
    omega
  · intro hnone q
    constructor
    · rintro ⟨x,hx,-,hpixel⟩
      exact ⟨x,hx,hpixel⟩
    · rintro ⟨x,hx,hpixel⟩
      refine ⟨x,hx,?_,hpixel⟩
      have hshown := (pixel_some.mp hpixel).1
      by_contra hneg
      exact hnone ⟨x,hx,by omega,hshown⟩

theorem agrees_of_no_pixels (hempty : fb64Ready width height = false) : Agrees width height x0 y0 x1 y1 := by
  refine ⟨⟨0,by rw [hempty]; rfl⟩,fun q => iff_of_false ?_ ?_⟩
  · rintro ⟨fuel,p,hp,-⟩
    rw [hempty] at hp
    cases hp
  · rintro ⟨fuel,p,-,hpixel⟩
    have hshown := (pixel_some.mp hpixel).1
    have hzero : width.toNat = 0 ∨ height.toNat = 0 := by
      simpa [fb64Ready,imp_iff_not_or,← UInt32.toNat_inj] using hempty
    omega

/-- For every size of the screen and all ends of a line of less than 2^30 points, the two
drawers agree just if there is no screen, or the line is level and has no negative point
that comes to the screen. -/
theorem fb64DrawLine_agrees_iff (width height : UInt32) (h : Ends x0 y0 x1 y1) :
    Agrees width height x0 y0 x1 y1 ↔
      width = 0 ∨ height = 0 ∨ (Level x0 y0 x1 y1 ∧ ¬ NegativeShown width height x0 y0 x1) := by
  cases hready : fb64Ready width height with
  | false =>
    have hzero : width = 0 ∨ height = 0 := by simpa [fb64Ready,imp_iff_not_or] using hready
    refine iff_of_true (agrees_of_no_pixels hready) ?_
    tauto
  | true =>
    obtain ⟨hwidth,hheight⟩ : width ≠ 0 ∧ height ≠ 0 := by simpa [fb64Ready] using hready
    rw [or_iff_right hwidth,or_iff_right hheight]
    constructor
    · rintro ⟨⟨fuel,hreturned⟩,hpixels⟩
      rw [hready] at hreturned
      have hl := level_of_returned hreturned
      exact ⟨hl,(pixels_level_iff h hl hready).mp hpixels⟩
    · rintro ⟨hl,hnone⟩
      refine ⟨⟨|x1-x0|.toNat+1,?_⟩,(pixels_level_iff h hl hready).mpr hnone⟩
      rw [hready,fb64DrawLine_level h hl]

end Agreement

theorem fb64DrawLine_agrees_demo : Agrees 640 480 9 2 4 2 :=
  (fb64DrawLine_agrees_iff 640 480 ⟨by decide,by decide,by decide,by decide,by decide⟩).mpr
    (Or.inr (Or.inr ⟨⟨rfl,Or.inl (by decide)⟩,by rintro ⟨x,hx,hneg,-⟩; omega⟩))

/-- A line of two points, one below the other, is never brought to its end. -/
theorem upright_line_disagrees : ¬ Agrees 640 480 0 0 0 1 := by
  rintro ⟨⟨fuel,hreturned⟩,-⟩
  exact absurd (level_of_returned hreturned).1 (by decide)

end FramebufferLine
end ValiantCore
