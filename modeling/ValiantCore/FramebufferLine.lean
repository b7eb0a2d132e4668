import ValiantCore.Bytes
import ValiantCore.LineWalk
import Mathlib.Algebra.Order.Ring.Abs
import Mathlib.Data.List.Range

/-! The lines of `drivers/framebuffer.c` and `arch/aarch64/framebuffer64.c`. Both drivers run
one loop, which leaves at the end of the line only; what they compute before it, and which
of the points they let through to the screen, differs. An `int` that overflows ends a run. -/
namespace ValiantCore
namespace FramebufferLine

open LineWalk

def IsInt (z : ℤ) : Prop := -2^31 ≤ z ∧ z < 2^31

instance (z : ℤ) : Decidable (IsInt z) := inferInstanceAs (Decidable (_ ∧ _))

/-- The result of an operation on `int`, if it has one. -/
def int32 (z : ℤ) : Option ℤ := if IsInt z then some z else none

/-- The variables that the loop changes. -/
@[ext] structure Pen where
  x : ℤ
  y : ℤ
  err : ℤ
  deriving DecidableEq, Repr

/-- Those that it does not. -/
structure Line where
  dx : ℤ
  dy : ℤ
  sx : ℤ
  sy : ℤ
  x1 : ℤ
  y1 : ℤ
  deriving DecidableEq, Repr

inductive Outcome
  | running | returned | overflow
  deriving DecidableEq, Repr

/-- `if (e2 >= dy) { err += dy; x0 += sx; }` -/
def stepX (l : Line) (e2 : ℤ) (p : Pen) : Option Pen :=
  if e2 ≥ l.dy then do
    let err ← int32 (p.err+l.dy)
    let x ← int32 (p.x+l.sx)
    some { p with err := err, x := x }
  else some p

/-- `if (e2 <= dx) { err += dx; y0 += sy; }` -/
def stepY (l : Line) (e2 : ℤ) (p : Pen) : Option Pen :=
  if e2 ≤ l.dx then do
    let err ← int32 (p.err+l.dx)
    let y ← int32 (p.y+l.sy)
    some { p with err := err, y := y }
  else some p

def turn (l : Line) (p : Pen) : Option Pen := do
  let e2 ← int32 (2*p.err)
  let p ← stepX l e2 p
  stepY l e2 p

/-- `x0 == x1 && y0 == y1` -/
def AtEnd (l : Line) (p : Pen) : Prop := p.x = l.x1 ∧ p.y = l.y1

instance (l : Line) (p : Pen) : Decidable (AtEnd l p) := inferInstanceAs (Decidable (_ ∧ _))

def place (p : Pen) : ℤ × ℤ := (p.x,p.y)

/-- The points that the loop comes to, and how it ends. -/
def drawLoop (l : Line) : ℕ → Pen → List (ℤ × ℤ) × Outcome
  | 0, _ => ([],.running)
  | n+1, p =>
    if AtEnd l p then ([place p],.returned)
    else
      match turn l p with
      | none => ([place p],.overflow)
      | some p' =>
        let r := drawLoop l n p'
        (place p::r.1,r.2)

/-- `(b > a) ? (b - a) : (a - b)` -/
def distance (a b : ℤ) : Option ℤ := if b > a then int32 (b-a) else int32 (a-b)

/-- What `fb_draw_line` computes before the loop. -/
def fbSetup (x0 y0 x1 y1 : ℤ) : Option (Line × Pen) := do
  let dx ← distance x0 x1
  let h ← distance y0 y1
  let dy ← int32 (-h)
  let err ← int32 (dx+dy)
  some (⟨dx,dy,if x0 < x1 then 1 else -1,if y0 < y1 then 1 else -1,x1,y1⟩,⟨x0,y0,err⟩)

/-- `(x1 > x0) ? (x1 - y0) : (x0 - x1)`: in `fb64_draw_line` it is `y0` that is taken off. -/
def fb64Dx (x0 y0 x1 : ℤ) : Option ℤ := if x1 > x0 then int32 (x1-y0) else int32 (x0-x1)

/-- `-(y1 > y0) ? (y1 - y0) : (y0 - y1)`: the minus sign is part of the condition. -/
def fb64Dy (y0 y1 : ℤ) : Option ℤ :=
  if -(if y1 > y0 then 1 else 0) ≠ (0 : ℤ) then int32 (y1-y0) else int32 (y0-y1)

def fb64Setup (x0 y0 x1 y1 : ℤ) : Option (Line × Pen) := do
  let dx ← fb64Dx x0 y0 x1
  let dy ← fb64Dy y0 y1
  let err ← int32 (dx+dy)
  some (⟨dx,dy,if x0 < x1 then 1 else -1,if y0 < y1 then 1 else -1,x1,y1⟩,⟨x0,y0,err⟩)

def draw (ready : Bool) (setup : Option (Line × Pen)) (fuel : ℕ) : List (ℤ × ℤ) × Outcome :=
  if ready then
    match setup with
    | none => ([],.overflow)
    | some (l,p) => drawLoop l fuel p
  else ([],.returned)

def fbDrawLine (ready : Bool) (fuel : ℕ) (x0 y0 x1 y1 : ℤ) : List (ℤ × ℤ) × Outcome :=
  draw ready (fbSetup x0 y0 x1 y1) fuel

def fb64DrawLine (ready : Bool) (fuel : ℕ) (x0 y0 x1 y1 : ℤ) : List (ℤ × ℤ) × Outcome :=
  draw ready (fb64Setup x0 y0 x1 y1) fuel

/-- A step of at most one in each direction, and none away from the end. -/
def Towards (x1 y1 : ℤ) (p q : ℤ × ℤ) : Prop :=
  p ≠ q ∧ |q.1-p.1| ≤ 1 ∧ |q.2-p.2| ≤ 1 ∧
    |x1-q.1| = |x1-p.1|-|q.1-p.1| ∧ |y1-q.2| = |y1-p.2|-|q.2-p.2|

/-- The points of a straight walk from the one end to the other. -/
structure WalksLine (x0 y0 x1 y1 : ℤ) (points : List (ℤ × ℤ)) : Prop where
  length : (points.length : ℤ) = max |x1-x0| |y1-y0|+1
  first : points.head? = some (x0,y0)
  last : points.getLast? = some (x1,y1)
  steps : points.IsChain (Towards x1 y1)
  box : ∀ p ∈ points, min x0 x1 ≤ p.1 ∧ p.1 ≤ max x0 x1 ∧ min y0 y1 ≤ p.2 ∧ p.2 ≤ max y0 y1

/-- The loop comes to its end, without overflow, and its points are such a walk. -/
def DrawsLine (x0 y0 x1 y1 : ℤ) : Prop :=
  ∃ fuel, (fbDrawLine true fuel x0 y0 x1 y1).2 = .returned ∧
    WalksLine x0 y0 x1 y1 (fbDrawLine true fuel x0 y0 x1 y1).1

/-- The doubled error term of a line with these sides is an `int` at every turn. -/
def ErrFits (D E : ℤ) : Prop := if E ≤ D then maxErr D E < 2^30 else maxErr E D ≤ 2^30

/-- The ends of a line that is not too long. -/
structure Ends (x0 y0 x1 y1 : ℤ) : Prop where
  startX : IsInt x0
  startY : IsInt y0
  endX : IsInt x1
  endY : IsInt y1
  length : |x1-x0|+|y1-y0| < 2^30

section Turns
variable {l : Line} {p : Pen}

theorem stepX_eq {e2 : ℤ} (htest : l.dy ≤ e2) (herr : IsInt (p.err+l.dy)) (hx : IsInt (p.x+l.sx)) :
    stepX l e2 p = some ⟨p.x+l.sx,p.y,p.err+l.dy⟩ := by
  rw [stepX,if_pos htest,int32,int32,if_pos herr,if_pos hx]
  rfl

theorem stepY_eq {e2 : ℤ} (htest : e2 ≤ l.dx) (herr : IsInt (p.err+l.dx)) (hy : IsInt (p.y+l.sy)) :
    stepY l e2 p = some ⟨p.x,p.y+l.sy,p.err+l.dx⟩ := by
  rw [stepY,if_pos htest,int32,int32,if_pos herr,if_pos hy]
  rfl

theorem turn_overflow (he2 : ¬ IsInt (2*p.err)) : turn l p = none := by
  rw [turn,int32,if_neg he2]
  rfl

section Tests
variable (he2 : IsInt (2*p.err))
include he2

theorem turn_eq : turn l p = (stepX l (2*p.err) p).bind fun q => stepY l (2*p.err) q := by
  rw [turn,int32,if_pos he2]
  rfl

theorem turn_x (hdy : l.dy ≤ 2*p.err) (hdx : l.dx < 2*p.err) (herr : IsInt (p.err+l.dy)) (hx : IsInt (p.x+l.sx)) :
    turn l p = some ⟨p.x+l.sx,p.y,p.err+l.dy⟩ := by
  rw [turn_eq he2,stepX_eq hdy herr hx,Option.bind_some,stepY,if_neg (not_le.mpr hdx)]

theorem turn_y (hdy : 2*p.err < l.dy) (hdx : 2*p.err ≤ l.dx) (herr : IsInt (p.err+l.dx)) (hy : IsInt (p.y+l.sy)) :
    turn l p = some ⟨p.x,p.y+l.sy,p.err+l.dx⟩ := by
  rw [turn_eq he2,stepX,if_neg (not_le.mpr hdy),Option.bind_some,stepY_eq hdx herr hy]

theorem turn_xy (hdy : l.dy ≤ 2*p.err) (hdx : 2*p.err ≤ l.dx) (herr : IsInt (p.err+l.dy)) (hx : IsInt (p.x+l.sx))
    (herr' : IsInt (p.err+l.dy+l.dx)) (hy : IsInt (p.y+l.sy)) :
    turn l p = some ⟨p.x+l.sx,p.y+l.sy,p.err+l.dy+l.dx⟩ := by
  rw [turn_eq he2,stepX_eq hdy herr hx,Option.bind_some]
  exact stepY_eq hdx herr' hy

end Tests

end Turns

def sign (a b : ℤ) : ℤ := if a < b then 1 else -1

/-- The pen after `k` turns: it goes along the longer side step by step. -/
def penAt (x0 y0 x1 y1 k : ℤ) : Pen :=
  if |y1-y0| ≤ |x1-x0| then
    ⟨x0+sign x0 x1*k,y0+sign y0 y1*minor |x1-x0| |y1-y0| k,err |x1-x0| |y1-y0| k⟩
  else ⟨x0+sign x0 x1*minor |y1-y0| |x1-x0| k,y0+sign y0 y1*k,-err |y1-y0| |x1-x0| k⟩

def lineOf (x0 y0 x1 y1 : ℤ) : Line := ⟨|x1-x0|,-|y1-y0|,sign x0 x1,sign y0 y1,x1,y1⟩

/-- The doubled error term is an `int` at turn `k`. -/
def ErrFitsAt (D E k : ℤ) : Prop := if E ≤ D then err D E k < 2^30 else err E D k ≤ 2^30

theorem between {a b k : ℤ} (h0 : 0 ≤ k) (hk : k ≤ |b-a|) :
    min a b ≤ a+sign a b*k ∧ a+sign a b*k ≤ max a b := by
  unfold sign
  split_ifs with hlt
  · rw [abs_of_pos (by omega)] at hk
    omega
  · rw [abs_of_nonpos (by omega)] at hk
    omega

theorem isInt_between {a b k : ℤ} (ha : IsInt a) (hb : IsInt b) (h0 : 0 ≤ k) (hk : k ≤ |b-a|) :
    IsInt (a+sign a b*k) := by
  obtain ⟨hlow,hhigh⟩ := between h0 hk
  unfold IsInt at ha hb ⊢
  omega

theorem drawLoop_path {l : Line} {n : ℕ} {path : ℕ → Pen}
    (hturn : ∀ k < n, ¬ AtEnd l (path k) ∧ turn l (path k) = some (path (k+1))) (hend : AtEnd l (path n)) :
    drawLoop l (n+1) (path 0) = ((List.range (n+1)).map fun k => place (path k),.returned) := by
  induction n generalizing path with
  | zero =>
    rw [drawLoop,if_pos hend]
    rfl
  | succ n ih =>
    obtain ⟨hgo,hfirst⟩ := hturn 0 (Nat.succ_pos n)
    have hrest := @ih (fun k => path (k+1)) (fun k hk => hturn (k+1) (Nat.succ_lt_succ hk)) hend
    rw [drawLoop,if_neg hgo,hfirst]
    simp only [hrest]
    rw [List.range_succ_eq_map (n := n+1),List.map_cons,List.map_map]
    rfl

theorem drawLoop_overflow {l : Line} {n : ℕ} {path : ℕ → Pen}
    (hturn : ∀ k < n, ¬ AtEnd l (path k) ∧ turn l (path k) = some (path (k+1)))
    (hover : ¬ AtEnd l (path n) ∧ turn l (path n) = none) (fuel : ℕ) :
    (drawLoop l fuel (path 0)).2 ≠ .returned := by
  induction n generalizing path fuel with
  | zero =>
    cases fuel with
    | zero => exact nofun
    | succ fuel =>
      rw [drawLoop,if_neg hover.1,hover.2]
      exact nofun
  | succ n ih =>
    cases fuel with
    | zero => exact nofun
    | succ fuel =>
      obtain ⟨hgo,hfirst⟩ := hturn 0 (Nat.succ_pos n)
      rw [drawLoop,if_neg hgo,hfirst]
      exact @ih (fun k => path (k+1)) (fun k hk => hturn (k+1) (Nat.succ_lt_succ hk)) hover fuel

theorem distance_eq {a b : ℤ} (h : |b-a| < 2^31) : distance a b = some |b-a| := by
  unfold distance
  split_ifs with hlt
  · rw [abs_of_pos (by omega)] at h ⊢
    exact if_pos (by unfold IsInt; omega)
  · rw [abs_of_nonpos (by omega),neg_sub] at h ⊢
    exact if_pos (by unfold IsInt; omega)

theorem along_end (a b : ℤ) : a+sign a b*|b-a| = b := by
  unfold sign
  split_ifs with hlt
  · rw [abs_of_pos (by omega)]
    ring
  · rw [abs_of_nonpos (by omega)]
    ring

theorem along_distance {a b k : ℤ} (hk : k ≤ |b-a|) : |b-(a+sign a b*k)| = |b-a|-k := by
  have hend := along_end a b
  have hrest : b-(a+sign a b*k) = sign a b*(|b-a|-k) := by linear_combination -hend
  rw [hrest,abs_mul,abs_of_nonneg (by omega : 0 ≤ |b-a|-k)]
  unfold sign
  split_ifs <;> simp

theorem along_step (a b i j : ℤ) : |a+sign a b*j-(a+sign a b*i)| = |j-i| := by
  have hrest : a+sign a b*j-(a+sign a b*i) = sign a b*(j-i) := by ring
  rw [hrest,abs_mul]
  unfold sign
  split_ifs <;> simp

theorem place_penAt (x0 y0 x1 y1 k : ℤ) : place (penAt x0 y0 x1 y1 k) =
    (x0+sign x0 x1*(sides |x1-x0| |y1-y0| k).1,y0+sign y0 y1*(sides |x1-x0| |y1-y0| k).2) := by
  unfold penAt sides
  split_ifs
  · rfl
  · rfl

section Walk
variable {x0 y0 x1 y1 : ℤ} (h : Ends x0 y0 x1 y1)
include h

theorem fbSetup_eq : fbSetup x0 y0 x1 y1 = some (lineOf x0 y0 x1 y1,penAt x0 y0 x1 y1 0) := by
  have hlength := h.length
  have hD := abs_nonneg (x1-x0)
  have hE := abs_nonneg (y1-y0)
  have hdy : int32 (-|y1-y0|) = some (-|y1-y0|) := if_pos (by unfold IsInt; omega)
  have herr : int32 (|x1-x0|+-|y1-y0|) = some (|x1-x0|+-|y1-y0|) := if_pos (by unfold IsInt; omega)
  have hpen : penAt x0 y0 x1 y1 0 = ⟨x0,y0,|x1-x0|+-|y1-y0|⟩ := by
    have hplace := place_penAt x0 y0 x1 y1 0
    rw [sides_zero hD hE,mul_zero,mul_zero,add_zero,add_zero] at hplace
    refine Pen.ext (congrArg Prod.fst hplace) (congrArg Prod.snd hplace) ?_
    rw [← sub_eq_add_neg,← err_start hD hE,penAt]
    split_ifs
    · rfl
    · rfl
  rw [fbSetup,distance_eq (by omega),distance_eq (by omega)]
  simp only [Option.bind_eq_bind,Option.bind_some,hdy,herr,hpen]
  rfl

theorem turn_flat (hflat : |y1-y0| ≤ |x1-x0|) {k : ℤ} (h0 : 0 ≤ k) (hk : k < |x1-x0|)
    (hfits : err |x1-x0| |y1-y0| k < 2^30) :
    turn (lineOf x0 y0 x1 y1) (penAt x0 y0 x1 y1 k) = some (penAt x0 y0 x1 y1 (k+1)) := by
  have hD : 0 < |x1-x0| := h0.trans_lt hk
  have hE := abs_nonneg (y1-y0)
  have hlength := h.length
  obtain ⟨hlow,hhigh⟩ := err_bounds hD |y1-y0| k
  obtain ⟨hm0,hm⟩ := minor_mem hD hE (by omega : 0 ≤ k+1) hk
  have hx := isInt_between h.startX h.endX (by omega : 0 ≤ k+1) hk
  have hy := isInt_between h.startY h.endY hm0 hm
  rw [mul_add,mul_one,← add_assoc] at hx
  have hminor := minor_succ hD hE hflat k
  have herr := err_succ hD hE hflat k
  rw [penAt,if_pos hflat,penAt,if_pos hflat]
  by_cases hstep : 2*err |x1-x0| |y1-y0| k ≤ |x1-x0|
  · rw [if_pos hstep] at hminor herr
    rw [hminor,mul_add,mul_one,← add_assoc] at hy
    rw [hminor,herr,mul_add,mul_one,mul_add,mul_one,← add_assoc,← add_assoc,
      sub_eq_add_neg (err |x1-x0| |y1-y0| k)]
    refine turn_xy ?_ ?_ hstep ?_ hx ?_ hy
    all_goals simp only [lineOf,IsInt]
    all_goals omega
  · rw [if_neg hstep] at hminor herr
    rw [hminor,herr,add_zero,add_zero,mul_add,mul_one,← add_assoc,sub_eq_add_neg (err |x1-x0| |y1-y0| k)]
    refine turn_x ?_ ?_ (not_le.mp hstep) ?_ hx
    all_goals simp only [lineOf,IsInt]
    all_goals omega

theorem turn_steep (hsteep : |x1-x0| < |y1-y0|) {k : ℤ} (h0 : 0 ≤ k) (hk : k < |y1-y0|)
    (hfits : err |y1-y0| |x1-x0| k ≤ 2^30) :
    turn (lineOf x0 y0 x1 y1) (penAt x0 y0 x1 y1 k) = some (penAt x0 y0 x1 y1 (k+1)) := by
  have hE : 0 < |y1-y0| := h0.trans_lt hk
  have hD := abs_nonneg (x1-x0)
  have hlength := h.length
  obtain ⟨hlow,hhigh⟩ := err_bounds hE |x1-x0| k
  obtain ⟨hm0,hm⟩ := minor_mem hE hD (by omega : 0 ≤ k+1) hk
  have hx := isInt_between h.startX h.endX hm0 hm
  have hy := isInt_between h.startY h.endY (by omega : 0 ≤ k+1) hk
  rw [mul_add,mul_one,← add_assoc] at hy
  have hminor := minor_succ hE hD hsteep.le k
  have herr := err_succ hE hD hsteep.le k
  rw [penAt,if_neg (not_le.mpr hsteep),penAt,if_neg (not_le.mpr hsteep)]
  by_cases hstep : 2*err |y1-y0| |x1-x0| k ≤ |y1-y0|
  · rw [if_pos hstep] at hminor herr
    rw [hminor,mul_add,mul_one,← add_assoc] at hx
    have hneg : -(err |y1-y0| |x1-x0| k-|x1-x0|+|y1-y0|) = -err |y1-y0| |x1-x0| k+-|y1-y0|+|x1-x0| := by ring
    rw [hminor,herr,hneg,mul_add,mul_one,mul_add,mul_one,← add_assoc,← add_assoc]
    refine turn_xy ?_ ?_ ?_ ?_ hx ?_ hy
    all_goals simp only [lineOf,IsInt]
    all_goals omega
  · rw [if_neg hstep] at hminor herr
    have hneg : -(err |y1-y0| |x1-x0| k-|x1-x0|+0) = -err |y1-y0| |x1-x0| k+|x1-x0| := by ring
    rw [hminor,herr,hneg,add_zero,mul_add,mul_one,← add_assoc]
    refine turn_y ?_ ?_ ?_ ?_ hy
    all_goals simp only [lineOf,IsInt]
    all_goals omega

theorem turn_penAt {k : ℤ} (h0 : 0 ≤ k) (hk : k < max |x1-x0| |y1-y0|) (hfits : ErrFitsAt |x1-x0| |y1-y0| k) :
    turn (lineOf x0 y0 x1 y1) (penAt x0 y0 x1 y1 k) = some (penAt x0 y0 x1 y1 (k+1)) := by
  unfold ErrFitsAt at hfits
  rcases lt_or_ge |x1-x0| |y1-y0| with hsteep | hflat
  · rw [if_neg (not_le.mpr hsteep)] at hfits
    rw [max_eq_right hsteep.le] at hk
    exact turn_steep h hsteep h0 hk hfits
  · rw [if_pos hflat] at hfits
    rw [max_eq_left hflat] at hk
    exact turn_flat h hflat h0 hk hfits

omit h

theorem turn_penAt_overflow {k : ℤ} (hfits : ¬ ErrFitsAt |x1-x0| |y1-y0| k) :
    turn (lineOf x0 y0 x1 y1) (penAt x0 y0 x1 y1 k) = none := by
  apply turn_overflow
  unfold ErrFitsAt at hfits
  unfold penAt IsInt
  split_ifs at hfits ⊢
  · dsimp only
    omega
  · dsimp only
    omega

theorem atEnd_last : AtEnd (lineOf x0 y0 x1 y1) (penAt x0 y0 x1 y1 (max |x1-x0| |y1-y0|)) := by
  have hplace := place_penAt x0 y0 x1 y1 (max |x1-x0| |y1-y0|)
  rw [sides_last (abs_nonneg _) (abs_nonneg _),along_end,along_end] at hplace
  exact ⟨congrArg Prod.fst hplace,congrArg Prod.snd hplace⟩

theorem not_atEnd {k : ℤ} (h0 : 0 ≤ k) (hk : k < max |x1-x0| |y1-y0|) :
    ¬ AtEnd (lineOf x0 y0 x1 y1) (penAt x0 y0 x1 y1 k) := by
  rintro ⟨hx,hy⟩
  have hplace := place_penAt x0 y0 x1 y1 k
  obtain ⟨⟨-,hD⟩,-,hE⟩ := sides_mem (abs_nonneg (x1-x0)) (abs_nonneg (y1-y0)) h0 hk.le
  have hdx := along_distance (a := x0) hD
  have hdy := along_distance (a := y0) hE
  have hatX : x0+sign x0 x1*(sides |x1-x0| |y1-y0| k).1 = x1 := (congrArg Prod.fst hplace).symm.trans hx
  have hatY : y0+sign y0 y1*(sides |x1-x0| |y1-y0| k).2 = y1 := (congrArg Prod.snd hplace).symm.trans hy
  rw [hatX,sub_self,abs_zero] at hdx
  rw [hatY,sub_self,abs_zero] at hdy
  rcases lt_or_ge |x1-x0| |y1-y0| with hsteep | hflat
  · rw [sides_steep hsteep] at hdy
    dsimp only at hdy
    omega
  · rw [sides_flat hflat] at hdx
    dsimp only at hdx
    omega

theorem towards_succ {k : ℤ} (h0 : 0 ≤ k) (hk : k < max |x1-x0| |y1-y0|) :
    Towards x1 y1 (place (penAt x0 y0 x1 y1 k)) (place (penAt x0 y0 x1 y1 (k+1))) := by
  have hD := abs_nonneg (x1-x0)
  have hE := abs_nonneg (y1-y0)
  obtain ⟨hx,hy,hmoves⟩ := sides_succ hD hE h0 hk
  obtain ⟨⟨-,hx1⟩,-,hy1⟩ := sides_mem hD hE h0 hk.le
  obtain ⟨⟨-,hx2⟩,-,hy2⟩ := sides_mem hD hE (by omega : 0 ≤ k+1) hk
  rw [place_penAt,place_penAt]
  generalize sides |x1-x0| |y1-y0| k = p at hx hy hmoves hx1 hy1
  generalize sides |x1-x0| |y1-y0| (k+1) = q at hx hy hmoves hx2 hy2
  unfold Towards
  dsimp only
  rw [along_step,along_step,along_distance hx1,along_distance hx2,along_distance hy1,along_distance hy2,
    abs_of_nonneg (by omega : 0 ≤ q.1-p.1),abs_of_nonneg (by omega : 0 ≤ q.2-p.2)]
  refine ⟨fun heq => ?_,by omega,by omega,by omega,by omega⟩
  have hsameX := along_step x0 x1 p.1 q.1
  have hsameY := along_step y0 y1 p.2 q.2
  rw [← (Prod.mk.inj heq).1,sub_self,abs_zero] at hsameX
  rw [← (Prod.mk.inj heq).2,sub_self,abs_zero] at hsameY
  have hx0 := abs_eq_zero.mp hsameX.symm
  have hy0 := abs_eq_zero.mp hsameY.symm
  omega

def walk (x0 y0 x1 y1 : ℤ) : List (ℤ × ℤ) :=
  (List.range ((max |x1-x0| |y1-y0|).toNat+1)).map fun k : ℕ => place (penAt x0 y0 x1 y1 k)

theorem longer_toNat (x0 y0 x1 y1 : ℤ) : ((max |x1-x0| |y1-y0|).toNat : ℤ) = max |x1-x0| |y1-y0| :=
  Int.toNat_of_nonneg ((abs_nonneg _).trans (le_max_left _ _))

theorem walk_walksLine (x0 y0 x1 y1 : ℤ) : WalksLine x0 y0 x1 y1 (walk x0 y0 x1 y1) where
  length := by
    rw [walk,List.length_map,List.length_range,Nat.cast_add,longer_toNat]
    rfl
  first := by
    have hplace := place_penAt x0 y0 x1 y1 0
    rw [sides_zero (abs_nonneg _) (abs_nonneg _),mul_zero,mul_zero,add_zero,add_zero] at hplace
    rw [walk,List.range_succ_eq_map,List.map_cons,List.head?_cons]
    exact congrArg some hplace
  last := by
    have hend := @atEnd_last x0 y0 x1 y1
    rw [walk,List.range_succ,List.map_append,List.map_singleton,List.getLast?_concat,longer_toNat]
    exact congrArg some (Prod.ext hend.1 hend.2)
  steps := by
    rw [walk,List.isChain_map,List.isChain_range_succ]
    intro k hk
    have hlt := longer_toNat x0 y0 x1 y1
    exact_mod_cast towards_succ (k := (k : ℤ)) (by omega) (by omega)
  box := by
    intro p hp
    obtain ⟨k,hk,rfl⟩ := List.mem_map.mp hp
    have hlt := longer_toNat x0 y0 x1 y1
    have hrange := List.mem_range.mp hk
    obtain ⟨hx,hy⟩ := sides_mem (abs_nonneg (x1-x0)) (abs_nonneg (y1-y0)) (by omega : 0 ≤ (k : ℤ)) (by omega)
    rw [place_penAt]
    have hX := between hx.1 hx.2
    have hY := between hy.1 hy.2
    exact ⟨hX.1,hX.2,hY.1,hY.2⟩

theorem errFitsAt_of_errFits {D E k : ℤ} (hD : 0 ≤ D) (hE : 0 ≤ E) (hk : 0 ≤ k ∧ k < max D E) (h : ErrFits D E) :
    ErrFitsAt D E k := by
  unfold ErrFits at h
  unfold ErrFitsAt
  split_ifs at h ⊢ with hflat
  · have hle := err_le (by omega : 0 < D) E k
    omega
  · have hle := err_le (by omega : 0 < E) D k
    omega

theorem exists_not_errFitsAt {D E : ℤ} (hD : 0 ≤ D) (hE : 0 ≤ E) (h : ¬ ErrFits D E) :
    ∃ k : ℕ, (k : ℤ) < max D E ∧ ¬ ErrFitsAt D E k := by
  unfold ErrFits at h
  unfold ErrFitsAt
  split_ifs at h ⊢ with hflat
  · have hpos : 0 < D := by
      by_contra hzero
      obtain rfl : D = 0 := by omega
      obtain rfl : E = 0 := by omega
      exact h (by decide)
    obtain ⟨k,h0,hk,hmax⟩ := exists_maxErr hpos E
    lift k to ℕ using h0
    exact ⟨k,hk.trans_le (le_max_left D E),hmax ▸ h⟩
  · obtain ⟨k,h0,hk,hmax⟩ := exists_maxErr (by omega : 0 < E) D
    lift k to ℕ using h0
    exact ⟨k,hk.trans_le (le_max_right D E),hmax ▸ h⟩

theorem fbDrawLine_walk (h : Ends x0 y0 x1 y1) (hfits : ErrFits |x1-x0| |y1-y0|) :
    fbDrawLine true ((max |x1-x0| |y1-y0|).toNat+1) x0 y0 x1 y1 = (walk x0 y0 x1 y1,.returned) := by
  have hlonger := longer_toNat x0 y0 x1 y1
  rw [fbDrawLine,fbSetup_eq h]
  refine @drawLoop_path _ _ (fun k : ℕ => penAt x0 y0 x1 y1 k) (fun k hk => ?_) ?_
  · have hlt : (k : ℤ) < max |x1-x0| |y1-y0| := by omega
    have hat := errFitsAt_of_errFits (abs_nonneg _) (abs_nonneg _) ⟨Int.natCast_nonneg k,hlt⟩ hfits
    exact ⟨not_atEnd (Int.natCast_nonneg k) hlt,turn_penAt h (Int.natCast_nonneg k) hlt hat⟩
  · rw [hlonger]
    exact atEnd_last

theorem not_drawsLine (h : Ends x0 y0 x1 y1) (hfits : ¬ ErrFits |x1-x0| |y1-y0|) : ¬ DrawsLine x0 y0 x1 y1 := by
  rintro ⟨fuel,hreturned,-⟩
  have hexists := exists_not_errFitsAt (abs_nonneg _) (abs_nonneg _) hfits
  -- the first turn at which the error term does not fit
  classical
  obtain ⟨hlt,hover⟩ := Nat.find_spec hexists
  rw [fbDrawLine,fbSetup_eq h] at hreturned
  refine @drawLoop_overflow _ _ (fun k : ℕ => penAt x0 y0 x1 y1 k) (fun k hk => ?_)
    ⟨not_atEnd (Int.natCast_nonneg _) hlt,turn_penAt_overflow hover⟩ fuel hreturned
  have hklt : (k : ℤ) < max |x1-x0| |y1-y0| := by omega
  have hat : ErrFitsAt |x1-x0| |y1-y0| k := by
    by_contra hnot
    exact Nat.find_min hexists hk ⟨hklt,hnot⟩
  exact ⟨not_atEnd (Int.natCast_nonneg k) hklt,turn_penAt h (Int.natCast_nonneg k) hklt hat⟩

/-- The drawer walks a line of less than 2^30 points from its one end to the other just if
the error term, doubled, stays within `int`. -/
theorem fbDrawLine_iff (h : Ends x0 y0 x1 y1) : DrawsLine x0 y0 x1 y1 ↔ ErrFits |x1-x0| |y1-y0| := by
  constructor
  · intro hdraws
    by_contra hfits
    exact not_drawsLine h hfits hdraws
  · intro hfits
    have hwalk := fbDrawLine_walk h hfits
    refine ⟨_,by rw [hwalk],?_⟩
    rw [hwalk]
    exact walk_walksLine x0 y0 x1 y1

end Walk

theorem fbDrawLine_demo : DrawsLine 7 (-2) 2 6 :=
  (fbDrawLine_iff ⟨by decide,by decide,by decide,by decide,by decide⟩).mpr (by unfold ErrFits; decide)

/-- A line that is long and nearly level: the error term grows to half as much again. -/
theorem long_line_overflows : ¬ DrawsLine 0 0 1073741822 1 :=
  not_drawsLine ⟨by decide,by decide,by decide,by decide,by decide⟩ (by unfold ErrFits; decide)

end FramebufferLine
end ValiantCore
