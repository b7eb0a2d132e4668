import ValiantCore.FramebufferLine

/-! The circles of `drivers/framebuffer.c` and `arch/aarch64/framebuffer64.c`, which share one
loop. Both increments of its error term are computed from coordinates that have already been
changed, so the term runs ahead of `x*x+y*y-r*r` by twice `y+r-x`. -/
namespace ValiantCore
namespace FramebufferCircle

open FramebufferLine (Pen IsInt Outcome)

def octants (cx cy : ℤ) (p : Pen) : List (ℤ × ℤ) :=
  [(cx+p.x,cy+p.y),(cx+p.y,cy+p.x),(cx-p.y,cy+p.x),(cx-p.x,cy+p.y),
    (cx-p.x,cy-p.y),(cx-p.y,cy-p.x),(cx+p.y,cy-p.x),(cx+p.x,cy-p.y)]

def turn (p : Pen) : Pen :=
  let y := p.y+1
  let err := p.err+(1+2*y)
  if 2*(err-p.x)+1 > 0 then ⟨p.x-1,y,err+(1-2*(p.x-1))⟩ else ⟨p.x,y,err⟩

def circleLoop (cx cy : ℤ) : ℕ → Pen → List (ℤ × ℤ) × Outcome
  | 0, _ => ([],.running)
  | n+1, p =>
    if p.x ≥ p.y then
      let r := circleLoop cx cy n (turn p)
      (octants cx cy p++r.1,r.2)
    else ([],.returned)

def fbDrawCircle (ready : Bool) (fuel : ℕ) (cx cy r : ℤ) : List (ℤ × ℤ) × Outcome :=
  if ready then circleLoop cx cy fuel ⟨r,0,0⟩ else ([],.returned)

/-- The same loop, for the other screen. -/
def fb64DrawCircle (ready : Bool) (fuel : ℕ) (cx cy r : ℤ) : List (ℤ × ℤ) × Outcome :=
  if ready then circleLoop cx cy fuel ⟨r,0,0⟩ else ([],.returned)

/-- An offset that is within a pixel of the circle. -/
def Near (r x y : ℤ) : Prop := (r-1)^2 ≤ x^2+y^2 ∧ x^2+y^2 ≤ (r+1)^2

instance (r x y : ℤ) : Decidable (Near r x y) := inferInstanceAs (Decidable (_ ∧ _))

/-- All the pixels that are plotted around the centre are. -/
def Accurate (cx cy r : ℤ) (points : List (ℤ × ℤ)) : Prop := ∀ p ∈ points, Near r (p.1-cx) (p.2-cy)

def accurateRadii : List ℤ := [1,2,3,4,5,6,7,8,10,12,13,15,17,20,22,25,27,30,32,37,42]

/-- The pens with which pixels are plotted. -/
inductive Plotted (r : ℤ) : Pen → Prop
  | start (h : 0 ≤ r) : Plotted r ⟨r,0,0⟩
  | next {p : Pen} (hp : Plotted r p) (h : (turn p).x ≥ (turn p).y) : Plotted r (turn p)

def pens : ℕ → Pen → List Pen
  | 0, _ => []
  | n+1, p => if p.x ≥ p.y then p::pens n (turn p) else []

theorem circleLoop_fst (cx cy : ℤ) (n : ℕ) (p : Pen) :
    (circleLoop cx cy n p).1 = (pens n p).flatMap (octants cx cy) := by
  induction n generalizing p with
  | zero => rfl
  | succ n ih =>
    rw [circleLoop,pens]
    split_ifs
    · rw [List.flatMap_cons,← ih]
    · rfl

theorem octants_near {cx cy r : ℤ} {p : Pen} : Accurate cx cy r (octants cx cy p) ↔ Near r p.x p.y := by
  have hswap : p.y^2+p.x^2 = p.x^2+p.y^2 := add_comm _ _
  simp [Accurate,octants,Near,hswap]

section Turn
variable {r : ℤ} {p : Pen}

theorem turn_eq (p : Pen) : turn p = if p.err+2*p.y+3 ≥ p.x then ⟨p.x-1,p.y+1,p.err+2*p.y+6-2*p.x⟩
    else ⟨p.x,p.y+1,p.err+2*p.y+3⟩ := by
  unfold turn
  dsimp only
  split_ifs
  · congr 1
    ring
  · omega
  · omega
  · congr 1
    ring

/-- The error term of a plotted pen. Before the last octant it is less than `x`. -/
structure Follows (r : ℤ) (p : Pen) : Prop where
  inside : 0 ≤ p.y ∧ p.y ≤ p.x ∧ p.x ≤ r
  err : p.err = p.x^2+p.y^2-r^2+2*(p.y+r-p.x)
  small : 2 ≤ p.x-p.y → p.err < p.x

theorem follows_turn (h : Follows r p) (hplot : (turn p).x ≥ (turn p).y) : Follows r (turn p) := by
  obtain ⟨⟨h0,hyx,hxr⟩,herr,hsmall⟩ := h
  rw [turn_eq] at hplot ⊢
  split_ifs at hplot ⊢ with hstep
  · dsimp only at hplot
    refine ⟨⟨by dsimp only; omega,hplot,by dsimp only; omega⟩,?_,fun hgap => ?_⟩
    · dsimp only
      rw [herr]
      ring
    · dsimp only at hgap ⊢
      have hbefore := hsmall (by omega)
      omega
  · dsimp only at hplot
    refine ⟨⟨by dsimp only; omega,hplot,hxr⟩,?_,fun hgap => ?_⟩
    · dsimp only
      rw [herr]
      ring
    · dsimp only
      omega

theorem Plotted.follows (hp : Plotted r p) : Follows r p := by
  induction hp with
  | start h =>
    refine ⟨⟨le_rfl,h,le_rfl⟩,?_,fun hgap => ?_⟩
    · dsimp only
      ring
    · dsimp only at hgap ⊢
      omega
  | next hp h ih => exact follows_turn ih h

theorem turn_isInt (hp : Plotted r p) (hr : r < 2^14) :
    IsInt (p.err+(1+2*(p.y+1))) ∧ IsInt (2*(p.err+(1+2*(p.y+1))-p.x)+1) ∧ IsInt (turn p).err := by
  obtain ⟨⟨h0,hyx,hxr⟩,herr,_⟩ := hp.follows
  have hx2 : p.x^2 ≤ r^2 := pow_le_pow_left₀ (by omega) hxr 2
  have hy2 : p.y^2 ≤ p.x^2 := pow_le_pow_left₀ h0 hyx 2
  have hr2 : r^2 ≤ (2^14)^2 := pow_le_pow_left₀ (by omega) hr.le 2
  have hy0 : 0 ≤ p.y^2 := sq_nonneg p.y
  have hx0 : 0 ≤ p.x^2 := sq_nonneg p.x
  have hlow : -(2^14)^2 ≤ p.err := by omega
  have hhigh : p.err ≤ (2^14)^2+2^16 := by omega
  rw [turn_eq]
  unfold IsInt
  split_ifs <;> dsimp only <;> omega

end Turn

section Run
variable {r : ℤ} {p q : Pen}

theorem turn_y (p : Pen) : (turn p).y = p.y+1 := by
  rw [turn_eq]
  split_ifs <;> rfl

theorem turn_x (p : Pen) : (turn p).x = p.x ∨ (turn p).x = p.x-1 := by
  rw [turn_eq]
  split_ifs
  · exact .inr rfl
  · exact .inl rfl

theorem circleLoop_returns (cx cy : ℤ) (n : ℕ) (p : Pen) (h : p.x-p.y < n) :
    (circleLoop cx cy (n+1) p).2 = .returned := by
  induction n generalizing p with
  | zero =>
    rw [circleLoop,if_neg (by omega)]
  | succ n ih =>
    rw [circleLoop]
    split_ifs
    · have hy := turn_y p
      have hx := turn_x p
      exact ih (turn p) (by omega)
    · rfl

theorem fbDrawCircle_returns (ready : Bool) (cx cy r : ℤ) :
    (fbDrawCircle ready (r.toNat+2) cx cy r).2 = .returned := by
  unfold fbDrawCircle
  split_ifs
  · exact circleLoop_returns cx cy (r.toNat+1) ⟨r,0,0⟩ (by dsimp only; omega)
  · rfl

theorem plotted_of_mem_pens {n : ℕ} (hstart : q.x ≥ q.y → Plotted r q) (hp : p ∈ pens n q) :
    Plotted r p := by
  induction n generalizing q with
  | zero => exact absurd hp List.not_mem_nil
  | succ n ih =>
    rw [pens] at hp
    split_ifs at hp with hxy
    · cases hp with
      | head => exact hstart hxy
      | tail _ hp => exact ih (fun hturn => (hstart hxy).next hturn) hp
    · exact absurd hp List.not_mem_nil

theorem Plotted.pens_subset (hp : Plotted r p) (n : ℕ) : pens n p ⊆ pens (p.y.toNat+n) ⟨r,0,0⟩ := by
  induction hp generalizing n with
  | start h => exact fun q hq => by simpa using hq
  | @next p hp h ih =>
    have hin := hp.follows.inside
    have hcount : (turn p).y.toNat+n = p.y.toNat+(n+1) := by
      rw [turn_y]
      omega
    rw [hcount]
    refine List.Subset.trans ?_ (ih (n+1))
    rw [pens,if_pos (by omega)]
    exact List.subset_cons_self _ _

theorem Plotted.mem_pens (hp : Plotted r p) : p ∈ pens (r.toNat+1) ⟨r,0,0⟩ := by
  have hin := hp.follows.inside
  obtain ⟨n,hn⟩ : ∃ n : ℕ, r.toNat = p.y.toNat+n := ⟨r.toNat-p.y.toNat,by omega⟩
  have hhead : p ∈ pens (n+1) p := by
    rw [pens,if_pos (by omega)]
    exact List.mem_cons_self
  rw [hn,add_assoc]
  exact hp.pens_subset (n+1) hhead

theorem accurate_circleLoop (cx cy : ℤ) (h : 0 ≤ r) :
    (∀ fuel, Accurate cx cy r (circleLoop cx cy fuel ⟨r,0,0⟩).1) ↔
      ∀ p, Plotted r p → Near r p.x p.y := by
  constructor
  · intro hall p hp
    refine octants_near.mp fun point hpoint => hall (r.toNat+1) point ?_
    rw [circleLoop_fst]
    exact List.mem_flatMap.mpr ⟨p,hp.mem_pens,hpoint⟩
  · intro hnear fuel point hpoint
    rw [circleLoop_fst] at hpoint
    obtain ⟨p,hp,hoctant⟩ := List.mem_flatMap.mp hpoint
    exact octants_near.mpr (hnear p (plotted_of_mem_pens (fun _ => .start h) hp)) point hoctant

end Run

/-! No circle of a larger radius is accurate. Behind the line `3*x = 4*y` the error term lets
`x` go down in every turn, and the diagonal that is drawn so leads too far inside. -/
section Large
variable {r : ℤ} {p : Pen}

theorem steps_down (hp : Plotted r p) (hin : (r-1)^2 ≤ p.x^2+p.y^2) (hlow : 3*p.x ≤ 4*p.y+4) :
    (turn p).x = p.x-1 := by
  have herr := hp.follows.err
  have hsquare : (r-1)^2 = r^2-2*r+1 := by ring
  rw [turn_eq,if_pos (by omega)]

theorem exists_low (hp : Plotted r p) (h : 4*p.y-2 ≤ 3*p.x) :
    ∃ q, Plotted r q ∧ 4*q.y-2 ≤ 3*q.x ∧ 3*q.x ≤ 4*q.y+4 := by
  obtain ⟨n,hn⟩ : ∃ n : ℕ, p.x-p.y ≤ n := ⟨(p.x-p.y).toNat,by omega⟩
  induction n generalizing p with
  | zero =>
    have hin := hp.follows.inside
    exact ⟨p,hp,h,by omega⟩
  | succ n ih =>
    by_cases hlow : 3*p.x ≤ 4*p.y+4
    · exact ⟨p,hp,h,hlow⟩
    · have hin := hp.follows.inside
      have hy := turn_y p
      have hx := turn_x p
      exact ih (hp.next (by omega)) (by omega) (by omega)

theorem diagonal (hall : ∀ q, Plotted r q → (r-1)^2 ≤ q.x^2+q.y^2) (hp : Plotted r p)
    (hlow : 3*p.x ≤ 4*p.y+4) (j : ℕ) (hj : 2*j ≤ p.x-p.y) :
    ∃ q, Plotted r q ∧ q.x = p.x-j ∧ q.y = p.y+j := by
  induction j with
  | zero => exact ⟨p,hp,by simp,by simp⟩
  | succ j ih =>
    obtain ⟨q,hq,hqx,hqy⟩ := ih (by omega)
    have hx := steps_down hq (hall q hq) (by omega)
    have hy := turn_y q
    exact ⟨turn q,hq.next (by omega),by omega,by omega⟩

theorem low_y_le (hall : ∀ q, Plotted r q → (r-1)^2 ≤ q.x^2+q.y^2) (hp : Plotted r p)
    (hhigh : 4*p.y-2 ≤ 3*p.x) (hlow : 3*p.x ≤ 4*p.y+4) : p.y ≤ 41 := by
  have hfollows := hp.follows
  by_cases hgap : 2 ≤ p.x-p.y
  · obtain ⟨j,hj⟩ : ∃ j : ℕ, (p.x-p.y)/2 = j := ⟨((p.x-p.y)/2).toNat,by omega⟩
    obtain ⟨q,hq,hqx,hqy⟩ := diagonal hall hp hlow j (by omega)
    have hinside := hall q hq
    have herr := hfollows.err
    have hsmall := hfollows.small hgap
    rw [hqx,hqy] at hinside
    have hdrop : (j:ℤ)*(p.x-p.y-j) ≤ p.y+1 := by linarith
    have hwidth : (j:ℤ)*j ≤ j*(p.x-p.y-j) := mul_le_mul_of_nonneg_left (by omega) (by omega)
    have hshort : (j:ℤ) ≤ 6 := by
      by_contra hlong
      have hseven : 7*(j:ℤ) ≤ j*j := mul_le_mul_of_nonneg_right (by omega) (by omega)
      omega
    omega
  · omega

theorem radius_le (hr : 1 ≤ r) (hall : ∀ p, Plotted r p → (r-1)^2 ≤ p.x^2+p.y^2) : r ≤ 70 := by
  obtain ⟨p,hp,hhigh,hlow⟩ := exists_low (.start (show 0 ≤ r by omega)) (by dsimp only; omega)
  have hy := low_y_le hall hp hhigh hlow
  have hin := hp.follows.inside
  have hinside := hall p hp
  have hx : p.x ≤ 56 := by omega
  nlinarith

end Large

theorem small_radii : ∀ r ∈ List.range 71, 1 ≤ r →
    ((∀ p ∈ pens (r+1) ⟨r,0,0⟩, Near r p.x p.y) ↔ (r:ℤ) ∈ accurateRadii) := by decide +kernel

theorem accurateRadii_le {r : ℤ} (h : r ∈ accurateRadii) : r ≤ 70 := by
  have hall : ∀ r ∈ accurateRadii, r ≤ 70 := by decide
  exact hall r h

theorem near_iff_accurateRadii {r : ℤ} (hr : 1 ≤ r) :
    (∀ p, Plotted r p → Near r p.x p.y) ↔ r ∈ accurateRadii := by
  by_cases hle : r ≤ 70
  · obtain ⟨n,rfl⟩ : ∃ n : ℕ, r = n := ⟨r.toNat,by omega⟩
    rw [← small_radii n (List.mem_range.mpr (by omega)) (by omega)]
    constructor
    · intro hnear p hp
      exact hnear p (plotted_of_mem_pens (fun _ => .start (by omega)) hp)
    · intro hnear p hp
      exact hnear p (by simpa using hp.mem_pens)
  · constructor
    · intro hnear
      exact absurd (radius_le hr fun p hp => (hnear p hp).1) hle
    · intro hmem
      exact absurd (accurateRadii_le hmem) hle

/-- Of the circles that fit a screen, these are accurate to a pixel. -/
theorem circles_accurate_iff (cx cy r : ℤ) (hr : 1 ≤ r ∧ r < 2^14) :
    ((∀ fuel, Accurate cx cy r (fbDrawCircle true fuel cx cy r).1) ∧
      ∀ fuel, Accurate cx cy r (fb64DrawCircle true fuel cx cy r).1) ↔ r ∈ accurateRadii := by
  have hloop := accurate_circleLoop cx cy (show 0 ≤ r by omega)
  rw [near_iff_accurateRadii hr.1] at hloop
  exact ⟨fun h => hloop.mp h.1,fun h => ⟨hloop.mpr h,hloop.mpr h⟩⟩

theorem circles_accurate_demo : Accurate 100 100 42 (fbDrawCircle true 44 100 100 42).1 ∧
    Accurate 100 100 42 (fb64DrawCircle true 44 100 100 42).1 := by
  obtain ⟨hfb,hfb64⟩ := (circles_accurate_iff 100 100 42 (by decide)).mpr (by decide)
  exact ⟨hfb 44,hfb64 44⟩

/-- The circle of radius 9 passes two pixels inside at (6,5). -/
theorem ninth_circle_off : ¬ Accurate 100 100 9 (fbDrawCircle true 11 100 100 9).1 ∧
    ¬ Accurate 100 100 9 (fb64DrawCircle true 11 100 100 9).1 := by
  have hoff : ¬ Near 9 (106-100) (105-100) := by decide
  exact ⟨fun h => hoff (h (106,105) (by decide)),fun h => hoff (h (106,105) (by decide))⟩

end FramebufferCircle
end ValiantCore
