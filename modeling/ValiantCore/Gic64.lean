import ValiantCore.PriorityService
import ValiantCore.Timer64
import ValiantCore.Slots
import Mathlib.Data.List.Sort
import Mathlib.Data.List.TakeWhile
import Mathlib.Data.Nat.Bitwise

/-! `arch/aarch64/gic64.c` and `irq_handler64.c` beside the interrupt controller that they drive:
a distributor with a register file for 1020 interrupts, and the interface of one processor. A
request is an edge, and no software interrupts of other processors are among them. -/
namespace ValiantCore
namespace Gic64

structure Gic where
  distributor : Bool
  interface : Bool
  mask : ℕ
  enabled : ℕ → Bool
  priority : ℕ → ℕ
  target : ℕ → ℕ
  pending : ℕ → Bool
  active : List ℕ

def gicDistBase : ℕ := 0x08000000
def gicCpuBase : ℕ := 0x08010000
def gicdCtlr : ℕ := 0x000
def gicdIsenabler : ℕ := 0x100
def gicdIpriorityr : ℕ := 0x400
def gicdItargetsr : ℕ := 0x800
def giccCtrl : ℕ := 0x00
def giccPwr : ℕ := 0x004
def giccIar : ℕ := 0x00C
def giccEoir : ℕ := 0x010
def maxIrqs : ℕ := 1020
def spurious : ℕ := 1023

/-- The interrupts, those of the lowest priority number first. -/
def order (priority : ℕ → ℕ) : List ℕ :=
  (List.range maxIrqs).mergeSort fun i j => priority i < priority j ∨ (priority i = priority j ∧ i ≤ j)

namespace Gic

/-- An interrupt is forwarded to the first processor when it is enabled and more urgent than
the mask; those from 32 on also have to be directed to it. -/
def forwards (g : Gic) (i : ℕ) : Bool :=
  g.enabled i && decide (g.priority i < g.mask) && (decide (i < 32) || (g.target i).testBit 0)

/-- The interrupt that the processor is asked to take: nothing that is not more urgent than
all that it has not ended. -/
def request (g : Gic) : Option ℕ :=
  if g.distributor && g.interface then
    (order g.priority).find? fun i =>
      g.pending i && g.forwards i && g.active.all fun a => decide (g.priority i < g.priority a)
  else none

def mmioWrite32 (g : Gic) (addr val : ℕ) : Gic :=
  if addr = gicDistBase+gicdCtlr then { g with distributor := val.testBit 0 }
  else if gicDistBase+gicdIsenabler ≤ addr ∧ addr < gicDistBase+gicdIsenabler+0x80 then
    { g with enabled := fun i =>
        g.enabled i || decide (gicDistBase+gicdIsenabler+i/32*4 = addr) && val.testBit (i%32) }
  else if addr = gicCpuBase+giccCtrl then { g with interface := val.testBit 0 }
  else if addr = gicCpuBase+giccPwr then { g with mask := val%256 }
  else if addr = gicCpuBase+giccEoir then { g with active := g.active.erase (val%1024) }
  else g

/-- Both register files can be written byte by byte. -/
def mmioWrite8 (g : Gic) (addr val : ℕ) : Gic :=
  if gicDistBase+gicdIpriorityr ≤ addr ∧ addr < gicDistBase+gicdIpriorityr+0x400 then
    { g with priority := Function.update g.priority (addr-(gicDistBase+gicdIpriorityr)) (val%256) }
  else if gicDistBase+gicdItargetsr ≤ addr ∧ addr < gicDistBase+gicdItargetsr+0x400 then
    { g with target := Function.update g.target (addr-(gicDistBase+gicdItargetsr)) (val%256) }
  else g

/-- A read of the acknowledge register takes the request. -/
def mmioRead32 (g : Gic) (addr : ℕ) : Gic × ℕ :=
  if addr = gicCpuBase+giccIar then
    match g.request with
    | none => (g,spurious)
    | some i => ({ g with pending := Function.update g.pending i false, active := i::g.active },i)
  else (g,0)

end Gic

def gicInit (g : Gic) : Gic :=
  let g := g.mmioWrite32 (gicDistBase+gicdCtlr) 0x01
  let g := g.mmioWrite32 (gicCpuBase+giccCtrl) 0x01
  g.mmioWrite32 (gicCpuBase+giccPwr) 0xFF

def gicEnableIrq (g : Gic) (irq : ℕ) : Gic :=
  if irq ≥ maxIrqs then g
  else g.mmioWrite32 (gicDistBase+gicdIsenabler+irq/32*4) (1 <<< (irq%32))

def gicSetPriority (g : Gic) (irq priority : ℕ) : Gic :=
  if irq ≥ maxIrqs then g else g.mmioWrite8 (gicDistBase+gicdIpriorityr+irq) priority

def gicSetTarget (g : Gic) (irq cpuMask : ℕ) : Gic :=
  if irq ≥ maxIrqs then g else g.mmioWrite8 (gicDistBase+gicdItargetsr+irq) cpuMask

def gicAcknowledge (g : Gic) : Gic × ℕ :=
  let r := g.mmioRead32 (gicCpuBase+giccIar)
  (r.1,r.2 &&& 0x3FF)

def gicEndOfInterrupt (g : Gic) (irq : ℕ) : Gic := g.mmioWrite32 (gicCpuBase+giccEoir) irq

section Registers
variable {g : Gic} {irq : ℕ}

theorem gicInit_eq (g : Gic) : gicInit g = { g with distributor := true, interface := true, mask := 0xFF } := by
  simp only [gicInit,Gic.mmioWrite32,gicDistBase,gicdCtlr,gicCpuBase,giccCtrl,giccPwr,gicdIsenabler]
  rfl

theorem one_shiftLeft_testBit (k n : ℕ) : (1 <<< k).testBit n = decide (n = k) := by
  rw [Nat.one_shiftLeft,Nat.testBit_two_pow]
  simp [eq_comm]

theorem gicEnableIrq_eq (h : irq < maxIrqs) :
    gicEnableIrq g irq = { g with enabled := Function.update g.enabled irq true } := by
  unfold maxIrqs at h
  have hword : ∀ i, gicDistBase+gicdIsenabler+i/32*4 = gicDistBase+gicdIsenabler+irq/32*4 ∧ i%32 = irq%32 ↔
      i = irq := fun i => by omega
  rw [gicEnableIrq,if_neg (by unfold maxIrqs; omega),Gic.mmioWrite32,
    if_neg (by unfold gicdCtlr gicdIsenabler; omega),if_pos (by omega)]
  congr 1
  funext i
  rw [one_shiftLeft_testBit,← Bool.decide_and]
  by_cases hi : i = irq
  · subst hi
    simp
  · rw [Function.update_of_ne hi,decide_eq_false (fun hw => hi ((hword i).mp hw)),Bool.or_false]

theorem gicSetPriority_eq (h : irq < maxIrqs) (priority : ℕ) : gicSetPriority g irq priority =
    { g with priority := Function.update g.priority irq (priority%256) } := by
  unfold maxIrqs at h
  rw [gicSetPriority,if_neg (by unfold maxIrqs; omega),Gic.mmioWrite8,if_pos (by omega),Nat.add_sub_cancel_left]

theorem gicSetTarget_eq (h : irq < maxIrqs) (cpuMask : ℕ) : gicSetTarget g irq cpuMask =
    { g with target := Function.update g.target irq (cpuMask%256) } := by
  unfold maxIrqs at h
  rw [gicSetTarget,if_neg (by unfold maxIrqs; omega),Gic.mmioWrite8,
    if_neg (by unfold gicdIpriorityr gicdItargetsr; omega),if_pos (by omega),Nat.add_sub_cancel_left]

theorem mem_order {priority : ℕ → ℕ} {i : ℕ} : i ∈ order priority ↔ i < maxIrqs := by
  rw [order,List.mem_mergeSort,List.mem_range]

theorem order_nodup (priority : ℕ → ℕ) : (order priority).Nodup :=
  (List.mergeSort_perm _ _).nodup_iff.mpr List.nodup_range

theorem gicAcknowledge_none (h : g.request = none) : gicAcknowledge g = (g,spurious) := by
  have hlow : spurious &&& 0x3FF = spurious := by decide
  rw [gicAcknowledge,Gic.mmioRead32,if_pos rfl,h]
  dsimp only
  rw [hlow]

theorem gicAcknowledge_some {i : ℕ} (h : g.request = some i) : i < maxIrqs ∧ gicAcknowledge g =
    ({ g with pending := Function.update g.pending i false, active := i::g.active },i) := by
  have hi : i < maxIrqs := by
    unfold Gic.request at h
    split at h
    · exact mem_order.mp (List.mem_of_find?_eq_some h)
    · cases h
  have hlow : i &&& 0x3FF = i := by
    have hmod : i &&& 0x3FF = i%1024 := Nat.and_two_pow_sub_one_eq_mod i 10
    rw [hmod]
    unfold maxIrqs at hi
    omega
  rw [gicAcknowledge,Gic.mmioRead32,if_pos rfl,h]
  exact ⟨hi,by rw [hlow]⟩

theorem gicEndOfInterrupt_eq (h : irq < maxIrqs) :
    gicEndOfInterrupt g irq = { g with active := g.active.erase irq } := by
  unfold maxIrqs at h
  have hmod : irq%1024 = irq := Nat.mod_eq_of_lt (by omega)
  simp only [gicEndOfInterrupt,Gic.mmioWrite32,gicDistBase,gicdCtlr,gicdIsenabler,gicCpuBase,giccEoir,
    giccCtrl,giccPwr,hmod]
  rfl

end Registers

inductive Setting
  | enable (irq : ℕ)
  | priority (irq priority : ℕ)
  | target (irq cpuMask : ℕ)
  deriving DecidableEq, Repr

def setting (g : Gic) : Setting → Gic
  | .enable irq => gicEnableIrq g irq
  | .priority irq p => gicSetPriority g irq p
  | .target irq m => gicSetTarget g irq m

def settings (g : Gic) (cs : List Setting) : Gic := cs.foldl setting g

/-- The interrupts that the calls enable, and the bytes that they give to one of them. -/
def enables (cs : List Setting) : List ℕ := cs.filterMap fun c => match c with
  | .enable irq => some irq
  | _ => none

def priorities (cs : List Setting) : List (ℕ × ℕ) := cs.filterMap fun c => match c with
  | .priority irq p => some (irq,p%256)
  | _ => none

def targets (cs : List Setting) : List (ℕ × ℕ) := cs.filterMap fun c => match c with
  | .target irq m => some (irq,m%256)
  | _ => none

section Settings
variable (g : Gic)

/-- A call for a number that the distributor does not have is ignored. -/
theorem gicEnableIrq_total (irq : ℕ) : gicEnableIrq g irq = { g with
    enabled := if irq < maxIrqs then Function.update g.enabled irq true else g.enabled } := by
  split_ifs with hirq
  · exact gicEnableIrq_eq hirq
  · exact if_pos (Nat.le_of_not_lt hirq)

theorem gicSetPriority_total (irq p : ℕ) : gicSetPriority g irq p = { g with
    priority := if irq < maxIrqs then Function.update g.priority irq (p%256) else g.priority } := by
  split_ifs with hirq
  · exact gicSetPriority_eq hirq p
  · exact if_pos (Nat.le_of_not_lt hirq)

theorem gicSetTarget_total (irq m : ℕ) : gicSetTarget g irq m = { g with
    target := if irq < maxIrqs then Function.update g.target irq (m%256) else g.target } := by
  split_ifs with hirq
  · exact gicSetTarget_eq hirq m
  · exact if_pos (Nat.le_of_not_lt hirq)

theorem written_eq (r : ℕ → ℕ) (irq n : ℕ) : (if irq < maxIrqs then Function.update r irq n else r) = fun i =>
    if i < maxIrqs then ((Slots.lastWrite Prod.fst [(irq,n)] i).map Prod.snd).getD (r i) else r i := by
  funext i
  by_cases hi : irq = i
  · subst hi
    split_ifs <;> simp [Slots.lastWrite]
  · split_ifs <;> simp [Slots.lastWrite,hi,Ne.symm hi]

theorem setting_eq (c : Setting) : setting g c = { g with
    enabled := fun i => g.enabled i || decide (i < maxIrqs ∧ i ∈ enables [c])
    priority := fun i =>
      if i < maxIrqs then ((Slots.lastWrite Prod.fst (priorities [c]) i).map Prod.snd).getD (g.priority i)
      else g.priority i
    target := fun i =>
      if i < maxIrqs then ((Slots.lastWrite Prod.fst (targets [c]) i).map Prod.snd).getD (g.target i)
      else g.target i } := by
  have hnone : ∀ r : ℕ → ℕ, r = fun i =>
      if i < maxIrqs then ((Slots.lastWrite Prod.fst ([] : List (ℕ × ℕ)) i).map Prod.snd).getD (r i) else r i :=
    fun r => funext fun i => (ite_self (r i)).symm
  cases c with
  | enable irq =>
    rw [setting,gicEnableIrq_total]
    congr 1
    · funext i
      by_cases hirq : irq < maxIrqs <;> by_cases hi : i = irq <;> simp [enables,hi,hirq]
    · exact hnone _
    · exact hnone _
  | priority irq p =>
    rw [setting,gicSetPriority_total]
    congr 1
    · simp [enables]
    · exact written_eq _ irq _
    · exact hnone _
  | target irq m =>
    rw [setting,gicSetTarget_total]
    congr 1
    · simp [enables]
    · exact hnone _
    · exact written_eq _ irq _

theorem setting_rest (c : Setting) : setting g c = { g with
    enabled := (setting g c).enabled
    priority := (setting g c).priority
    target := (setting g c).target } := by
  rw [setting_eq]

/-- An interrupt is enabled just if a call has enabled it, or it was; its priority and its
target are those of the last calls for it, or what they were. -/
theorem settings_spec (cs : List Setting) (i : ℕ) (h : i < maxIrqs) :
    (settings g cs).enabled i = (g.enabled i || decide (i ∈ enables cs)) ∧
    (settings g cs).priority i =
      ((Slots.lastWrite Prod.fst (priorities cs) i).map Prod.snd).getD (g.priority i) ∧
    (settings g cs).target i =
      ((Slots.lastWrite Prod.fst (targets cs) i).map Prod.snd).getD (g.target i) := by
  induction cs using List.reverseRecOn with
  | nil => exact ⟨by simp [settings,enables],rfl,rfl⟩
  | append_singleton cs c ih =>
    obtain ⟨henabled,hpriority,htarget⟩ := ih
    have hlast : settings g (cs++[c]) = setting (settings g cs) c := by
      rw [settings,List.foldl_append]
      rfl
    have hbyte : ∀ (ds es : List (ℕ × ℕ)) (b : ℕ),
        ((Slots.lastWrite Prod.fst es i).map Prod.snd).getD
          (((Slots.lastWrite Prod.fst ds i).map Prod.snd).getD b) =
        ((Slots.lastWrite Prod.fst (ds++es) i).map Prod.snd).getD b := by
      intro ds es b
      rw [Slots.lastWrite_append]
      cases Slots.lastWrite Prod.fst es i <;> rfl
    rw [hlast,setting_eq]
    refine ⟨?_,?_,?_⟩
    · have hmem : enables (cs++[c]) = enables cs++enables [c] := List.filterMap_append
      simp [henabled,hmem,h,Bool.or_assoc]
    · have hmem : priorities (cs++[c]) = priorities cs++priorities [c] := List.filterMap_append
      rw [hmem,← hbyte,← hpriority]
      exact if_pos h
    · have hmem : targets (cs++[c]) = targets cs++targets [c] := List.filterMap_append
      rw [hmem,← hbyte,← htarget]
      exact if_pos h

/-- The registers that the calls are about. -/
def registers (g : Gic) : (ℕ → Bool) × (ℕ → ℕ) × (ℕ → ℕ) := (g.enabled,g.priority,g.target)

theorem setting_registers {g g' : Gic} (h : registers g = registers g') (c : Setting) :
    registers (setting g c) = registers (setting g' c) := by
  simp only [registers,Prod.mk.injEq] at h
  obtain ⟨henabled,hpriority,htarget⟩ := h
  rw [setting_eq g,setting_eq g']
  simp only [registers,henabled,hpriority,htarget]

theorem settings_registers {g g' : Gic} (h : registers g = registers g') (cs : List Setting) :
    registers (settings g cs) = registers (settings g' cs) := by
  induction cs generalizing g g' with
  | nil => exact h
  | cons c cs ih => exact ih (setting_registers h c)

end Settings

def resetGic : Gic := ⟨false,false,0,fun _ => false,fun _ => 0,fun _ => 0,fun _ => false,[]⟩

def timerIrq : ℕ := 30
def uartIrq : ℕ := 33

inductive Line
  | uart
  | unknown
  deriving DecidableEq, Repr

structure System where
  gic : Gic
  timer : Timer64.State
  log : List Line

/-- The system after `irq_handler_aarch64`, and the interrupt that it has handled. -/
def irqHandlerAarch64 (s : System) : System × Option ℕ :=
  let r := gicAcknowledge s.gic
  let s := { s with gic := r.1 }
  if r.2 = spurious then (s,none)
  else
    let s :=
      if r.2 = timerIrq then { s with timer := Timer64.timerHandler s.timer }
      else if r.2 = uartIrq then { s with log := s.log++[.uart] }
      else { s with log := s.log++[.unknown] }
    ({ s with gic := gicEndOfInterrupt s.gic r.2 },some r.2)

/-- The kernel sets the controller up further while it runs. -/
def adjust (s : System) (c : Setting) : System := { s with gic := setting s.gic c }

def raise (s : System) (irq : ℕ) : System :=
  if irq < maxIrqs then { s with gic := { s.gic with pending := Function.update s.gic.pending irq true } }
  else s

open PriorityService (Op Service)

/-- Every interrupt comes to the same handler. -/
def serve (s : System) : Service System ℕ :=
  match irqHandlerAarch64 s with
  | (_,none) => .idle
  | (s',some irq) => .served s' irq

def printed (irq : ℕ) : Option Line :=
  if irq = timerIrq then none else some (if irq = uartIrq then .uart else .unknown)

structure Idle (s : System) : Prop where
  distributor : s.gic.distributor = true
  interface : s.gic.interface = true
  active : s.gic.active = []

section Handler
variable {s : System}

def requested (s : System) (i : ℕ) : Bool := s.gic.pending i && s.gic.forwards i

theorem request_idle (h : Idle s) : s.gic.request = (order s.gic.priority).find? (requested s) := by
  rw [Gic.request,h.distributor,h.interface,h.active]
  simp only [List.all_nil,Bool.and_true,if_pos]
  rfl

theorem serve_none (h : s.gic.request = none) : serve s = .idle := by
  have hhandler : irqHandlerAarch64 s = (s,none) := by
    rw [irqHandlerAarch64,gicAcknowledge_none h]
    rfl
  rw [serve,hhandler]

theorem serve_some (h : Idle s) {i : ℕ} (hreq : s.gic.request = some i) : ∃ s',
    serve s = .served s' i ∧
    s'.gic = { s.gic with pending := Function.update s.gic.pending i false } ∧
    s'.timer = (if i = timerIrq then Timer64.timerHandler s.timer else s.timer) ∧
    s'.log = s.log++(printed i).toList := by
  obtain ⟨hi,hack⟩ := gicAcknowledge_some hreq
  have hspurious : i ≠ spurious := by
    rintro rfl
    exact absurd hi (by decide)
  have hend : gicEndOfInterrupt (gicAcknowledge s.gic).1 i =
      { s.gic with pending := Function.update s.gic.pending i false } := by
    rw [hack,gicEndOfInterrupt_eq hi]
    dsimp only
    rw [h.active,List.erase_cons_head,← h.active]
  rw [hack] at hend
  unfold serve irqHandlerAarch64 printed
  rw [hack]
  dsimp only
  rw [if_neg hspurious]
  by_cases htimer : i = timerIrq
  · simp only [if_pos htimer]
    exact ⟨_,rfl,hend,rfl,by simp⟩
  · by_cases huart : i = uartIrq
    · simp only [if_neg htimer,if_pos huart]
      exact ⟨_,rfl,hend,rfl,rfl⟩
    · simp only [if_neg htimer,if_neg huart]
      exact ⟨_,rfl,hend,rfl,rfl⟩

theorem adjust_rest (s : System) (c : Setting) :
    (adjust s c).gic.distributor = s.gic.distributor ∧ (adjust s c).gic.interface = s.gic.interface ∧
    (adjust s c).gic.active = s.gic.active ∧ (adjust s c).gic.pending = s.gic.pending := by
  have hkept : ∀ {g : Gic}, g = { s.gic with enabled := g.enabled, priority := g.priority, target := g.target } →
      g.distributor = s.gic.distributor ∧ g.interface = s.gic.interface ∧ g.active = s.gic.active ∧
        g.pending = s.gic.pending := by
    intro g hg
    rw [hg]
    exact ⟨rfl,rfl,rfl,rfl⟩
  exact hkept (setting_rest s.gic c)

theorem raise_gic (s : System) (i : ℕ) : (raise s i).timer = s.timer ∧ (raise s i).log = s.log ∧
    (raise s i).gic = { s.gic with pending := (raise s i).gic.pending } := by
  unfold raise
  split <;> exact ⟨rfl,rfl,rfl⟩

end Handler

/-- Whatever the priorities are at the moment, the interrupts are served by them. -/
def controller : PriorityService.Controller System ℕ Setting where
  order s := order s.gic.priority
  handled _ := true
  Inv := Idle
  pending s := s.gic.pending
  enabled s := s.gic.forwards
  raise := raise
  adjust := adjust
  serve := serve
  nodup s := order_nodup s.gic.priority
  raise_inv s i h := by
    obtain ⟨-,-,hgic⟩ := raise_gic s i
    have hkept : ∀ {g : Gic}, g = { s.gic with pending := g.pending } →
        g.distributor = true ∧ g.interface = true ∧ g.active = [] := by
      intro g hg
      rw [hg]
      exact ⟨h.distributor,h.interface,h.active⟩
    obtain ⟨hdistributor,hinterface,hactive⟩ := hkept hgic
    exact ⟨hdistributor,hinterface,hactive⟩
  raise_pending s i j _ := by
    simp only [mem_order]
    unfold raise
    by_cases hi : i < maxIrqs
    · rw [if_pos hi]
      by_cases hj : j = i
      · subst hj
        simp [hi]
      · simp [hj]
    · rw [if_neg hi]
      simp [hi]
  adjust_inv s c h := by
    obtain ⟨hdistributor,hinterface,hactive,-⟩ := adjust_rest s c
    exact ⟨hdistributor.trans h.distributor,hinterface.trans h.interface,hactive.trans h.active⟩
  adjust_pending s c _ := (adjust_rest s c).2.2.2
  serve_idle s h hserve := by
    refine (request_idle h).symm.trans ?_
    cases hreq : s.gic.request with
    | none => rfl
    | some i =>
      obtain ⟨s',hsome,-⟩ := serve_some h hreq
      exact nomatch hserve.symm.trans hsome
  serve_served s s' i h hserve := by
    cases hreq : s.gic.request with
    | none => exact nomatch hserve.symm.trans (serve_none hreq)
    | some j =>
      obtain ⟨s'',hsome,hgic,-⟩ := serve_some h hreq
      obtain ⟨rfl,rfl⟩ := Service.served.inj (hserve.symm.trans hsome)
      rw [hgic]
      refine ⟨⟨?_,?_,?_⟩,rfl,rfl,?_,fun n => ?_,rfl⟩
      · rw [hgic]
        exact h.distributor
      · rw [hgic]
        exact h.interface
      · rw [hgic]
        exact h.active
      · exact (request_idle h).symm.trans hreq
      · by_cases hn : n = i
        · subst hn
          simp
        · simp [hn]
  serve_fatal s i h hserve := by
    cases hreq : s.gic.request with
    | none => exact nomatch hserve.symm.trans (serve_none hreq)
    | some j =>
      obtain ⟨s',hsome,-⟩ := serve_some h hreq
      exact nomatch hserve.symm.trans hsome

section Runs
variable {s : System}

def booted (g : Gic) (timer : Timer64.State) : System := ⟨gicInit g,timer,[]⟩

theorem booted_idle {g : Gic} (hactive : g.active = []) (timer : Timer64.State) : Idle (booted g timer) := by
  rw [booted,gicInit_eq]
  exact ⟨rfl,rfl,hactive⟩

theorem run_cons (h : Idle s) (op : Op ℕ Setting) (ops : List (Op ℕ Setting)) :
    controller.run s (op::ops) = { controller.run (controller.step s op).state ops with
      served := (controller.step s op).served++(controller.run (controller.step s op).state ops).served } :=
  PriorityService.Controller.run_cons (PriorityService.Controller.step_goes (fun _ => rfl) h op) ops

def calls (ops : List (Op ℕ Setting)) : List Setting := ops.filterMap fun op => match op with
  | .adjust c => some c
  | _ => none

theorem step_rest (h : Idle s) (hticks : s.timer.timerTicks < 2^64) (op : Op ℕ Setting) :
    registers (controller.step s op).state.gic = registers (settings s.gic (calls [op])) ∧
    (controller.step s op).state.timer.timerTicks =
      u64 (s.timer.timerTicks+((controller.step s op).served.count timerIrq : ℕ)) ∧
    (controller.step s op).state.log = s.log++(controller.step s op).served.filterMap printed := by
  have hsame : s.timer.timerTicks = u64 (s.timer.timerTicks+(0 : ℕ)) := by
    unfold u64
    omega
  cases op with
  | raise i =>
    obtain ⟨htimer,hlog,hgic⟩ := raise_gic s i
    refine ⟨?_,(congrArg Timer64.State.timerTicks htimer).trans hsame,hlog.trans (List.append_nil _).symm⟩
    change registers (raise s i).gic = registers s.gic
    rw [hgic]
    rfl
  | adjust c => exact ⟨rfl,hsame,(List.append_nil _).symm⟩
  | serve =>
    cases hreq : s.gic.request with
    | none =>
      have hstep : controller.step s .serve = ⟨s,[],none⟩ := by
        rw [PriorityService.Controller.step,show controller.serve s = .idle from serve_none hreq]
      rw [hstep]
      exact ⟨rfl,hsame,(List.append_nil _).symm⟩
    | some i =>
      obtain ⟨s',hserve,hgic,htimer,hlog⟩ := serve_some h hreq
      have hstep : controller.step s .serve = ⟨s',[i],none⟩ := by
        rw [PriorityService.Controller.step,show controller.serve s = .served s' i from hserve]
      rw [hstep]
      refine ⟨by rw [hgic]; rfl,?_,?_⟩
      · by_cases hi : i = timerIrq
        · rw [htimer,if_pos hi,hi,List.count_singleton_self]
          exact (Timer64.timerHandler_fields s.timer).2.1
        · rw [htimer,if_neg hi,List.count_singleton,if_neg fun heq => hi (beq_iff_eq.mp heq)]
          exact hsame
      · rw [hlog,List.filterMap_cons]
        cases printed i <;> rfl

theorem timerTicks_count (ticks m n : ℕ) : u64 ((u64 (ticks+(m : ℕ)) : ℕ)+(n : ℕ)) = u64 (ticks+(m+n : ℕ)) := by
  unfold u64
  omega

/-- The timer counts what was served of its interrupt, every other one leaves a line, and the
registers are those that the calls have set. -/
theorem run_ledger (h : Idle s) (hticks : s.timer.timerTicks < 2^64) (ops : List (Op ℕ Setting)) :
    (controller.run s ops).state.timer.timerTicks =
      u64 (s.timer.timerTicks+((controller.run s ops).served.count timerIrq : ℕ)) ∧
    (controller.run s ops).state.log = s.log++(controller.run s ops).served.filterMap printed ∧
    registers (controller.run s ops).state.gic = registers (settings s.gic (calls ops)) := by
  induction ops generalizing s with
  | nil =>
    refine ⟨?_,by simp [PriorityService.Controller.run],rfl⟩
    simp only [PriorityService.Controller.run,List.count_nil,Nat.cast_zero,add_zero]
    unfold u64
    omega
  | cons op ops ih =>
    obtain ⟨hregisters,hcount,hlog⟩ := step_rest h hticks op
    have hidle : Idle (controller.step s op).state := @PriorityService.Controller.step_inv _ _ _ _ controller s h op
    have hlt : (controller.step s op).state.timer.timerTicks < 2^64 := by
      rw [hcount]
      unfold u64
      omega
    obtain ⟨hcounts,hlogs,hsettings⟩ := ih hidle hlt
    rw [run_cons h]
    dsimp only
    refine ⟨?_,?_,?_⟩
    · rw [hcounts,hcount,timerTicks_count,List.count_append]
    · rw [hlogs,hlog,List.filterMap_append,List.append_assoc]
    · have hcalls : settings s.gic (calls (op::ops)) = settings (settings s.gic (calls [op])) (calls ops) := by
        have hsplit : calls (op::ops) = calls [op]++calls ops := List.filterMap_append (l := [op]) ..
        rw [hsplit,settings,List.foldl_append]
        rfl
      rw [hsettings,hcalls,settings_registers hregisters]

/-- However devices, settings and the handler follow each other: between two interrupts nothing
is left active, no interrupt is handled more often than it was raised, the ticks of the timer
are the timer interrupts that were handled, each other one has printed its line, and every
interrupt is set up as the last calls for it asked. -/
theorem irqs_accounted (g : Gic) (hactive : g.active = []) (timer : Timer64.State)
    (hticks : timer.timerTicks < 2^64) (ops : List (Op ℕ Setting)) :
    let r := controller.run (booted g timer) ops
    r.state.gic.active = [] ∧
    (∀ irq, r.served.count irq+(r.state.gic.pending irq).toNat ≤
      (g.pending irq).toNat+PriorityService.Controller.raised irq ops) ∧
    r.state.timer.timerTicks = u64 (timer.timerTicks+(r.served.count timerIrq : ℕ)) ∧
    r.state.log = r.served.filterMap printed ∧
    ∀ irq < maxIrqs,
      r.state.gic.enabled irq = (g.enabled irq || decide (irq ∈ enables (calls ops))) ∧
      r.state.gic.priority irq =
        ((Slots.lastWrite Prod.fst (priorities (calls ops)) irq).map Prod.snd).getD (g.priority irq) ∧
      r.state.gic.target irq =
        ((Slots.lastWrite Prod.fst (targets (calls ops)) irq).map Prod.snd).getD (g.target irq) := by
  intro r
  have hidle := booted_idle hactive timer
  have hinv : Idle r.state := @PriorityService.Controller.run_inv _ _ _ _ controller _ hidle ops
  obtain ⟨hcount,hlog,hregisters⟩ := run_ledger hidle hticks ops
  refine ⟨hinv.active,fun irq => ?_,hcount,hlog.trans (List.nil_append _),fun irq hirq => ?_⟩
  · have hbalance := (@PriorityService.Controller.run_balance _ _ _ _ controller _ hidle ops irq).1
    have hstart : controller.pending (booted g timer) irq = g.pending irq := by
      change (gicInit g).pending irq = _
      rw [gicInit_eq]
    rw [hstart] at hbalance
    exact hbalance
  · have hspec := settings_spec (gicInit g) (calls ops) irq hirq
    simp only [registers,Prod.mk.injEq] at hregisters
    obtain ⟨henabled,hpriority,htarget⟩ := hregisters
    change (controller.run (booted g timer) ops).state.gic.enabled irq = _ ∧ _
    rw [henabled,hpriority,htarget]
    have hstart : registers (gicInit g) = registers g := by
      rw [gicInit_eq]
      rfl
    simp only [registers,Prod.mk.injEq] at hstart
    rw [hstart.1,hstart.2.1,hstart.2.2] at hspec
    exact ⟨hspec.1,hspec.2.1,hspec.2.2⟩

theorem order_sorted (priority : ℕ → ℕ) : (order priority).Pairwise fun i j =>
    priority i < priority j ∨ (priority i = priority j ∧ i ≤ j) := by
  refine (List.pairwise_mergeSort ?_ ?_ _).imp of_decide_eq_true
  · intro i j k hij hjk
    rw [decide_eq_true_iff] at hij hjk ⊢
    omega
  · intro i j
    rw [Bool.or_eq_true,decide_eq_true_iff,decide_eq_true_iff]
    omega

/-- Without new requests, each pending interrupt that is enabled, directed to the processor and
urgent enough is handled once: the most urgent first, and of two equally urgent ones that of
the lower number. The others stay pending. -/
theorem waiting_handled (g : Gic) (hactive : g.active = []) (timer : Timer64.State) (ops : List (Op ℕ Setting)) :
    let s := (controller.run (booted g timer) ops).state
    let r := controller.drain maxIrqs s
    r.served.Pairwise (fun i j => s.gic.priority i < s.gic.priority j ∨
      (s.gic.priority i = s.gic.priority j ∧ i < j)) ∧
    (∀ i, i ∈ r.served ↔ i < maxIrqs ∧ s.gic.pending i = true ∧ s.gic.forwards i = true) ∧
    ∀ i < maxIrqs, r.state.gic.pending i = (s.gic.pending i && !s.gic.forwards i) := by
  intro s r
  have hidle : Idle s :=
    @PriorityService.Controller.run_inv _ _ _ _ controller _ (booted_idle hactive timer) ops
  have hlength : (controller.waiting s).length ≤ maxIrqs := by
    refine (List.length_filter_le _ _).trans ?_
    change (order s.gic.priority).length ≤ maxIrqs
    rw [order,List.length_mergeSort,List.length_range]
  obtain ⟨hserved,-,hpending⟩ := controller.drain_eq hidle hlength
  have hserved' : r.served = (order s.gic.priority).filter (requested s) :=
    hserved.trans (List.takeWhile_eq_self_iff.mpr fun _ _ => rfl)
  have hmem : ∀ i, i ∈ r.served ↔ i < maxIrqs ∧ s.gic.pending i = true ∧ s.gic.forwards i = true := fun i => by
    rw [hserved',List.mem_filter,mem_order,requested,Bool.and_eq_true]
  refine ⟨?_,hmem,fun i hi => (hpending i).trans ?_⟩
  · rw [hserved']
    have hsorted := (order_sorted s.gic.priority).and (order_nodup s.gic.priority)
    refine (hsorted.sublist List.filter_sublist).imp fun {i j} hij => ?_
    omega
  · show (s.gic.pending i && decide (i ∉ r.served)) = _
    rw [decide_not,← Bool.decide_coe (s.gic.pending i && !s.gic.forwards i)]
    simp only [hmem,hi]
    cases s.gic.pending i <;> cases s.gic.forwards i <;> rfl

/-- The kernel's own settings, and a timer interrupt. -/
theorem irqs_accounted_timer :
    (controller.run (booted resetGic (Timer64.started 62500000 1000 0))
      [.adjust (.enable 30),.raise 30,.serve]).state.gic.active = [] :=
  (irqs_accounted resetGic rfl (Timer64.started 62500000 1000 0) (by decide)
    [.adjust (.enable 30),.raise 30,.serve]).1

theorem waiting_handled_timer :
    (controller.drain maxIrqs (controller.run (booted resetGic (Timer64.started 62500000 1000 0))
      [.adjust (.enable 30),.raise 30,.adjust (.priority 30 0xA0),.raise 31]).state).state.gic.pending 31 = true :=
  ((waiting_handled resetGic rfl (Timer64.started 62500000 1000 0)
    [.adjust (.enable 30),.raise 30,.adjust (.priority 30 0xA0),.raise 31]).2.2 31 (by decide)).trans (by decide)

end Runs

end Gic64
end ValiantCore
