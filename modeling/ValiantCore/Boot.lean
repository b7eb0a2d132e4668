import ValiantCore.AArch64Cores

/-! `_start` of `arch/aarch64/boot.S`, on all the cores that are released: one of them sets up
its stack, clears the BSS and calls `kernel_main`, the others spin. -/
namespace ValiantCore
namespace Boot

open Memory AArch64 AArch64.Cores

inductive Callee
  | kernelMain
  | exceptionsInit
  deriving DecidableEq, Repr

/-- The symbols of the linker script. -/
structure Layout where
  stackTop : Word
  bssStart : Word
  bssEnd : Word

def masterCpu : ℕ := 5
def spin : ℕ := 3
def cleanBss : ℕ := 9
def jumpMain : ℕ := 13
def halt : ℕ := 15

/-- Lines 12 to 38; a label is the number of its instruction. -/
def start (l : Layout) : List (Instr Callee) :=
  [.mrsMpidr 0,
    .andImm 0 0 0xFF,
    .cbz 0 masterCpu,
    -- spin:
    .wfe,
    .b spin,
    -- master_cpu:
    .ldrLiteral 1 l.stackTop,
    .movToSp 1,
    .ldrLiteral 1 l.bssStart,
    .ldrLiteral 2 l.bssEnd,
    -- clean_bss:
    .cmp 1 2,
    .bge jumpMain,
    .strZeroPost 1 8,
    .b cleanBss,
    -- jump_main:
    .bl .kernelMain,
    .bl .exceptionsInit,
    -- halt:
    .wfe,
    .b halt]

/-- How often the loop goes round from `a` on: the comparison is one of signed numbers. -/
def turnsFrom (a stop : Word) : ℕ := ((stop.toInt-a.toInt+7)/8).toNat

def bssTurns (l : Layout) : ℕ := turnsFrom l.bssStart l.bssEnd

/-- The bytes that are cleared: the BSS, up to a multiple of 8. -/
def bss (l : Layout) : Set Word := span l.bssStart (8*bssTurns l)

def cleared (l : Layout) (m : Mem) : Mem :=
  storeAll m l.bssStart (List.replicate (bssTurns l) 0)

def bootSteps (l : Layout) : ℕ := 10+4*bssTurns l

section Spinning
variable (l : Layout) {mpidr : Word}

/-- Where a core with a number other than 0 can be. -/
def Spins (mpidr : Word) (c : Cpu Callee) : Prop :=
  c.spot = .here 0 ∨ c.spot = .here 1 ∧ c.x 0 = mpidr ∨ c.spot = .here 2 ∧ c.x 0 = mpidr &&& 0xFF ∨
    c.spot = .here 3 ∨ c.spot = .here 4

theorem Spins.next {c : Cpu Callee} (hne : mpidr &&& 0xFF ≠ 0) (h : Spins mpidr c) :
    Spins mpidr (next (start l) mpidr c) := by
  rcases h with h | ⟨h,hx⟩ | ⟨h,hx⟩ | h | h
  all_goals simp only [Cores.next,h,start,List.getElem?_cons_zero,List.getElem?_cons_succ,perform]
  · refine Or.inr (Or.inl ⟨rfl,?_⟩)
    exact Function.update_self (0 : Fin 31) mpidr c.x
  · refine Or.inr (Or.inr (Or.inl ⟨rfl,?_⟩))
    rw [← hx]
    exact Function.update_self (0 : Fin 31) (c.x 0 &&& 0xFF) c.x
  · rw [hx,if_neg hne]
    exact Or.inr (Or.inr (Or.inr (Or.inl rfl)))
  · exact Or.inr (Or.inr (Or.inr (Or.inr rfl)))
  · exact Or.inr (Or.inr (Or.inr (Or.inl rfl)))

theorem Spins.iterate {c : Cpu Callee} (hne : mpidr &&& 0xFF ≠ 0) (h : Spins mpidr c) (k : ℕ) :
    Spins mpidr ((Cores.next (start l) mpidr)^[k] c) := by
  induction k generalizing c with
  | zero => exact h
  | succ k ih => exact ih (h.next l hne)

theorem Spins.spot {c : Cpu Callee} (h : Spins mpidr c) : ∃ o ≤ 4, c.spot = .here o := by
  rcases h with h | ⟨h,-⟩ | ⟨h,-⟩ | h | h
  all_goals exact ⟨_,by decide,h⟩

theorem Spins.stores {c : Cpu Callee} (h : Spins mpidr c) (m : Mem) :
    stores (start l) c m = m := by
  rcases h with h | ⟨h,-⟩ | ⟨h,-⟩ | h | h
  all_goals simp only [Cores.stores,h,start,List.getElem?_cons_zero,List.getElem?_cons_succ]

theorem quiet {c : Cpu Callee} (hne : mpidr &&& 0xFF ≠ 0) (h : c.spot = .here 0) :
    Quiet (start l) mpidr c := by
  intro k
  have hspins : Spins mpidr ((Cores.next (start l) mpidr)^[k] c) := Spins.iterate l hne (Or.inl h) k
  obtain ⟨o,-,ho⟩ := hspins.spot
  exact ⟨⟨o,ho⟩,hspins.stores l⟩

end Spinning

section Booting
variable (l : Layout) {mpidr : Word} {A : Set Word} {m : Mem}

theorem runs_start (hmaster : mpidr &&& 0xFF = 0) {c : Cpu Callee} (h : c.spot = .here 0) :
    ∃ c', Runs (start l) mpidr A 3 (c,m) (c',m) ∧ c'.spot = .here masterCpu := by
  have hmrs : Runs (start l) mpidr A 1 (c,m) _ := Runs.plain h rfl rfl rfl
  have hand : Runs (start l) mpidr A 1 (perform mpidr 0 c (.mrsMpidr 0),m) _ :=
    Runs.plain rfl rfl rfl rfl
  have hcbz : Runs (start l) mpidr A 1
      (perform mpidr 1 (perform mpidr 0 c (.mrsMpidr 0)) (.andImm 0 0 0xFF),m) _ :=
    Runs.plain rfl rfl rfl rfl
  refine ⟨_,(hmrs.trans hand).trans hcbz,?_⟩
  have hzero : Function.update (Function.update c.x 0 mpidr) 0 (mpidr &&& 0xFF) 0 = (0 : Word) :=
    (Function.update_self ..).trans hmaster
  exact congrArg Spot.here (if_pos hzero)

theorem runs_masterCpu {c : Cpu Callee} (h : c.spot = .here masterCpu) :
    ∃ c', Runs (start l) mpidr A 4 (c,m) (c',m) ∧ c'.spot = .here cleanBss ∧
      c'.x 1 = l.bssStart ∧ c'.x 2 = l.bssEnd ∧ c'.sp = l.stackTop := by
  have hldr : Runs (start l) mpidr A 1 (c,m) _ := Runs.plain h rfl rfl rfl
  have hmov : Runs (start l) mpidr A 1 (perform mpidr 5 c (.ldrLiteral 1 l.stackTop),m) _ :=
    Runs.plain rfl rfl rfl rfl
  have hfirst : Runs (start l) mpidr A 1
      (perform mpidr 6 (perform mpidr 5 c (.ldrLiteral 1 l.stackTop)) (.movToSp 1),m) _ :=
    Runs.plain rfl rfl rfl rfl
  have hlast : Runs (start l) mpidr A 1 (perform mpidr 7 (perform mpidr 6
      (perform mpidr 5 c (.ldrLiteral 1 l.stackTop)) (.movToSp 1)) (.ldrLiteral 1 l.bssStart),m) _ :=
    Runs.plain rfl rfl rfl rfl
  refine ⟨_,((hldr.trans hmov).trans hfirst).trans hlast,rfl,?_,?_,?_⟩
  · rfl
  · rfl
  · rfl

theorem runs_turn {c : Cpu Callee} (h : c.spot = .here cleanBss) (hlt : (c.x 1).toInt < (c.x 2).toInt)
    (hA : span (c.x 1) 8 ⊆ A) :
    ∃ c', Runs (start l) mpidr A 4 (c,m) (c',store64 m (c.x 1) 0) ∧ c'.spot = .here cleanBss ∧
      c'.x 1 = c.x 1+8 ∧ c'.x 2 = c.x 2 ∧ c'.sp = c.sp := by
  have hge : decide ((c.x 2).toInt ≤ (c.x 1).toInt) = false := decide_eq_false (Int.not_le.mpr hlt)
  have hcmp : Runs (start l) mpidr A 1 (c,m) ({ c with ge := false, spot := .here 10 },m) :=
    Runs.plain h rfl rfl (by rw [perform,hge]; rfl)
  have hbge : Runs (start l) mpidr A 1 ({ c with ge := false, spot := .here 10 },m)
      ({ c with ge := false, spot := .here 11 },m) := Runs.plain rfl rfl rfl rfl
  have hstr : Runs (start l) mpidr A 1 ({ c with ge := false, spot := .here 11 },m) (_,_) :=
    Runs.store rfl rfl hA rfl
  have hb : Runs (start l) mpidr A 1
      (perform mpidr 11 { c with ge := false, spot := .here 11 } (.strZeroPost 1 8),
        store64 m (c.x 1) 0) _ := Runs.plain rfl rfl rfl rfl
  refine ⟨_,((hcmp.trans hbge).trans hstr).trans hb,rfl,?_,?_,rfl⟩
  · exact Function.update_self (1 : Fin 31) (c.x 1+8) c.x
  · exact Function.update_of_ne (show (2 : Fin 31) ≠ 1 by decide) (c.x 1+8) c.x

theorem runs_jumpMain {c : Cpu Callee} (h : c.spot = .here cleanBss) (hle : (c.x 2).toInt ≤ (c.x 1).toInt) :
    ∃ c', Runs (start l) mpidr A 3 (c,m) (c',m) ∧ c'.spot = .inside .kernelMain ∧ c'.sp = c.sp := by
  have hge : decide ((c.x 2).toInt ≤ (c.x 1).toInt) = true := decide_eq_true hle
  have hcmp : Runs (start l) mpidr A 1 (c,m) ({ c with ge := true, spot := .here 10 },m) :=
    Runs.plain h rfl rfl (by rw [perform,hge]; rfl)
  have hbge : Runs (start l) mpidr A 1 ({ c with ge := true, spot := .here 10 },m)
      ({ c with ge := true, spot := .here jumpMain },m) := Runs.plain rfl rfl rfl rfl
  have hbl : Runs (start l) mpidr A 1 ({ c with ge := true, spot := .here jumpMain },m) _ :=
    Runs.plain rfl rfl rfl rfl
  exact ⟨_,(hcmp.trans hbge).trans hbl,rfl,rfl⟩

theorem lt_of_turnsFrom {a stop : Word} {n : ℕ} (h : turnsFrom a stop = n+1) : a.toInt < stop.toInt := by
  simp only [turnsFrom] at h
  omega

theorem le_of_turnsFrom {a stop : Word} (h : turnsFrom a stop = 0) : stop.toInt ≤ a.toInt := by
  simp only [turnsFrom] at h
  omega

theorem turnsFrom_add {a stop : Word} {n : ℕ} (hstop : stop.toInt+7 < 2^63)
    (h : turnsFrom a stop = n+1) : turnsFrom (a+8) stop = n := by
  have hlt := lt_of_turnsFrom h
  have hadd : (a+8).toInt = a.toInt+8 := by
    have hlow := BitVec.le_toInt a
    rw [BitVec.toInt_add]
    exact Int.bmod_eq_of_le (by simp at hlow ⊢; omega) (by simp; omega)
  simp only [turnsFrom,hadd] at h ⊢
  omega

theorem turnsFrom_le {a stop : Word} (hstop : stop.toInt+7 < 2^63) : 8*turnsFrom a stop ≤ 2^64 := by
  have hlow := BitVec.le_toInt a
  simp only [turnsFrom]
  omega

theorem runs_cleanBss (n : ℕ) {c : Cpu Callee} (h : c.spot = .here cleanBss)
    (hstop : (c.x 2).toInt+7 < 2^63) (hn : turnsFrom (c.x 1) (c.x 2) = n)
    (hA : span (c.x 1) (8*n) ⊆ A) :
    ∃ c', Runs (start l) mpidr A (4*n+3) (c,m) (c',storeAll m (c.x 1) (List.replicate n 0)) ∧
      c'.spot = .inside .kernelMain ∧ c'.sp = c.sp := by
  induction n generalizing c m with
  | zero => exact runs_jumpMain l h (le_of_turnsFrom hn)
  | succ n ih =>
    have hlen : 8*(n+1) ≤ 2^64 := hn ▸ turnsFrom_le hstop
    have hfirst : span (c.x 1) 8 ⊆ A := (span_subset (by bv_omega)).trans hA
    obtain ⟨c₁,hturn,hspot,hx₁,hx₂,hsp⟩ :=
      @runs_turn l mpidr A m c h (lt_of_turnsFrom hn) hfirst
    have hrest : span (c₁.x 1) (8*n) ⊆ A := by
      rw [hx₁]
      intro b hb
      cases n with
      | zero => exact absurd hb (by simp [mem_span])
      | succ n => exact hA (span_subset (by bv_omega) hb)
    obtain ⟨c₂,hruns,hinside,hsp₂⟩ := ih (m := store64 m (c.x 1) 0) hspot (by rwa [hx₂])
      (by rw [hx₁,hx₂]; exact turnsFrom_add hstop hn) hrest
    rw [hx₁] at hruns
    have hsteps : 4*(n+1)+3 = 4+(4*n+3) := by omega
    rw [hsteps]
    exact ⟨c₂,hturn.trans hruns,hinside,hsp₂.trans hsp⟩

theorem runs_boot (hmaster : mpidr &&& 0xFF = 0) (hend : l.bssEnd.toInt+7 < 2^63) {c : Cpu Callee}
    (h : c.spot = .here 0) :
    ∃ c', Runs (start l) mpidr (bss l) (bootSteps l) (c,m) (c',cleared l m) ∧
      c'.spot = .inside .kernelMain ∧ c'.sp = l.stackTop := by
  obtain ⟨c₁,hstart,hspot₁⟩ := runs_start l (A := bss l) (m := m) hmaster h
  obtain ⟨c₂,hsetup,hspot₂,hx₁,hx₂,hsp⟩ := @runs_masterCpu l mpidr (bss l) m c₁ hspot₁
  obtain ⟨c₃,hclean,hinside,hsp₃⟩ := @runs_cleanBss l mpidr (bss l) m (bssTurns l) c₂ hspot₂
    (by rwa [hx₂]) (by rw [hx₁,hx₂]; rfl) (by rw [hx₁]; exact subset_rfl)
  rw [hx₁] at hclean
  have hsteps : bootSteps l = 3+4+(4*bssTurns l+3) := by
    rw [bootSteps]
    omega
  rw [hsteps]
  exact ⟨c₃,(hstart.trans hsetup).trans hclean,hinside,hsp₃.trans hsp⟩

end Booting

theorem cleared_spec (l : Layout) (hend : l.bssEnd.toInt+7 < 2^63) (m : Mem) :
    (∀ a ∈ bss l, cleared l m a = 0) ∧ ∀ a ∉ bss l, cleared l m a = m a := by
  have hlen : 8*(List.replicate (bssTurns l) (0 : Word)).length ≤ 2^64 := by
    rw [List.length_replicate]
    exact turnsFrom_le hend
  constructor
  · intro a ha
    exact storeAll_zeros (turnsFrom_le hend) ha
  · intro a ha
    apply storeAll_of_notMem hlen
    rwa [List.length_replicate]

/-- The cores are released together, whatever is in their registers and in the memory. One of
them has the number 0. -/
structure Released {ι : Type} (l : Layout) (mpidr : ι → Word) (boot : ι) (s : Machine ι Callee) : Prop where
  spot : ∀ i, (s.cpus i).spot = .here 0
  number : mpidr boot &&& 0xFF = 0
  others : ∀ i ≠ boot, mpidr i &&& 0xFF ≠ 0
  layout : l.bssEnd.toInt+7 < 2^63

section Cores
variable {ι : Type} [DecidableEq ι] {l : Layout} {mpidr : ι → Word} {boot : ι} {s : Machine ι Callee}

theorem others_spin (h : Released l mpidr boot s) (es : List (Event ι)) {i : ι} (hi : i ≠ boot) :
    ∃ o ≤ 4, ((run (start l) mpidr s es).cpus i).spot = .here o := by
  rw [run_cpus]
  exact (Spins.iterate l (h.others i hi) (Or.inl (h.spot i)) _).spot

section Boot
variable {es : List (Event ι)} {c' : Cpu Callee}
  (hruns : Runs (start l) (mpidr boot) (bss l) (bootSteps l) (s.cpus boot,s.mem) (c',cleared l s.mem))
include hruns

theorem run_boot (h : Released l mpidr boot s) (hlt : turns boot es < bootSteps l) :
    ((run (start l) mpidr s es).cpus boot,(run (start l) mpidr s es).mem) =
      (own (start l) (mpidr boot))^[turns boot es] (s.cpus boot,s.mem) := by
  refine Prod.ext ?_ ?_
  · rw [run_cpus,own_iterate_fst]
  · apply run_mem fun j hj => quiet l (h.others j hj) (h.spot j)
    exact fun k hk => hruns.here k (Nat.lt_of_le_of_lt hk hlt)

theorem run_entered (h : Released l mpidr boot s) (hsucc : turns boot es+1 = bootSteps l) :
    (run (start l) mpidr s (es++[.core boot])).mem = cleared l s.mem := by
  have hlt : turns boot es < bootSteps l := by omega
  have hbefore := run_boot hruns h hlt
  have hends := hruns.ends
  rw [← hsucc,Function.iterate_succ_apply',← hbefore] at hends
  rw [run,List.foldl_append]
  exact congrArg Prod.snd hends

theorem run_inside (hinside : c'.spot = .inside .kernelMain) (hle : bootSteps l ≤ turns boot es) :
    (run (start l) mpidr s es).cpus boot = c' := by
  have hends := congrArg Prod.fst hruns.ends
  rw [own_iterate_fst] at hends
  obtain ⟨k,hk⟩ := Nat.exists_eq_add_of_le' hle
  rw [run_cpus,hk,Function.iterate_add_apply,hends]
  exact next_iterate_inside hinside k

end Boot

/-- However the cores take their turns: those with another number never get further than to
`spin`; the one with the number 0 is in `kernel_main`, with its stack, once it has done
`bootSteps l` steps and not before. Until then nothing but the BSS is written, and when it
enters `kernel_main` the BSS is zero. -/
theorem boot_spec (h : Released l mpidr boot s) (es : List (Event ι)) :
    (∀ i ≠ boot, ∃ o ≤ 4, ((run (start l) mpidr s es).cpus i).spot = .here o) ∧
    (turns boot es < bootSteps l →
      (∃ o, ((run (start l) mpidr s es).cpus boot).spot = .here o) ∧
        ∀ a ∉ bss l, (run (start l) mpidr s es).mem a = s.mem a) ∧
    (bootSteps l ≤ turns boot es →
      ((run (start l) mpidr s es).cpus boot).spot = .inside .kernelMain ∧
        ((run (start l) mpidr s es).cpus boot).sp = l.stackTop) ∧
    (turns boot es+1 = bootSteps l →
      (∀ a ∈ bss l, (run (start l) mpidr s (es++[.core boot])).mem a = 0) ∧
        ∀ a ∉ bss l, (run (start l) mpidr s (es++[.core boot])).mem a = s.mem a) := by
  obtain ⟨c',hruns,hinside,hsp⟩ := runs_boot l (m := s.mem) h.number h.layout (h.spot boot)
  refine ⟨fun i hi => others_spin h es hi,fun hlt => ?_,fun hle => ?_,fun hsucc => ?_⟩
  · have hboot := run_boot hruns h hlt
    have hcpu : (run (start l) mpidr s es).cpus boot = _ := congrArg Prod.fst hboot
    have hmem : (run (start l) mpidr s es).mem = _ := congrArg Prod.snd hboot
    rw [hcpu,hmem]
    exact ⟨hruns.here _ hlt,hruns.keeps _ hlt.le⟩
  · rw [run_inside hruns hinside hle]
    exact ⟨hinside,hsp⟩
  · rw [run_entered hruns h hsucc]
    exact cleared_spec l h.layout s.mem

end Cores

/-- Four cores on a machine whose BSS is 20 bytes long; the memory is full of ones. -/
def smallLayout : Layout := ⟨0x80000,0x90000,0x90014⟩

def fourCores : Machine (Fin 4) Callee := ⟨fun _ => ⟨fun _ => 7,0,true,.here 0⟩,fun _ => 0xFF⟩

def numbers (i : Fin 4) : Word := 0x80000000+BitVec.ofNat 64 i.val

theorem fourCores_released : Released smallLayout numbers 0 fourCores where
  spot _ := rfl
  number := by decide
  others := by decide
  layout := by decide

def roundRobin (n : ℕ) : List (Event (Fin 4)) := (List.replicate n [.core 3,.core 0,.core 1]).flatten

theorem boot_spec_four :
    ((run (start smallLayout) numbers fourCores (roundRobin 22)).cpus 0).spot = .inside .kernelMain ∧
    (run (start smallLayout) numbers fourCores (roundRobin 21++[.core 0])).mem 0x90013 = 0 ∧
    (run (start smallLayout) numbers fourCores (roundRobin 21++[.core 0])).mem 0x90018 = 0xFF := by
  obtain ⟨-,-,hinside,-⟩ := boot_spec fourCores_released (roundRobin 22)
  obtain ⟨-,-,-,henters⟩ := boot_spec fourCores_released (roundRobin 21)
  refine ⟨(hinside (by decide)).1,(henters (by decide)).1 _ ?_,(henters (by decide)).2 _ ?_⟩
  · show (0x90013-0x90000 : Word).toNat < 8*bssTurns smallLayout
    decide
  · show ¬ (0x90018-0x90000 : Word).toNat < 8*bssTurns smallLayout
    decide

end Boot
end ValiantCore
