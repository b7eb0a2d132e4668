import ValiantCore.SchedulerChoice

/-! Round robin. Among tasks of one priority that have nothing else to do than run, the
processor goes around the table, and each task keeps it for exactly its slice. -/
namespace ValiantCore
namespace Scheduler

/-- The slots that run or are ready, in the order of the table. -/
def ring (s : Sched) : List ℕ :=
  (List.range maxTasks).filter fun i => s.stateOf i = .running || s.stateOf i = .ready

/-- The `k`-th successor of the current task around the ring. -/
def successor (s : Sched) (k : ℕ) : ℕ := Rotation.around (ring s) s.currentTask k

/-- The state after `n` calls of `schedule_next`, the `i`-th of them at stack pointer `sp i`. -/
def ticks (s : Sched) (sp : ℕ → ℕ) : ℕ → Sched
  | 0 => s
  | n+1 => scheduleNext (ticks s sp n) (sp n)

/-- The current task begins its slice, and other tasks of its priority are ready to begin
theirs; every slot besides waits for an event or is dead. -/
structure RoundRobin (s : Sched) (p : ℕ) : Prop where
  current_lt : s.currentTask < maxTasks
  running : s.stateOf s.currentTask = .running
  others : ∀ i < maxTasks, i ≠ s.currentTask →
    s.stateOf i = .ready ∨ s.stateOf i = .blocked ∨ s.stateOf i = .dead
  some_ready : ∃ i < maxTasks, s.stateOf i = .ready
  priority_le : p ≤ 9
  equal : ∀ i ∈ ring s,
    (s.tasks i).priority = p ∧ (s.tasks i).timeSlice = 10-p ∧ (s.tasks i).ticksUsed = 0

theorem mem_ring {s : Sched} {i : ℕ} :
    i ∈ ring s ↔ i < maxTasks ∧ (s.stateOf i = .running ∨ s.stateOf i = .ready) := by
  simp [ring]

theorem ring_sorted (s : Sched) : (ring s).Pairwise (· < ·) := List.pairwise_lt_range.filter _

theorem ring_lt {s : Sched} (i : ℕ) (hi : i ∈ ring s) : i < maxTasks := (mem_ring.mp hi).1

theorem RoundRobin.current_mem {s : Sched} {p : ℕ} (h : RoundRobin s p) : s.currentTask ∈ ring s :=
  mem_ring.mpr ⟨h.current_lt,Or.inl h.running⟩

/-- The `k`-th successor has the processor and has used `r` ticks of its slice. -/
structure AtTurn (s : Sched) (p k r : ℕ) (t : Sched) : Prop where
  current : t.currentTask = successor s k
  used : (t.tasks t.currentTask).ticksUsed = r
  running : t.stateOf t.currentTask = .running
  waiting : ∀ i ∈ ring s, i ≠ t.currentTask → t.stateOf i = .ready ∧ (t.tasks i).ticksUsed = 0
  outside : ∀ i < maxTasks, i ∉ ring s → t.stateOf i = .blocked ∨ t.stateOf i = .dead
  fields : ∀ i ∈ ring s, (t.tasks i).priority = p ∧ (t.tasks i).timeSlice = 10-p

theorem RoundRobin.atTurn {s : Sched} {p : ℕ} (h : RoundRobin s p) : AtTurn s p 0 0 s where
  current := (Rotation.around_zero h.current_mem).symm
  used := (h.equal _ h.current_mem).2.2
  running := h.running
  waiting := by
    intro i hi hne
    obtain ⟨hlt,hring⟩ := mem_ring.mp hi
    refine ⟨?_,(h.equal i hi).2.2⟩
    rcases h.others i hlt hne with hready | hstate | hstate
    · exact hready
    · simp [hstate] at hring
    · simp [hstate] at hring
  outside := by
    intro i hlt hi
    have hne : i ≠ s.currentTask := fun heq => hi (heq ▸ h.current_mem)
    rcases h.others i hlt hne with hready | hstate
    · exact absurd (mem_ring.mpr ⟨hlt,Or.inr hready⟩) hi
    · exact hstate
  fields := fun i hi => ⟨(h.equal i hi).1,(h.equal i hi).2.1⟩

section Turn
variable {s t : Sched} {p k r : ℕ}

theorem AtTurn.current_mem (hs : RoundRobin s p) (h : AtTurn s p k r t) : t.currentTask ∈ ring s := by
  rw [h.current]
  exact Rotation.around_mem hs.current_mem k

theorem AtTurn.awake (h : AtTurn s p k r t) {i : ℕ} (hi : i < maxTasks) :
    t.stateOf i ≠ .sleeping := by
  by_cases hcur : i = t.currentTask
  · rw [hcur,h.running]
    decide
  · by_cases hring : i ∈ ring s
    · rw [(h.waiting i hring hcur).1]
      decide
    · rcases h.outside i hi hring with hstate | hstate <;> rw [hstate] <;> decide

theorem AtTurn.wake_eq (h : AtTurn s p k r t) {i : ℕ} (hi : i < maxTasks) :
    wake (t.tasks i) = t.tasks i := if_neg (h.awake hi)

theorem AtTurn.inReady_iff (h : AtTurn s p k r t) (i : ℕ) :
    InReady t i ↔ i ∈ ring s ∧ i ≠ t.currentTask := by
  constructor
  · rintro ⟨hi,hready | ⟨hsleep,-⟩⟩
    · refine ⟨?_,?_⟩
      · by_contra hring
        rcases h.outside i hi hring with hstate | hstate <;>
          simp [Sched.stateOf,hready] at hstate
      · rintro rfl
        have hrun := h.running
        simp [Sched.stateOf,hready] at hrun
    · exact absurd hsleep (h.awake hi)
  · rintro ⟨hring,hne⟩
    exact ⟨ring_lt i hring,Or.inl (h.waiting i hring hne).1⟩

theorem AtTurn.regular (hs : RoundRobin s p) (h : AtTurn s p k r t) : Regular t where
  current_lt := ring_lt _ (h.current_mem hs)
  running_iff := by
    intro i hi
    constructor
    · intro hrun
      by_contra hne
      by_cases hring : i ∈ ring s
      · simp [(h.waiting i hring hne).1] at hrun
      · rcases h.outside i hi hring with hstate | hstate <;> simp [hstate] at hrun
    · rintro rfl
      exact h.running
  priority_le := by
    intro i hi
    rw [(h.fields i ((h.inReady_iff i).mp hi).1).1]
    exact hs.priority_le

theorem AtTurn.sliceOver_iff (hs : RoundRobin s p) (h : AtTurn s p k r t) (hr : r < 10-p) :
    SliceOver t ↔ 10-p ≤ r+1 := by
  rw [SliceOver,h.used,(h.fields _ (h.current_mem hs)).2,u32_succ (by omega)]

theorem AtTurn.best (hs : RoundRobin s p) (h : AtTurn s p k r t) : IsBest t (successor s (k+1)) := by
  have hmem : successor s (k+1) ∈ ring s := Rotation.around_mem hs.current_mem (k+1)
  have hother : ∃ i ∈ ring s, i ≠ successor s k := by
    by_cases hcur : successor s k = s.currentTask
    · obtain ⟨i,hi,hready⟩ := hs.some_ready
      refine ⟨i,mem_ring.mpr ⟨hi,Or.inr hready⟩,?_⟩
      rw [hcur]
      rintro rfl
      rw [hs.running] at hready
      simp at hready
    · exact ⟨s.currentTask,hs.current_mem,Ne.symm hcur⟩
  obtain ⟨i,hi,hne⟩ := hother
  have hnext : successor s (k+1) ≠ t.currentTask := by
    rw [h.current]
    exact Rotation.around_succ_ne (ring_sorted s) ring_lt hs.current_mem hi hne
  refine ⟨(h.inReady_iff _).mpr ⟨hmem,hnext⟩,fun j hj => ?_⟩
  have hjring := ((h.inReady_iff j).mp hj).1
  have hprio : (t.tasks (successor s (k+1))).priority = (t.tasks j).priority := by
    rw [(h.fields _ hmem).1,(h.fields j hjring).1]
  rw [rank,rank,Prod.Lex.toLex_le_toLex]
  refine Or.inr ⟨hprio,?_⟩
  simp only [distance,h.current]
  exact Rotation.gap_around_le (ring_sorted s) ring_lt hs.current_mem hjring k

theorem AtTurn.tick_in_slice (hs : RoundRobin s p) (h : AtTurn s p k r t) (hr : r+1 < 10-p) (sp : ℕ) :
    AtTurn s p k (r+1) (scheduleNext t sp) := by
  have hover : ¬ SliceOver t := by
    rw [h.sliceOver_iff hs (by omega)]
    omega
  obtain ⟨hcur,htasks⟩ := (scheduleNext_chooses t (h.regular hs) sp).in_slice hover
  have hself := htasks _ (h.regular hs).current_lt
  have hothers : ∀ i < maxTasks, i ≠ t.currentTask → (scheduleNext t sp).tasks i = t.tasks i := by
    intro i hi hne
    rw [htasks i hi,keptTask,if_neg hne,h.wake_eq hi]
  rw [keptTask,if_pos rfl,h.used,u32_succ (by omega)] at hself
  constructor
  · rw [hcur,h.current]
  · rw [hcur,hself]
  · rw [hcur,Sched.stateOf,hself]
    exact h.running
  · intro i hi hne
    rw [hcur] at hne
    rw [Sched.stateOf,hothers i (ring_lt i hi) hne]
    exact h.waiting i hi hne
  · intro i hi hring
    have hne : i ≠ t.currentTask := fun heq => hring (heq ▸ h.current_mem hs)
    rw [Sched.stateOf,hothers i hi hne]
    exact h.outside i hi hring
  · intro i hi
    by_cases hne : i = t.currentTask
    · rw [hne,hself]
      exact h.fields _ (h.current_mem hs)
    · rw [hothers i (ring_lt i hi) hne]
      exact h.fields i hi

theorem AtTurn.tick_slice_over (hs : RoundRobin s p) (h : AtTurn s p k r t) (hr : r+1 = 10-p) (sp : ℕ) :
    AtTurn s p (k+1) 0 (scheduleNext t sp) := by
  have hover : SliceOver t := by
    rw [h.sliceOver_iff hs (by omega)]
    omega
  obtain ⟨n,hn,hcur,htasks⟩ :=
    (scheduleNext_chooses t (h.regular hs) sp).switch hover ⟨_,(h.best hs).1⟩
  obtain rfl := (h.best hs).unique (h.regular hs).current_lt hn
  obtain ⟨hmem,hne⟩ := (h.inReady_iff _).mp hn.1
  have hmem' := h.current_mem hs
  have hnew := htasks _ (ring_lt _ hmem)
  have hold := htasks _ (ring_lt _ hmem')
  have hothers : ∀ i < maxTasks, i ≠ t.currentTask → i ≠ successor s (k+1) →
      (scheduleNext t sp).tasks i = t.tasks i := by
    intro i hi hcur hnext
    rw [htasks i hi,switchedTask,if_neg hnext,if_neg hcur,h.wake_eq hi]
  rw [switchedTask,if_pos rfl,h.wake_eq (ring_lt _ hmem)] at hnew
  rw [switchedTask,if_neg hne.symm,if_pos rfl] at hold
  constructor
  · exact hcur
  · rw [hcur,hnew]
    exact (h.waiting _ hmem hne).2
  · rw [hcur,Sched.stateOf,hnew]
  · intro i hi hi'
    rw [hcur] at hi'
    by_cases heq : i = t.currentTask
    · subst heq
      rw [Sched.stateOf,hold]
      exact ⟨rfl,rfl⟩
    · rw [Sched.stateOf,hothers i (ring_lt i hi) heq hi']
      exact h.waiting i hi heq
  · intro i hi hring
    have hne1 : i ≠ t.currentTask := fun heq => hring (heq ▸ hmem')
    have hne2 : i ≠ successor s (k+1) := fun heq => hring (heq ▸ hmem)
    rw [Sched.stateOf,hothers i hi hne1 hne2]
    exact h.outside i hi hring
  · intro i hi
    by_cases heq : i = t.currentTask
    · rw [heq,hold]
      exact h.fields _ hmem'
    · by_cases hnext : i = successor s (k+1)
      · rw [hnext,hnew]
        exact h.fields _ hmem
      · rw [hothers i (ring_lt i hi) heq hnext]
        exact h.fields i hi

end Turn

/-- After any number of ticks, whose turn it is and how far it has come. -/
theorem RoundRobin.atTurn_ticks {s : Sched} {p : ℕ} (hs : RoundRobin s p) (sp : ℕ → ℕ) (n : ℕ) :
    AtTurn s p (n/(10-p)) (n%(10-p)) (ticks s sp n) := by
  have hp := hs.priority_le
  have hpos : 0 < 10-p := by omega
  induction n with
  | zero =>
    rw [Nat.zero_div,Nat.zero_mod]
    exact hs.atTurn
  | succ n ih =>
    have hlt : n % (10-p) < 10-p := Nat.mod_lt n hpos
    have hn := Nat.div_add_mod n (10-p)
    by_cases hr : n % (10-p)+1 < 10-p
    · obtain ⟨hdiv,hmod⟩ := (Nat.div_mod_unique hpos).mpr
        (⟨by omega,hr⟩ : n % (10-p)+1+(10-p)*(n/(10-p)) = n+1 ∧ n % (10-p)+1 < 10-p)
      rw [hdiv,hmod]
      exact ih.tick_in_slice hs hr (sp n)
    · obtain ⟨hdiv,hmod⟩ := (Nat.div_mod_unique hpos).mpr
        (⟨by rw [Nat.mul_succ]; omega,hpos⟩ : 0+(10-p)*(n/(10-p)+1) = n+1 ∧ 0 < 10-p)
      rw [hdiv,hmod]
      exact ih.tick_slice_over hs (by omega) (sp n)

/-- The processor goes around the ring, a slice for each task, and in every round each task
gets exactly its slice. -/
theorem round_robin (s : Sched) (p : ℕ) (h : RoundRobin s p) (sp : ℕ → ℕ) :
    (∀ n, (ticks s sp n).currentTask = successor s (n/(10-p))) ∧
    ∀ i ∈ ring s, ∀ r, Nat.count
      (fun n => (ticks s sp (r*((ring s).length*(10-p))+n)).currentTask = i)
      ((ring s).length*(10-p)) = 10-p := by
  have hturn : ∀ n, (ticks s sp n).currentTask = successor s (n/(10-p)) :=
    fun n => (h.atTurn_ticks sp n).current
  refine ⟨hturn,fun i hi r => ?_⟩
  have hp := h.priority_le
  have hnodup : (ring s).Nodup := (ring_sorted s).imp Nat.ne_of_lt
  simp only [hturn]
  exact Rotation.count_around hnodup h.current_mem hi (by omega) r

/-- The kernel task and one more, both of priority 7. -/
def twoSharing : Sched := after boot [.taskCreate 4096 7 [],.taskSetPriority 0 7]

theorem twoSharing_roundRobin : RoundRobin twoSharing 7 where
  current_lt := by decide +kernel
  running := by decide +kernel
  others := by decide +kernel
  some_ready := ⟨1,by decide +kernel,by decide +kernel⟩
  priority_le := by decide
  equal := by decide +kernel

theorem round_robin_two_sharing :
    RoundRobin twoSharing 7 ∧
      (ticks twoSharing (fun _ => 8192) 7).currentTask = successor twoSharing (7/(10-7)) :=
  ⟨twoSharing_roundRobin,(round_robin twoSharing 7 twoSharing_roundRobin fun _ => 8192).1 7⟩

end Scheduler
end ValiantCore
