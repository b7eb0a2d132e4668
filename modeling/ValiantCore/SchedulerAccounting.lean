import ValiantCore.SchedulerInvariants

/-! The task counter against the task table, and the finality of a kill. Both hold
along a run exactly as long as no step takes one of a few named transitions that
leave `TASK_DEAD`, or count a death, without looking at the old state. -/
namespace ValiantCore
namespace Scheduler

def liveCount (s : Sched) : ℕ := Nat.count (fun i => s.stateOf i ≠ .dead) maxTasks

theorem liveCount_le (s : Sched) : liveCount s ≤ maxTasks := Nat.count_le _

theorem liveCount_congr {s t : Sched}
    (h : ∀ i < maxTasks, (t.stateOf i = .dead ↔ s.stateOf i = .dead)) :
    liveCount t = liveCount s :=
  Slots.count_congr fun i hi => not_congr (h i hi)

theorem liveCount_revive {s t : Sched} {i : ℕ} (hi : i < maxTasks) (hs : s.stateOf i = .dead)
    (ht : t.stateOf i ≠ .dead)
    (h : ∀ j < maxTasks, j ≠ i → (t.stateOf j = .dead ↔ s.stateOf j = .dead)) :
    liveCount t = liveCount s+1 := by
  have hch := Slots.count_change (p := fun j => s.stateOf j ≠ .dead)
    (q := fun j => t.stateOf j ≠ .dead) hi fun j hj hne => not_congr (h j hj hne)
  simpa [liveCount,hs,ht] using hch

theorem liveCount_die {s t : Sched} {i : ℕ} (hi : i < maxTasks) (hs : s.stateOf i ≠ .dead)
    (ht : t.stateOf i = .dead)
    (h : ∀ j < maxTasks, j ≠ i → (t.stateOf j = .dead ↔ s.stateOf j = .dead)) :
    liveCount t+1 = liveCount s :=
  (liveCount_revive hi ht hs fun j hj hne => (h j hj hne).symm).symm

theorem liveCount_pos {s : Sched} (h : s.stateOf 0 ≠ .dead) : 0 < liveCount s := by
  simpa [liveCount] using Nat.count_strict_mono (p := fun i => s.stateOf i ≠ .dead) h (by decide : 0 < maxTasks)

theorem liveCount_full {s : Sched} (h : liveCount s = maxTasks) {i : ℕ} (hi : i < maxTasks) :
    s.stateOf i ≠ .dead :=
  Nat.count_iff_forall.mp h i hi

theorem liveCount_init (s : Sched) : liveCount (initScheduler s) = 1 := by
  have hall : ∀ n, n < maxTasks → Nat.count (fun i => (initScheduler s).stateOf i ≠ .dead) (n+1) = 1 := by
    intro n hn
    induction n with
    | zero => simp [Nat.count_succ,initScheduler_stateOf s hn]
    | succ n ih =>
      rw [Nat.count_succ,ih (by omega),initScheduler_stateOf s hn]
      simp
  exact hall 511 (by decide)

theorem taskCount_step (s : Sched) (op : Op)
    (hcreate : ∀ entry priority name, op ≠ .taskCreate entry priority name)
    (hkill : ∀ id, op ≠ .taskKill id) : (step s op).1.taskCount = s.taskCount :=
  (step_leaves s op).2.1 hcreate hkill

/-- The steps that put counter and table out of step: a second death of one slot, and
the two ways a dead slot gets a live state without `task_create`. -/
def Miscounts (s : Sched) : Op → Prop
  | .taskKill id => 0 < id ∧ id < maxTasks ∧ s.stateOf id = .dead
  | .taskBlock id => id < maxTasks ∧ s.stateOf id = .dead
  | .scheduleNext _ => s.stateOf s.currentTask = .dead ∧ Preempts s
  | _ => False

theorem not_ready_of_dead {t : Task} (h : t.state = .dead) : ¬ ReadyAfterTick t := by
  rintro (hr | ⟨hs,-⟩)
  · simp [h] at hr
  · simp [h] at hs

theorem tick_dead (s : Sched) {i : ℕ} (hi : i < maxTasks) :
    (tick s).stateOf i = .dead ↔ s.stateOf i = .dead := by
  rw [tick_stateOf s hi,wake_state]
  split_ifs with h
  · simp [Sched.stateOf,h.1]
  · rfl

theorem scanned_alive {s : Sched} (h : Switches s) : s.stateOf (scanned s) ≠ .dead := by
  obtain ⟨hlt,hready⟩ := scanned_spec h.2
  rw [Ne,← tick_dead s hlt,hready]
  decide

/-- Apart from `task_create` and `task_kill`, a step that does not miscount leaves every
slot as dead or alive as it was. -/
theorem step_dead_iff {s : Sched} (hs : Sane s) (op : Op)
    (hcreate : ∀ entry priority name, op ≠ .taskCreate entry priority name)
    (hkill : ∀ id, op ≠ .taskKill id) (hop : ¬ Miscounts s op) {i : ℕ} (hi : i < maxTasks) :
    (step s op).1.stateOf i = .dead ↔ s.stateOf i = .dead := by
  rcases step_moves hs.current_lt op hi with heq | hm
  · rw [heq]
  · generalize hst : (step s op).1.stateOf i = st at hm
    cases hm with
    | create => exact absurd rfl (hcreate _ _ _)
    | kill => exact absurd rfl (hkill _)
    | sleep hd => simp [hd]
    | block => simpa using fun hd => hop ⟨hi,hd⟩
    | unblock hb => simp [hb]
    | deliver hb => simp [hb]
    | expire hsl => simp [hsl]
    | preempt hcur hsw =>
      subst hcur
      simpa using fun hd => hop ⟨hd,(switches_iff_preempts hi (not_ready_of_dead hd)).mp hsw⟩
    | dispatch hn hsw => simpa [hn] using scanned_alive hsw

def Counted (s : Sched) : Prop := s.taskCount = liveCount s

theorem counted_init (s : Sched) : Counted (initScheduler s) := (liveCount_init s).symm

theorem counted_create {s : Sched} (hc : Counted s) (entry priority : ℕ) (name : List UInt8) :
    Counted (taskCreate s entry priority name).1 := by
  rcases taskCreate_cases s entry priority name with ⟨h,-⟩ | ⟨i,hi,hlt,-,hd,-,h⟩
  · rw [h]; exact hc
  · have hlive : liveCount (taskCreate s entry priority name).1 = liveCount s+1 := by
      rw [h]
      exact liveCount_revive hi hd (by simp) (by intro j _ hne; simp [hne])
    have hroom : s.taskCount+1 < 4294967296 := by rw [maxTasks] at hlt; omega
    rw [Counted,hlive,h,← hc,setCount_taskCount,u32_succ hroom]

theorem taskKill_taskCount (s : Sched) {id : ℕ} (h0 : 0 < id) (hid : id < maxTasks) :
    (taskKill s id).taskCount = u32 (s.taskCount-1) := by
  simp [taskKill,hid.not_ge,h0.ne']

theorem Counted.pred {s : Sched} (hc : Counted s) (h0 : 0 < liveCount s) :
    u32 (s.taskCount-1) = liveCount s-1 := by
  have hle := liveCount_le s
  rw [hc,u32_pred h0 (by rw [maxTasks] at hle; omega)]

theorem counted_kill {s : Sched} (hc : Counted s) {id : ℕ}
    (hop : ¬ Miscounts s (.taskKill id)) : Counted (taskKill s id) := by
  by_cases hid : 0 < id ∧ id < maxTasks
  · obtain ⟨h0,hlt⟩ := hid
    have hd : s.stateOf id ≠ .dead := fun hd => hop ⟨h0,hlt,hd⟩
    have hlive : liveCount (taskKill s id)+1 = liveCount s :=
      liveCount_die hlt hd (by simp [taskKill_stateOf,h0,hlt])
        (by intro j _ hne; simp [taskKill_stateOf,hne])
    rw [Counted,taskKill_taskCount s h0 hlt,hc.pred (by omega)]
    omega
  · have h : taskKill s id = s := by
      unfold taskKill
      split_ifs
      · rfl
      · rfl
      · omega
    rw [h]; exact hc

theorem counted_step {s : Sched} (hs : Sane s) (hc : Counted s) {op : Op}
    (hop : ¬ Miscounts s op) : Counted (step s op).1 := by
  by_cases hcreate : ∃ entry priority name, op = .taskCreate entry priority name
  · obtain ⟨entry,priority,name,rfl⟩ := hcreate
    exact counted_create hc entry priority name
  · by_cases hkill : ∃ id, op = .taskKill id
    · obtain ⟨id,rfl⟩ := hkill
      exact counted_kill hc hop
    · have h1 : ∀ entry priority name, op ≠ .taskCreate entry priority name :=
        fun e p n h => hcreate ⟨e,p,n,h⟩
      have h2 : ∀ id, op ≠ .taskKill id := fun id h => hkill ⟨id,h⟩
      rw [Counted,taskCount_step s op h1 h2,hc]
      exact (liveCount_congr fun i hi => step_dead_iff hs op h1 h2 hop hi).symm

theorem not_counted_of_miscounts {s : Sched} (hs : Sane s) (hc : Counted s) {op : Op}
    (hop : Miscounts s op) : ¬ Counted (step s op).1 := by
  cases op with
  | taskKill id =>
    obtain ⟨h0,hlt,hd⟩ := hop
    have hlive : liveCount (taskKill s id) = liveCount s := by
      apply liveCount_congr
      intro i hi
      rw [taskKill_stateOf]
      split_ifs with h
      · simp [h.1,hd]
      · rfl
    have hpos := liveCount_pos hs.kernel_alive
    simp only [Counted,step]
    rw [taskKill_taskCount s h0 hlt,hc.pred hpos,hlive]
    omega
  | taskBlock id =>
    obtain ⟨hlt,hd⟩ := hop
    have hlive : liveCount (taskBlock s id) = liveCount s+1 :=
      liveCount_revive hlt hd (by simp [taskBlock_stateOf,hlt])
        (by intro j _ hne; simp [taskBlock_stateOf,hne])
    have hcount : (taskBlock s id).taskCount = s.taskCount := by
      simp [taskBlock,hlt.not_ge]
    simp only [Counted,step] at *
    omega
  | scheduleNext sp =>
    obtain ⟨hd,hpre⟩ := hop
    have hlt := hs.current_lt
    have hsw := (switches_iff_preempts hlt (not_ready_of_dead hd)).mpr hpre
    obtain ⟨-,hcount,hst⟩ := scheduleNext_switch hlt hsw sp
    have hlive : liveCount (scheduleNext s sp) = liveCount s+1 := by
      refine liveCount_revive hlt hd (by simp [hst,Ne.symm hsw.2]) ?_
      intro j hj hne
      rw [hst,if_neg hne]
      split_ifs with hn
      · simpa [hn] using scanned_alive hsw
      · exact tick_dead s hj
    simp only [Counted,step] at *
    omega
  | taskCreate entry priority name => exact hop.elim
  | taskSleep id ticks => exact hop.elim
  | taskSetPriority id priority => exact hop.elim
  | taskUnblock id => exact hop.elim
  | ipcSend fromId toId data len => exact hop.elim
  | ipcReceive id => exact hop.elim

/-- Counter and table agree, so task creation fails only when every slot is live. -/
def CountExact (s : Sched) : Prop :=
  Counted s ∧ ∀ entry priority name, entry ≠ 0 → (taskCreate s entry priority name).2 = -1 →
    ∀ i < maxTasks, s.stateOf i ≠ .dead

theorem countExact_of_counted {s : Sched} (hc : Counted s) : CountExact s := by
  refine ⟨hc,fun entry priority name he hr i hi => ?_⟩
  rcases taskCreate_cases s entry priority name with ⟨-,hfull | h0 | hnone⟩ | ⟨j,-,-,-,-,-,h⟩
  · have hle := liveCount_le s
    exact liveCount_full (le_antisymm hle (hc ▸ hfull)) hi
  · exact absurd h0 he
  · exact hnone i hi
  · rw [h] at hr
    simp only at hr
    omega

/-- The task counter is exact all along a run exactly when no step of it miscounts. -/
theorem taskCount_exact_iff (s : Sched) (ops : List Op) :
    Runs.Always (fun pre => CountExact (after s pre)) ops ↔
      Runs.EveryStep (fun pre op => ¬ Miscounts (after s pre) op) ops := by
  refine Runs.always_iff_everyStep (R := fun pre => Counted (after s pre)) (counted_init s) ?_ ?_ ?_ ops
  · intro pre op hc hop
    rw [after,Runs.exec_concat]
    exact counted_step (sane_after s pre) hc hop
  · intro pre hc
    exact countExact_of_counted hc
  · intro pre op hc hq hop
    rw [after,Runs.exec_concat] at hq
    exact not_counted_of_miscounts (sane_after s pre) hc hop hq.1

/-- Right after `init_scheduler`, killing the unused slot 5 leaves the counter at zero
while slot 0 is live. -/
theorem taskCount_drifts :
    ¬ Runs.Always (fun pre => CountExact (after boot pre)) [.taskKill 5] := by
  intro h
  have hc : Counted (after boot [.taskKill 5]) := (h _ (List.prefix_refl _)).1
  have hpos := liveCount_pos (sane_after boot [.taskKill 5]).kernel_alive
  rw [← hc] at hpos
  exact absurd hpos (by decide)

/-- Some step of the run is a `task_create` that returned `id`. -/
def Recreated (id : ℕ) (s : Sched) (ops : List Op) : Prop :=
  ∃ e ∈ Runs.trace step s ops,
    (∃ entry priority name, e.op = .taskCreate entry priority name) ∧ e.out = .int id

def Selects (s : Sched) (sp id : ℕ) : Prop :=
  s.currentTask ≠ id ∧ (scheduleNext s sp).currentTask = id

/-- As long as no `task_create` returned `id`, the slot is dead and not selected. -/
def DeathFinal (id : ℕ) (s : Sched) (ops : List Op) : Prop :=
  Runs.Always (fun pre => ¬ Recreated id s pre →
    (Runs.exec step s pre).stateOf id = .dead ∧ ∀ sp, ¬ Selects (Runs.exec step s pre) sp id) ops

/-- The steps that give a dead slot `id` a live state without creating a task in it. -/
def Revives (id : ℕ) (s : Sched) : Op → Prop
  | .taskBlock i => i = id
  | .scheduleNext _ => s.currentTask = id ∧ Preempts s
  | _ => False

theorem recreated_concat (id : ℕ) (s : Sched) (pre : List Op) (op : Op) :
    Recreated id s (pre++[op]) ↔ Recreated id s pre ∨
      ((∃ entry priority name, op = .taskCreate entry priority name) ∧
        (step (Runs.exec step s pre) op).2 = .int id) := by
  simp only [Recreated,Runs.trace_concat,List.mem_append,List.mem_singleton,or_and_right,
    exists_or,exists_eq_left]

theorem not_selects_of_dead {s : Sched} (hs : Sane s) {id : ℕ} (hd : s.stateOf id = .dead)
    (sp : ℕ) : ¬ Selects s sp id := by
  rintro ⟨hne,hsel⟩
  by_cases hsw : Switches s
  · rw [(scheduleNext_switch hs.current_lt hsw sp).1] at hsel
    exact scanned_alive hsw (hsel ▸ hd)
  · exact hne ((scheduleNext_stay hs.current_lt hsw sp).1.symm.trans hsel)

theorem dead_step {s : Sched} (hs : Sane s) {id : ℕ} (hid : id < maxTasks)
    (hd : s.stateOf id = .dead) {op : Op} (hop : ¬ Revives id s op)
    (hcr : ¬ ((∃ entry priority name, op = .taskCreate entry priority name) ∧
      (step s op).2 = .int id)) : (step s op).1.stateOf id = .dead := by
  rcases step_moves hs.current_lt op hid with heq | hm
  · rw [heq]; exact hd
  · generalize hst : (step s op).1.stateOf id = st at hm
    cases hm with
    | create _ hr => exact absurd ⟨⟨_,_,_,rfl⟩,congrArg Out.int hr⟩ hcr
    | kill => rfl
    | sleep hnd => exact absurd hd hnd
    | block => exact absurd rfl hop
    | unblock hb => simp [hd] at hb
    | deliver hb => simp [hd] at hb
    | expire hsl => simp [hd] at hsl
    | preempt hcur hsw =>
      subst hcur
      exact absurd ⟨rfl,(switches_iff_preempts hid (not_ready_of_dead hd)).mp hsw⟩ hop
    | dispatch hn hsw => exact absurd (hn ▸ hd) (scanned_alive hsw)

theorem alive_of_revives {s : Sched} {id : ℕ} (hid : id < maxTasks)
    (hd : s.stateOf id = .dead) {op : Op} (hop : Revives id s op) :
    (step s op).1.stateOf id ≠ .dead := by
  cases op with
  | taskBlock i =>
    obtain rfl : i = id := hop
    simp [step,taskBlock_stateOf,hid]
  | scheduleNext sp =>
    obtain ⟨rfl,hpre⟩ := hop
    have hsw := (switches_iff_preempts hid (not_ready_of_dead hd)).mpr hpre
    simp [step,(scheduleNext_switch hid hsw sp).2.2,Ne.symm hsw.2]
  | taskCreate entry priority name => exact hop.elim
  | taskKill i => exact hop.elim
  | taskSleep i ticks => exact hop.elim
  | taskSetPriority i priority => exact hop.elim
  | taskUnblock i => exact hop.elim
  | ipcSend fromId toId data len => exact hop.elim
  | ipcReceive i => exact hop.elim

theorem not_create_of_revives {s : Sched} {id : ℕ} {op : Op} (h : Revives id s op) :
    ¬ ∃ entry priority name, op = .taskCreate entry priority name := by
  rintro ⟨entry,priority,name,rfl⟩
  exact h

/-- After a kill of slot `id` at any point of any run, its death is final exactly when no
later step, before the slot is recreated, revives it. -/
theorem death_final_iff (s : Sched) (before : List Op) {id : ℕ} (h0 : 0 < id) (hid : id < maxTasks)
    (ops : List Op) :
    DeathFinal id (taskKill (after s before) id) ops ↔
      Runs.EveryStep (fun pre op => ¬ Recreated id (taskKill (after s before) id) pre →
        ¬ Revives id (Runs.exec step (taskKill (after s before) id) pre) op) ops := by
  have hsane : Sane (taskKill (after s before) id) :=
    sane_step (sane_after s before) (.taskKill id)
  have hdead : (taskKill (after s before) id).stateOf id = .dead := by
    simp [taskKill_stateOf,h0,hid]
  generalize taskKill (after s before) id = t at hsane hdead
  have hrun : ∀ pre, Sane (Runs.exec step t pre) := fun pre =>
    Runs.exec_invariant step Sane (fun _ op h => sane_step h op) hsane pre
  refine Runs.always_iff_everyStep
    (R := fun pre => ¬ Recreated id t pre → (Runs.exec step t pre).stateOf id = .dead)
    (fun _ => hdead) ?_ ?_ ?_ ops
  · intro pre op hR hP hn
    rw [recreated_concat,not_or] at hn
    rw [Runs.exec_concat]
    exact dead_step (hrun pre) hid (hR hn.1) (hP hn.1) hn.2
  · intro pre hR hn
    exact ⟨hR hn,fun sp => not_selects_of_dead (hrun pre) (hR hn) sp⟩
  · intro pre op hR hQ hn hrev
    have hn' : ¬ Recreated id t (pre++[op]) := by
      rw [recreated_concat,not_or]
      exact ⟨hn,fun h => not_create_of_revives hrev h.1⟩
    have hd := (hQ hn').1
    rw [Runs.exec_concat] at hd
    exact alive_of_revives hid (hR hn) hrev hd

theorem death_final_slot_one :
    DeathFinal 1 (taskKill (after boot [.taskCreate 4096 0 []]) 1)
      [.taskUnblock 1,.taskSleep 1 3,.taskKill 1] := by
  refine (death_final_iff boot [.taskCreate 4096 0 []] (by decide) (by decide) _).mpr ?_
  intro pre op hpre _
  have hop := Runs.mem_of_concat hpre
  simp only [List.mem_cons,List.not_mem_nil,or_false] at hop
  rcases hop with rfl | rfl | rfl <;> exact id

/-- A killed slot is blocked, and so alive again, with no task created in it. -/
theorem killed_task_blocked :
    ¬ DeathFinal 1 (taskKill (after boot [.taskCreate 4096 0 []]) 1) [.taskBlock 1] := by
  intro h
  have hn : ¬ Recreated 1 (taskKill (after boot [.taskCreate 4096 0 []]) 1) [.taskBlock 1] := by
    simp [Recreated]
  have hd := (h _ (List.prefix_refl _) hn).1
  rw [Runs.exec_cons,Runs.exec_nil,step,taskBlock_stateOf,if_pos (by decide)] at hd
  exact absurd hd (by decide)

end Scheduler
end ValiantCore
