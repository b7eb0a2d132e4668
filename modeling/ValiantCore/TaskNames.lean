import ValiantCore.SchedulerFields
import Mathlib.Data.List.GetD
import Mathlib.Data.List.TakeWhile

/-! The names of tasks over a run. `task_create` copies a name into the slot up to its end,
but writes no NUL behind a short one; an earlier, longer name of the slot shows through. -/
namespace ValiantCore
namespace Scheduler

/-- The characters of a C string: all before the first NUL. -/
def cString (bytes : List UInt8) : List UInt8 := bytes.takeWhile (· ≠ 0)

def Task.nameString (t : Task) : List UInt8 := cString t.name.bytes

theorem copyName_eq {n : ℕ} {name dst : List UInt8} (h : n ≤ dst.length) :
    copyName n name dst = (cString name).take n ++ dst.drop (min n (cString name).length) := by
  induction n generalizing name dst with
  | zero => simp [copyName]
  | succ n ih =>
    cases dst with
    | nil => simp at h
    | cons d dst =>
      cases name with
      | nil => simp [copyName,cString]
      | cons c name =>
        by_cases hc : c = 0
        · simp [copyName,cString,hc]
        · have hstring : cString (c::name) = c::cString name := by simp [cString,hc]
          rw [copyName,if_neg hc,ih (by simpa using h),hstring]
          simp [Nat.succ_min_succ]

theorem cString_append {a b : List UInt8} (h : ∀ c ∈ a, c ≠ 0) : cString (a++b) = a++cString b := by
  unfold cString
  exact List.takeWhile_append_of_pos fun c hc => by simpa using h c hc

theorem cString_eq_nil {c : UInt8} {bytes : List UInt8} : cString (c::bytes) = [] ↔ c = 0 := by
  simp [cString,List.takeWhile_cons]

theorem ne_zero_of_mem_cString {bytes : List UInt8} {c : UInt8} (h : c ∈ cString bytes) : c ≠ 0 := by
  simpa using List.mem_takeWhile_imp h

/-- The name of a slot after the copy, when it holds what was asked for: the new name is
cut off at the end of the field, or the old one has a NUL at the place where it ends. -/
theorem nameString_set (old : TaskName) (name : List UInt8) :
    cString (old.set name).bytes = (cString name).take 15 ↔
      15 ≤ (cString name).length ∨ old.bytes.getD (cString name).length 0 = 0 := by
  have hnonzero : ∀ c ∈ (cString name).take 15, c ≠ 0 :=
    fun c hc => ne_zero_of_mem_cString (List.mem_of_mem_take hc)
  have hcopy : (old.set name).bytes = ((cString name).take 15 ++
      old.bytes.drop (min 15 (cString name).length)).set 15 0 := by
    rw [TaskName.set]
    simp only [copyName_eq (show 15 ≤ old.bytes.length by simp [old.size])]
  rw [hcopy]
  by_cases hlong : 15 ≤ (cString name).length
  · have hdrop : (old.bytes.drop 15).length = 1 := by simp [old.size]
    obtain ⟨last,hlast⟩ := List.length_eq_one_iff.mp hdrop
    have hfull : ((cString name).take 15).length = 15 := by simp [hlong]
    rw [min_eq_left hlong,hlast,List.set_append_right _ _ hfull.le,hfull,cString_append hnonzero]
    exact iff_of_true (by simp [cString]) (Or.inl hlong)
  · have hshort : (cString name).length < 15 := not_le.mp hlong
    have hlt : (cString name).length < old.bytes.length := by rw [old.size]; omega
    obtain ⟨k,hk⟩ : ∃ k, 15-(cString name).length = k+1 := ⟨14-(cString name).length,by omega⟩
    rw [min_eq_right hshort.le,List.take_of_length_le hshort.le] at *
    rw [List.set_append_right _ _ hshort.le,cString_append hnonzero,List.drop_eq_getElem_cons hlt,hk,
      List.set_cons_succ,List.getD_eq_getElem _ _ hlt,List.append_right_eq_self,cString_eq_nil,
      or_iff_right hlong]

/-- A `task_create` that succeeds names the task in the slot it returns. -/
def named (given : ℕ → Option (List UInt8)) (e : Runs.Event Sched Op Out) : ℕ → Option (List UInt8) :=
  match e.op,e.out with
  | .taskCreate _ _ name,.int r => if r < 0 then given else Function.update given r.toNat (some name)
  | _,_ => given

/-- The name given to the latest task of each slot, if a task has been created there. -/
def givenNames (s : Sched) (ops : List Op) : ℕ → Option (List UInt8) :=
  (Runs.trace step (initScheduler s) ops).foldl named fun _ => none

/-- Every task has the first 15 characters of the name it was given. -/
def NamesAsGiven (s : Sched) (ops : List Op) : Prop :=
  ∀ i name, givenNames s ops i = some name →
    ((after s ops).tasks i).nameString = (cString name).take 15

/-- A task created under a short name in a slot whose name field has another character at
the place where the new name ends. -/
def ShowsThrough (s : Sched) : Op → Prop
  | .taskCreate entry _ name => s.taskCount < maxTasks ∧ entry ≠ 0 ∧
      ∃ i < maxTasks, s.stateOf i = .dead ∧ (∀ j < i, s.stateOf j ≠ .dead) ∧
        (cString name).length < 15 ∧ (s.tasks i).name.bytes.getD (cString name).length 0 ≠ 0
  | _ => False

theorem givenNames_concat (s : Sched) (ops : List Op) (op : Op) :
    givenNames s (ops++[op]) =
      named (givenNames s ops) ⟨after s ops,op,(step (after s ops) op).2⟩ := by
  simp [givenNames,Runs.trace_concat,after]

/-- What a creation does to the names: nothing when it fails, else the first dead slot
gets the new one. -/
theorem taskCreate_names (s : Sched) (given : ℕ → Option (List UInt8)) (entry priority : ℕ)
    (name : List UInt8) :
    (named given ⟨s,.taskCreate entry priority name,(step s (.taskCreate entry priority name)).2⟩ = given ∧
      (step s (.taskCreate entry priority name)).1 = s) ∨
    ∃ i < maxTasks, s.taskCount < maxTasks ∧ entry ≠ 0 ∧ s.stateOf i = .dead ∧
      (∀ j < i, s.stateOf j ≠ .dead) ∧
      named given ⟨s,.taskCreate entry priority name,(step s (.taskCreate entry priority name)).2⟩ =
        Function.update given i (some name) ∧
      ((step s (.taskCreate entry priority name)).1.tasks i).name = (s.tasks i).name.set name ∧
      ∀ j, j ≠ i → (step s (.taskCreate entry priority name)).1.tasks j = s.tasks j := by
  rcases taskCreate_cases s entry priority name with ⟨h,-⟩ | ⟨i,hi,hc,he,hd,hfirst,h⟩
  · exact Or.inl ⟨by simp [named,step,h],by simp [step,h]⟩
  · refine Or.inr ⟨i,hi,hc,he,hd,hfirst,by simp [named,step,h],by simp [step,h],?_⟩
    intro j hj
    simp [step,h,hj]

theorem names_frame {s : Sched} {op : Op} (h : ∀ entry priority name, op ≠ .taskCreate entry priority name)
    (given : ℕ → Option (List UInt8)) (i : ℕ) :
    named given ⟨s,op,(step s op).2⟩ = given ∧ ((step s op).1.tasks i).name = (s.tasks i).name := by
  have hcreate : ¬ Creates s i op := by
    intro hc
    cases op with
    | taskCreate entry priority name => exact h entry priority name rfl
    | _ => exact hc
  refine ⟨?_,step_frame (fun _ _ => rfl) hcreate (fun _ _ _ _ => rfl) (fun _ _ _ _ _ => rfl) ?_⟩
  · cases op with
    | taskCreate entry priority name => exact absurd rfl (h entry priority name)
    | _ => rfl
  · intro sp _
    exact scheduleNext_frame (fun _ _ => rfl) (fun _ _ => rfl) (fun _ _ => rfl) (fun _ _ => rfl) sp

theorem namesAsGiven_step {s : Sched} {pre : List Op} {op : Op} (h : NamesAsGiven s pre)
    (hop : ¬ ShowsThrough (after s pre) op) : NamesAsGiven s (pre++[op]) := by
  intro i name hname
  rw [givenNames_concat] at hname
  rw [after,Runs.exec_concat]
  change ((step (after s pre) op).1.tasks i).nameString = _
  by_cases hcreate : ∃ entry priority name, op = .taskCreate entry priority name
  · obtain ⟨entry,priority,given,rfl⟩ := hcreate
    rcases taskCreate_names (after s pre) (givenNames s pre) entry priority given with
      ⟨hsame,hstate⟩ | ⟨j,hj,hc,he,hd,hfirst,hgiven,hset,hothers⟩
    · rw [hsame] at hname
      rw [hstate]
      exact h i name hname
    · rw [hgiven] at hname
      by_cases hij : i = j
      · subst hij
        obtain rfl : given = name := by simpa using hname
        rw [Task.nameString,hset,nameString_set]
        by_contra hbad
        rw [not_or,not_le] at hbad
        exact hop ⟨hc,he,i,hj,hd,hfirst,hbad.1,hbad.2⟩
      · rw [Function.update_of_ne hij] at hname
        rw [hothers i hij]
        exact h i name hname
  · obtain ⟨hsame,hkept⟩ := names_frame (fun entry priority name heq => hcreate ⟨entry,priority,name,heq⟩)
      (givenNames s pre) i
    rw [hsame] at hname
    rw [Task.nameString,hkept]
    exact h i name hname

theorem not_namesAsGiven_of_showsThrough {s : Sched} {pre : List Op} {op : Op}
    (hop : ShowsThrough (after s pre) op) : ¬ NamesAsGiven s (pre++[op]) := by
  intro h
  cases op with
  | taskCreate entry priority name =>
    obtain ⟨hc,he,i,hi,hd,hfirst,hshort,hold⟩ := hop
    have hcreate := taskCreate_first hc he hi hd hfirst priority name
    have hgiven : named (givenNames s pre) ⟨after s pre,.taskCreate entry priority name,
        (step (after s pre) (.taskCreate entry priority name)).2⟩ =
        Function.update (givenNames s pre) i (some name) := by
      simp [named,step,hcreate]
    have hset : ((step (after s pre) (.taskCreate entry priority name)).1.tasks i).name =
        ((after s pre).tasks i).name.set name := by
      simp [step,hcreate]
    have hnew := h i name (by rw [givenNames_concat,hgiven,Function.update_self])
    rw [after,Runs.exec_concat] at hnew
    change ((step (after s pre) _).1.tasks i).nameString = _ at hnew
    rw [Task.nameString,hset,nameString_set] at hnew
    rcases hnew with hlong | hzero
    · omega
    · exact hold hzero
  | _ => exact hop

/-- Over a run every task has the name it was given exactly when none is created, under a name
of less than 15 characters, in a slot whose old name has a character where the new one ends. -/
theorem names_as_given_iff (s : Sched) (ops : List Op) :
    Runs.Always (fun pre => NamesAsGiven s pre) ops ↔
      Runs.EveryStep (fun pre op => ¬ ShowsThrough (after s pre) op) ops := by
  apply Runs.always_iff_everyStep (R := fun pre => NamesAsGiven s pre)
  · intro i name hname
    simp [givenNames] at hname
  · exact fun pre op => namesAsGiven_step
  · exact fun pre h => h
  · exact fun pre op _ h hop => not_namesAsGiven_of_showsThrough hop h

/-- The slot of the task `abc` is used again for a task `x`, which is then called `xbc`. -/
def reusedName : List Op :=
  [.taskCreate 4096 5 [0x61,0x62,0x63],.taskKill 1,.taskCreate 8192 5 [0x78]]

theorem old_name_shows_through :
    ((after boot reusedName).tasks 1).nameString = [0x78,0x62,0x63] ∧
      ¬ Runs.Always (fun pre => NamesAsGiven boot pre) reusedName := by
  have hname : ((after boot reusedName).tasks 1).nameString = [0x78,0x62,0x63] := by decide +kernel
  refine ⟨hname,fun h => ?_⟩
  have hgiven := h _ (List.prefix_refl _) 1 [0x78] (by decide +kernel)
  rw [hname] at hgiven
  exact absurd hgiven (by decide)

end Scheduler
end ValiantCore
