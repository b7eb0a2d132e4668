import ValiantCore.SharedDisk

/-! Where `sys_sync` puts the inodes and where the blocks of files are. Both places are an
offset plus the number of the inode, 20 for the record and 100 for the first block. -/
namespace ValiantCore
namespace Vfs

open Fat32 (Sector Disk)

/-- The LBAs that `sys_sync` writes. -/
def syncLbas (s : State) (image : ℕ → Sector) : List ℕ := (sysSync s image).2.map Transfer.lba

def startBlocks (s : State) : List ℕ :=
  ((List.range maxInodes).filter fun i => (s.inodes i).isActive).map fun i => (s.inodes i).startBlock

/-- The LBA of a successful `sys_write`. -/
def dataLbas (e : Runs.Event State Op Out) : List ℕ :=
  match e.op with
  | .sysWrite _ _ _ _ => if e.out.ret = 512 then e.out.sent.map Transfer.lba else []
  | _ => []

def writeLbas (disk : Disk) (ops : List Op) : List ℕ :=
  (Runs.trace step (init (State.new disk)) ops).flatMap dataLbas

/-- A sync would write no first block of a file and no block that the run has written, where
`place` is what is looked at of an LBA: the number itself, or the sector that it selects. -/
def Harmless (place : ℕ → ℕ) (disk : Disk) (ops : List Op) : Prop :=
  ∀ image, ((syncLbas (after disk ops) image).map place).Disjoint
    ((startBlocks (after disk ops)++writeLbas disk ops).map place)

section Entries
variable {s : State} {names : List (List UInt8)}

theorem syncLbas_eq (h : Holding s names) (image : ℕ → Sector) :
    syncLbas s image = (List.range s.inodeCount).map (20+·) := by
  have hactive : ∀ i < s.inodeCount, (s.inodes i).isActive = true := fun i hi => (active_iff h i).mpr hi
  rw [syncLbas,sysSync,(SharedDisk.syncInodes_sent hactive).1,List.map_map]
  rfl

theorem mem_startBlocks (h : Holding s names) (a : ℕ) :
    a ∈ startBlocks s ↔ ∃ i < s.inodeCount, a = 100+i := by
  have hblock : ∀ i < s.inodeCount, (s.inodes i).startBlock = 100+i := by
    intro i hi
    obtain ⟨name,hname⟩ := h.getElem hi
    obtain ⟨isDir,hinode⟩ := h.entry i name hname
    rw [hinode]
    rfl
  simp only [startBlocks,List.mem_map,List.mem_filter,List.mem_range,active_iff h]
  constructor
  · rintro ⟨i,⟨-,hi⟩,rfl⟩
    exact ⟨i,hi,hblock i hi⟩
  · rintro ⟨i,hi,rfl⟩
    have hbound := h.bound
    rw [← h.count] at hbound
    exact ⟨i,⟨hi.trans_le hbound,hi⟩,hblock i hi⟩

end Entries

theorem writeLbas_concat (disk : Disk) (ops : List Op) (op : Op) :
    writeLbas disk (ops++[op]) = writeLbas disk ops++
      dataLbas ⟨after disk ops,op,(step (after disk ops) op).2⟩ := by
  simp [writeLbas,Runs.trace_concat,after]

theorem dataLbas_ge {s : State} {names : List (List UInt8)} (h : Holding s names) (op : Op) :
    ∀ a ∈ dataLbas ⟨s,op,(step s op).2⟩, 100 ≤ a := by
  cases op with
  | sysWrite fd byte buf count =>
    rcases sysWrite_cases s fd byte buf count with ⟨-,e,he,heq⟩ | ⟨-,-,heq⟩ | ⟨hgo,-,heq⟩
    · simp [dataLbas,step,heq]
    · simp [dataLbas,step,heq,eio]
    · simp only [dataLbas,step,heq,if_true,List.map_cons,List.map_nil,List.mem_singleton,forall_eq]
      rw [h.blockLba (open_of_not_refused hgo)]
      omega
  | _ => simp [dataLbas]

theorem writeLbas_ge (disk : Disk) (ops : List Op) : ∀ a ∈ writeLbas disk ops, 100 ≤ a := by
  induction ops using List.reverseRecOn with
  | nil => simp [writeLbas]
  | append_singleton ops op ih =>
    intro a ha
    rw [writeLbas_concat,List.mem_append] at ha
    rcases ha with ha | ha
    · exact ih a ha
    · exact dataLbas_ge (holding_after disk ops) op a ha

theorem harmless_iff {place : ℕ → ℕ} (hplace : ∀ a < 228, place a = a) (disk : Disk) (ops : List Op) :
    Harmless place disk ops ↔ (after disk ops).inodeCount ≤ 80 ∧
      ∀ a ∈ writeLbas disk ops, ¬ (20 ≤ place a ∧ place a < 20+(after disk ops).inodeCount) := by
  have h := holding_after disk ops
  have hcount : (after disk ops).inodeCount ≤ 128 := h.count.trans_le h.bound
  have hsync : ∀ image, (syncLbas (after disk ops) image).map place =
      (List.range (after disk ops).inodeCount).map (20+·) := by
    intro image
    rw [syncLbas_eq h,List.map_map]
    apply List.map_congr_left
    intro i hi
    have := List.mem_range.mp hi
    exact hplace (20+i) (by omega)
  constructor
  · intro hharmless
    have hapart := hharmless fun _ => ⟨fun _ => 0⟩
    rw [hsync] at hapart
    refine ⟨?_,fun a ha hplaced => ?_⟩
    · by_contra hmany
      refine hapart (List.mem_map.mpr ⟨80,List.mem_range.mpr (by omega),rfl⟩)
        (List.mem_map.mpr ⟨100,List.mem_append_left _ ((mem_startBlocks h 100).mpr ⟨0,by omega,rfl⟩),?_⟩)
      exact hplace 100 (by omega)
    · refine hapart (List.mem_map.mpr ⟨place a-20,List.mem_range.mpr (by omega),?_⟩)
        (List.mem_map.mpr ⟨a,List.mem_append_right _ ha,rfl⟩)
      omega
  · rintro ⟨hfew,hwrites⟩ image b hb hb'
    rw [hsync,List.mem_map] at hb
    obtain ⟨i,hi,rfl⟩ := hb
    rw [List.mem_range] at hi
    obtain ⟨a,ha,hplaced⟩ := List.mem_map.mp hb'
    rcases List.mem_append.mp ha with ha | ha
    · obtain ⟨j,hj,rfl⟩ := (mem_startBlocks h a).mp ha
      rw [hplace (100+j) (by omega)] at hplaced
      omega
    · exact hwrites a ha (by omega)

/-- A sync keeps away from the LBAs of files exactly as long as there are at most 80 inodes;
from the sectors of files, when also no block was written so far behind the end of the disk
that its LBA selects the sector of a record. -/
theorem sync_harmless_iff (disk : Disk) (ops : List Op) :
    (Harmless id disk ops ↔ (after disk ops).inodeCount ≤ 80) ∧
      (Harmless sectorNumber disk ops ↔ (after disk ops).inodeCount ≤ 80 ∧
        ∀ a ∈ writeLbas disk ops,
          ¬ (20 ≤ sectorNumber a ∧ sectorNumber a < 20+(after disk ops).inodeCount)) := by
  constructor
  · refine (harmless_iff (fun _ _ => rfl) disk ops).trans (and_iff_left_of_imp ?_)
    rintro hfew a ha ⟨-,hlt⟩
    have hge := writeLbas_ge disk ops a ha
    change a < _ at hlt
    omega
  · apply harmless_iff
    intro a ha
    exact Nat.mod_eq_of_lt (by omega)

/-- The root directory is opened and written, and then directories `/AA`, `/AB` and so on
are made, 74 of them. -/
def crowded : List Op :=
  [.sysOpen [0x2F] 2,.sysWrite 3 (fun _ => 1) 4096 8]++
    (List.range 74).map fun k => .sysMkdir [0x2F,0x41+UInt8.ofNat (k/26),0x41+UInt8.ofNat (k%26)]

theorem root_block_overwritten : ¬ Harmless id blankDisk crowded := by
  intro h
  have hfew := ((harmless_iff (fun _ _ => rfl) blankDisk crowded).mp h).1
  exact absurd hfew (by decide +kernel)

end Vfs
end ValiantCore
