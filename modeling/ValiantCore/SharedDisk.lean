import ValiantCore.VfsStorage

/-! The FAT32 volume and the virtual file system on one disk. `kmain` mounts the volume
first and calls `vfs_init` after it; neither knows which sectors the other uses. -/
namespace ValiantCore
namespace SharedDisk

open Fat32 (Sector Disk)
open Vfs (Op Out Refused Holding sectorNumber)

def written (e : Runs.Event Vfs.State Op Out) : List ℕ :=
  (e.out.sent.filter fun w => w.result = 0).map fun w => sectorNumber w.lba

def writtenSectors (disk : Disk) (ops : List Op) : List ℕ :=
  (Runs.trace Vfs.step (Vfs.init (Vfs.State.new disk)) ops).flatMap written

def InVolume (v : Fat32.State) (n : ℕ) : Prop := v.fatStart ≤ n ∧ n < v.bpb.totSec32

instance (v : Fat32.State) (n : ℕ) : Decidable (InVolume v n) := by
  unfold InVolume
  infer_instance

/-- The run has written no sector of the volume, and their content is what it was. -/
structure Unharmed (v : Fat32.State) (ops : List Op) : Prop where
  avoided : ∀ n ∈ writtenSectors v.disk ops, ¬ InVolume v n
  content : ∀ n, InVolume v n → (Vfs.after v.disk ops).disk.sector n = v.disk.sector n

/-- The call transfers a sector to place `n` of the disk: a write the block of an open
descriptor, a sync the record of each inode. -/
def Targets (s : Vfs.State) (n : ℕ) : Op → Prop
  | .sysWrite fd byte buf count => ¬ Refused s fd byte buf count ∧
      s.disk.fails s.disk.clock = false ∧
      n = sectorNumber (100+(s.files fd).inodeIdx+(s.files fd).pos/512)
  | .sysSync _ => ∃ i < s.inodeCount, s.disk.fails (s.disk.clock+i) = false ∧ n = 20+i
  | _ => False

/-- The call transfers a sector into the volume. -/
def Clobbers (v : Fat32.State) (pre : List Op) (op : Op) : Prop :=
  ∃ n, InVolume v n ∧ Targets (Vfs.after v.disk pre) n op

theorem writtenSectors_concat (disk : Disk) (ops : List Op) (op : Op) :
    writtenSectors disk (ops++[op]) = writtenSectors disk ops++
      written ⟨Vfs.after disk ops,op,(Vfs.step (Vfs.after disk ops) op).2⟩ := by
  simp [writtenSectors,Runs.trace_concat,Vfs.after]

theorem syncInodes_sent {s : Vfs.State} {image : ℕ → Sector} {n : ℕ}
    (hactive : ∀ i < n, (s.inodes i).isActive = true) :
    (Vfs.syncInodes s image n).2 = (List.range n).map (fun i =>
        ⟨20+i,image i,if s.disk.fails (s.disk.clock+i) then -1 else 0⟩) ∧
      (Vfs.syncInodes s image n).1.disk.fails = s.disk.fails ∧
      (Vfs.syncInodes s image n).1.disk.clock = s.disk.clock+n := by
  induction n with
  | zero => exact ⟨rfl,rfl,rfl⟩
  | succ n ih =>
    obtain ⟨hsent,hfails,hclock⟩ := ih fun i hi => hactive i (by omega)
    have hinodes : (Vfs.syncInodes s image n).1.inodes = s.inodes := by
      rw [Vfs.syncInodes_frame]
    rw [Vfs.syncInodes]
    simp only [hinodes,hactive n (by omega),if_true]
    rw [hsent,List.range_succ,List.map_append]
    cases hf : s.disk.fails (s.disk.clock+n) <;>
      simp [Vfs.ataWrite250gb,hfails,hclock,hf,Nat.add_assoc]

theorem mem_written {s : Vfs.State} {names : List (List UInt8)} (h : Holding s names) (op : Op)
    (n : ℕ) : n ∈ written ⟨s,op,(Vfs.step s op).2⟩ ↔ Targets s n op := by
  cases op with
  | sysWrite fd byte buf count =>
    rcases Vfs.sysWrite_cases s fd byte buf count with ⟨href,e,-,heq⟩ | ⟨hgo,hfail,heq⟩ | ⟨hgo,hok,heq⟩
    · simp [written,Targets,Vfs.step,heq,href]
    · simp [written,Targets,Vfs.step,heq,hfail]
    · simp [written,Targets,Vfs.step,heq,hgo,hok,h.blockLba (Vfs.open_of_not_refused hgo)]
  | sysSync image =>
    have hactive : ∀ i < s.inodeCount, (s.inodes i).isActive = true :=
      fun i hi => (Vfs.active_iff h i).mpr hi
    have hsmall : ∀ i < s.inodeCount, sectorNumber (20+i) = 20+i := by
      intro i hi
      have hbound := h.bound
      rw [← h.count,Vfs.maxInodes] at hbound
      exact Nat.mod_eq_of_lt (by omega)
    simp only [written,Vfs.step,Vfs.sysSync,(syncInodes_sent hactive).1,List.mem_map,List.mem_filter,
      List.mem_range,Targets]
    constructor
    · rintro ⟨w,⟨⟨i,hi,rfl⟩,hok⟩,rfl⟩
      refine ⟨i,hi,?_,hsmall i hi⟩
      cases hf : s.disk.fails (s.disk.clock+i) with
      | true => simp [hf] at hok
      | false => rfl
    · rintro ⟨i,hi,hok,rfl⟩
      exact ⟨_,⟨⟨i,hi,rfl⟩,by simp [hok]⟩,hsmall i hi⟩
  | _ => simp [written,Targets,Vfs.step]

theorem ataWrite_sector (d : Disk) (lba : ℕ) (data : Sector) {n : ℕ}
    (h : (Vfs.ataWrite250gb d lba data).2 = 0 → n ≠ sectorNumber lba) :
    (Vfs.ataWrite250gb d lba data).1.sector n = d.sector n := by
  unfold Vfs.ataWrite250gb at *
  split_ifs at *
  · rfl
  · exact Function.update_of_ne (h rfl) _ _

theorem syncInodes_sector (s : Vfs.State) (image : ℕ → Sector) {n k : ℕ}
    (h : ∀ w ∈ (Vfs.syncInodes s image k).2, w.result = 0 → n ≠ sectorNumber w.lba) :
    (Vfs.syncInodes s image k).1.disk.sector n = s.disk.sector n := by
  induction k with
  | zero => rfl
  | succ k ih =>
    rw [Vfs.syncInodes] at h ⊢
    dsimp only at h ⊢
    split_ifs at h ⊢
    · have hold := ih fun w hw => h w (List.mem_append_left _ hw)
      rw [← hold]
      exact ataWrite_sector _ _ _ (h _ (List.mem_append_right _ (List.mem_singleton_self _)))
    · exact ih h

theorem openInode_disk (s : Vfs.State) (idx flags : ℕ) :
    (Vfs.openInode s idx flags).1.disk = s.disk := by
  rcases Vfs.openInode_cases s idx flags with ⟨h,-⟩ | ⟨fd,-,-,-,h⟩ <;> simp [h]

theorem init_disk (s : Vfs.State) : (Vfs.init s).disk = s.disk :=
  Vfs.createEntries_frame Vfs.State.disk (fun s path isDir => (Vfs.createEntry_frame s path isDir).1) _ _

theorem step_sector {s : Vfs.State} {names : List (List UInt8)} (h : Holding s names) (op : Op) {n : ℕ}
    (hn : n ∉ written ⟨s,op,(Vfs.step s op).2⟩) :
    (Vfs.step s op).1.disk.sector n = s.disk.sector n := by
  cases op with
  | sysOpen path flags =>
    simp only [Vfs.step]
    rcases Vfs.sysOpen_cases h path flags with ⟨idx,-,-,heq⟩ | ⟨-,-,-,heq⟩ | ⟨e,-,heq,-⟩
    · rw [heq,openInode_disk]
    · rw [heq,openInode_disk]
      rfl
    · rw [heq]
  | sysMkdir path =>
    simp only [Vfs.step,Vfs.sysMkdir,Vfs.createEntry]
    split_ifs <;> rfl
  | sysClose fd =>
    simp only [Vfs.step,Vfs.sysClose]
    split_ifs <;> rfl
  | sysRead fd =>
    simp only [Vfs.step,Vfs.sysRead,Vfs.advance,Vfs.ataRead250gb]
    split_ifs <;> rfl
  | sysLseek fd offset whence =>
    simp only [Vfs.step,Vfs.sysLseek]
    split_ifs <;> rfl
  | sysWrite fd byte buf count =>
    rcases Vfs.sysWrite_cases s fd byte buf count with ⟨-,e,-,heq⟩ | ⟨-,-,heq⟩ | ⟨-,-,heq⟩
    · simp [Vfs.step,heq]
    · simp [Vfs.step,heq]
    · simp only [Vfs.step,heq,Vfs.advance,Vfs.setFile_disk]
      apply ataWrite_sector
      rintro - rfl
      exact hn (by simp [written,Vfs.step,heq])
  | sysSync image =>
    simp only [Vfs.step,Vfs.sysSync]
    apply syncInodes_sector
    rintro w hw hok rfl
    exact hn (List.mem_map.mpr ⟨w,List.mem_filter.mpr ⟨hw,by simp [hok]⟩,rfl⟩)

theorem unharmed_nil (v : Fat32.State) : Unharmed v [] where
  avoided := by simp [writtenSectors]
  content := by
    intro n _
    rw [Vfs.after,Runs.exec_nil,init_disk]
    rfl

theorem unharmed_step {v : Fat32.State} {pre : List Op} {op : Op} (hv : Unharmed v pre)
    (hop : ¬ Clobbers v pre op) : Unharmed v (pre++[op]) := by
  have h := Vfs.holding_after v.disk pre
  have hnew : ∀ n, InVolume v n →
      n ∉ written ⟨Vfs.after v.disk pre,op,(Vfs.step (Vfs.after v.disk pre) op).2⟩ :=
    fun n hn hmem => hop ⟨n,hn,(mem_written h op n).mp hmem⟩
  constructor
  · intro n hmem hn
    rw [writtenSectors_concat,List.mem_append] at hmem
    rcases hmem with hmem | hmem
    · exact hv.avoided n hmem hn
    · exact hnew n hn hmem
  · intro n hn
    rw [Vfs.after_concat,step_sector h op (hnew n hn),hv.content n hn]

theorem not_unharmed_of_clobbers {v : Fat32.State} {pre : List Op} {op : Op}
    (hop : Clobbers v pre op) : ¬ Unharmed v (pre++[op]) := by
  intro hv
  obtain ⟨n,hn,htarget⟩ := hop
  have hmem := (mem_written (Vfs.holding_after v.disk pre) op n).mpr htarget
  apply hv.avoided n _ hn
  rw [writtenSectors_concat]
  exact List.mem_append_right _ hmem

/-- After `fat32_init`, whatever it has found on the disk, a run of the virtual file system
leaves the volume alone exactly when none of its transfers is made into it. -/
theorem unharmed_iff (f : Fat32.State) (ops : List Op) :
    Runs.Always (fun pre => Unharmed (Fat32.init f).1 pre) ops ↔
      Runs.EveryStep (fun pre op => ¬ Clobbers (Fat32.init f).1 pre op) ops := by
  apply Runs.always_iff_everyStep (R := fun pre => Unharmed (Fat32.init f).1 pre)
  · exact unharmed_nil _
  · exact fun pre op => unharmed_step
  · exact fun pre hv => hv
  · exact fun pre op _ hv hop => not_unharmed_of_clobbers hop hv

/-- A boot sector as formatting tools write it: 32 reserved sectors, two FATs of 64
sectors, and 8192 sectors in all. -/
def bootSector : Sector where
  get i :=
    if i.val = 13 then 1
    else if i.val = 14 then 32
    else if i.val = 16 then 2
    else if i.val = 33 then 32
    else if i.val = 36 then 64
    else if i.val = 44 then 2
    else if i.val = 66 then 0x29
    else 0

/-- The driver before `fat32_init`, and a disk that holds this sector everywhere. -/
def formatted : Fat32.State where
  bpb := ⟨0,0,0,0,0,0,0⟩
  fatStart := 0
  dataStart := 0
  rootCluster := 0
  secPerClus := 0
  initialized := false
  files _ := ⟨0,0,0,0,false,false⟩
  sectorBuf := ⟨fun _ => 0⟩
  disk := ⟨fun _ => bootSector,fun _ => false,0⟩

/-- The volume is accepted, and the first block of the first new file goes into its FAT. -/
theorem write_clobbers_fat : (Fat32.init formatted).2.1 = 0 ∧
    ¬ Runs.Always (fun pre => Unharmed (Fat32.init formatted).1 pre)
      [.sysOpen [0x2F,0x61] 0o101,.sysWrite 3 (fun _ => 1) 4096 8] := by
  refine ⟨by decide +kernel,fun h => ?_⟩
  have hv := h _ (List.prefix_refl _)
  exact hv.avoided 107 (by decide +kernel) (by decide +kernel)

end SharedDisk
end ValiantCore
