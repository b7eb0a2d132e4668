import ValiantCore.VfsPaths

/-! What `sys_write` hands to the disk: which sector it goes to, which other files have
data there, what of it has been scanned, and what can be read back. -/
namespace ValiantCore
namespace Vfs

open Fat32 (Sector Disk)

/-- The call is refused before it touches the disk. -/
def Refused (s : State) (fd : ℕ) (byte : ℕ → UInt8) (buf count : ℕ) : Prop :=
  badFd s fd = true ∨ readOnly s fd = true ∨ Security.securityScanBuffer byte buf count ≠ 0

theorem open_of_not_refused {s : State} {fd : ℕ} {byte : ℕ → UInt8} {buf count : ℕ}
    (h : ¬ Refused s fd byte buf count) : badFd s fd = false := by
  rw [← Bool.not_eq_true]
  exact fun hbad => h (Or.inl hbad)

theorem sysWrite_cases (s : State) (fd : ℕ) (byte : ℕ → UInt8) (buf count : ℕ) :
    (Refused s fd byte buf count ∧ ∃ e < 0, sysWrite s fd byte buf count = (s,e,[])) ∨
    (¬ Refused s fd byte buf count ∧ s.disk.fails s.disk.clock = true ∧
      sysWrite s fd byte buf count = ({ s with disk.clock := s.disk.clock+1 },eio,
        [⟨blockLba s fd,sectorAt byte buf,-1⟩])) ∨
    (¬ Refused s fd byte buf count ∧ s.disk.fails s.disk.clock = false ∧
      sysWrite s fd byte buf count =
        (advance { s with disk := (ataWrite250gb s.disk (blockLba s fd) (sectorAt byte buf)).1 } fd,512,
          [⟨blockLba s fd,sectorAt byte buf,0⟩])) := by
  by_cases hbad : badFd s fd = true
  · exact Or.inl ⟨Or.inl hbad,ebadf,by decide,by simp [sysWrite,hbad]⟩
  · by_cases hro : readOnly s fd = true
    · exact Or.inl ⟨Or.inr (Or.inl hro),eacces,by decide,by simp [sysWrite,hbad,hro]⟩
    · by_cases hscan : Security.securityScanBuffer byte buf count = 0
      · have hgo : ¬ Refused s fd byte buf count := by
          rintro (h | h | h)
          · exact hbad h
          · exact hro h
          · exact h hscan
        cases hf : s.disk.fails s.disk.clock with
        | true => exact Or.inr (Or.inl ⟨hgo,rfl,by simp [sysWrite,hbad,hro,hscan,ataWrite250gb,hf]⟩)
        | false => exact Or.inr (Or.inr ⟨hgo,rfl,by simp [sysWrite,hbad,hro,hscan,ataWrite250gb,hf]⟩)
      · exact Or.inl ⟨Or.inr (Or.inr hscan),eacces,by decide,by simp [sysWrite,hbad,hro,hscan]⟩

/-- No sector that the call hands to the disk holds a virus signature. -/
def SendsClean (s : State) (fd : ℕ) (byte : ℕ → UInt8) (buf count : ℕ) : Prop :=
  ∀ w ∈ (sysWrite s fd byte buf count).2.2,
    Security.virusDetected (Bytes.bytesAt w.data.byte 0 512) = false

theorem bytesAt_sectorAt (byte : ℕ → UInt8) (buf i n : ℕ) (h : i+n ≤ 512) :
    Bytes.bytesAt (sectorAt byte buf).byte i n = Bytes.bytesAt byte (buf+i) n := by
  induction n generalizing i with
  | zero => rfl
  | succ n ih =>
    have hi : i < 512 := by omega
    rw [Bytes.bytesAt,Bytes.bytesAt,ih (i+1) (by omega)]
    simp [Sector.byte,sectorAt,hi,Nat.add_assoc]

/-- `sys_write` scans `count` bytes and writes 512: what it writes is clean exactly when
it writes nothing or no signature reaches beyond the scanned bytes. -/
theorem sends_clean_iff (s : State) (fd : ℕ) (byte : ℕ → UInt8) (buf count : ℕ) :
    SendsClean s fd byte buf count ↔
      Refused s fd byte buf count ∨
      ∀ i, i+8 ≤ 512 → count < i+8 → Bytes.bytesAt byte (buf+i) 8 ∉ Security.virusSignatures := by
  have hclean : ¬ Refused s fd byte buf count →
      (Security.virusDetected (Bytes.bytesAt (sectorAt byte buf).byte 0 512) = false ↔
        ∀ i, i+8 ≤ 512 → count < i+8 → Bytes.bytesAt byte (buf+i) 8 ∉ Security.virusSignatures) := by
    intro hgo
    have hscan : Security.securityScanBuffer byte buf count = 0 := by
      by_contra hne
      exact hgo (Or.inr (Or.inr hne))
    rw [bytesAt_sectorAt byte buf 0 512 (by decide),Nat.add_zero,← Bool.not_eq_true,
      Security.virusDetected_bytesAt]
    constructor
    · exact fun hno i hi _ hsig => hno ⟨i,hi,hsig⟩
    · rintro htail ⟨i,hi,hsig⟩
      by_cases hin : i+8 ≤ count
      · exact Security.no_signature_of_scan hscan hin hsig
      · exact htail i hi (not_le.mp hin) hsig
  rcases sysWrite_cases s fd byte buf count with ⟨href,e,-,heq⟩ | ⟨hgo,-,heq⟩ | ⟨hgo,-,heq⟩
  · exact iff_of_true (by simp [SendsClean,heq]) (Or.inl href)
  · rw [SendsClean,heq,or_iff_right hgo,← hclean hgo]
    simp
  · rw [SendsClean,heq,or_iff_right hgo,← hclean hgo]
    simp

/-- A sector of zeros but for its end, which is the signature of a breakpoint sled. -/
def tailSignature : ℕ → UInt8 := fun i => if 4600 ≤ i then 0xCC else 0

/-- One byte is scanned, and the signature at the end of the sector is written. -/
theorem unscanned_tail_sent :
    ¬ SendsClean (after blankDisk [.sysOpen [0x2F,0x61] 0o101]) 3 tailSignature 4096 1 := by
  intro h
  rcases sysWrite_cases (after blankDisk [.sysOpen [0x2F,0x61] 0o101]) 3 tailSignature 4096 1 with
    ⟨href,-⟩ | ⟨-,hfail,-⟩ | ⟨-,-,heq⟩
  · exact absurd href (by unfold Refused; decide +kernel)
  · exact absurd hfail (by decide +kernel)
  · -- the window at 504 is the tail of the sector
    have hsig : Security.virusDetected
        (Bytes.bytesAt (sectorAt tailSignature 4096).byte 0 512) = true :=
      Security.virusDetected_bytesAt.mpr ⟨504,by decide,by decide +kernel⟩
    have hclean := h ⟨_,sectorAt tailSignature 4096,_⟩ (by rw [heq]; exact List.mem_singleton_self _)
    rw [hsig] at hclean
    exact Bool.noConfusion hclean

/-- A successful `sys_write`: the inode it wrote to, the number of the block in the file,
and the sector that was written. -/
structure BlockWrite where
  inode : ℕ
  block : ℕ
  sector : ℕ

def blockWrites (e : Runs.Event State Op Out) : List BlockWrite :=
  match e.op with
  | .sysWrite fd _ _ _ =>
    if e.out.ret = 512 then e.out.sent.map fun w =>
      ⟨(e.before.files fd).inodeIdx,(e.before.files fd).pos/512,sectorNumber w.lba⟩
    else []
  | _ => []

def stored (disk : Disk) (ops : List Op) : List BlockWrite :=
  (Runs.trace step (init (State.new disk)) ops).flatMap blockWrites

/-- No sector has been written through two different inodes. -/
def Isolated (ws : List BlockWrite) : Prop :=
  ∀ a ∈ ws, ∀ b ∈ ws, a.inode ≠ b.inode → a.sector ≠ b.sector

/-- A write that will succeed, of a block whose number and inode add up to those of a
block that another inode has already written. -/
def Overlaps (disk : Disk) (pre : List Op) : Op → Prop
  | .sysWrite fd byte buf count =>
    let s := after disk pre
    ¬ Refused s fd byte buf count ∧ s.disk.fails s.disk.clock = false ∧
      ∃ w ∈ stored disk pre, w.inode ≠ (s.files fd).inodeIdx ∧
        (w.inode+w.block)%2^48 = ((s.files fd).inodeIdx+(s.files fd).pos/512)%2^48
  | _ => False

theorem stored_concat (disk : Disk) (ops : List Op) (op : Op) :
    stored disk (ops++[op]) = stored disk ops++
      blockWrites ⟨after disk ops,op,(step (after disk ops) op).2⟩ := by
  simp [stored,Runs.trace_concat,after]

theorem Holding.blockLba {s : State} {names : List (List UInt8)} (h : Holding s names) {fd : ℕ}
    (hopen : badFd s fd = false) :
    blockLba s fd = 100+(s.files fd).inodeIdx+(s.files fd).pos/512 := by
  obtain ⟨name,isDir,hinode⟩ := h.openEntry hopen
  simp [Vfs.blockLba,hinode,entryInode]

/-- What a call writes to a file: nothing, or the block at the position of an open
descriptor. -/
theorem blockWrites_step {s : State} {names : List (List UInt8)} (h : Holding s names) (op : Op) :
    blockWrites ⟨s,op,(step s op).2⟩ = [] ∨
    ∃ fd byte buf count, op = .sysWrite fd byte buf count ∧ ¬ Refused s fd byte buf count ∧
      s.disk.fails s.disk.clock = false ∧
      blockWrites ⟨s,op,(step s op).2⟩ = [⟨(s.files fd).inodeIdx,(s.files fd).pos/512,
        sectorNumber (100+(s.files fd).inodeIdx+(s.files fd).pos/512)⟩] := by
  cases op with
  | sysWrite fd byte buf count =>
    rcases sysWrite_cases s fd byte buf count with ⟨-,e,he,heq⟩ | ⟨-,-,heq⟩ | ⟨hgo,hok,heq⟩
    · exact Or.inl (by simp [blockWrites,step,heq])
    · exact Or.inl (by simp [blockWrites,step,heq,eio])
    · exact Or.inr ⟨fd,byte,buf,count,rfl,hgo,hok,by
        simp [blockWrites,step,heq,h.blockLba (open_of_not_refused hgo)]⟩
  | _ => exact Or.inl rfl

theorem stored_sector (disk : Disk) (ops : List Op) :
    ∀ w ∈ stored disk ops, w.sector = sectorNumber (100+w.inode+w.block) := by
  induction ops using List.reverseRecOn with
  | nil => simp [stored]
  | append_singleton ops op ih =>
    intro w hw
    rw [stored_concat,List.mem_append] at hw
    rcases hw with hw | hw
    · exact ih w hw
    · rcases blockWrites_step (holding_after disk ops) op with hnil | ⟨fd,_,_,_,-,-,-,heq⟩
      · simp [hnil] at hw
      · rw [heq,List.mem_singleton] at hw
        rw [hw]

theorem sectorNumber_eq_iff (i b j c : ℕ) :
    sectorNumber (100+i+b) = sectorNumber (100+j+c) ↔ (i+b)%2^48 = (j+c)%2^48 := by
  unfold sectorNumber
  omega

theorem Isolated.concat {ws : List BlockWrite} {b : BlockWrite} (h : Isolated ws)
    (hb : ∀ w ∈ ws, w.inode ≠ b.inode → w.sector ≠ b.sector) : Isolated (ws++[b]) := by
  intro x hx y hy hxy
  rw [List.mem_append,List.mem_singleton] at hx hy
  rcases hx with hx | rfl
  · rcases hy with hy | rfl
    · exact h x hx y hy hxy
    · exact hb x hx hxy
  · rcases hy with hy | rfl
    · exact (hb y hy hxy.symm).symm
    · exact absurd rfl hxy

theorem isolated_step {disk : Disk} {pre : List Op} {op : Op} (h : Isolated (stored disk pre))
    (hop : ¬ Overlaps disk pre op) : Isolated (stored disk (pre++[op])) := by
  rw [stored_concat]
  rcases blockWrites_step (holding_after disk pre) op with hnil | ⟨fd,byte,buf,count,rfl,hgo,hok,heq⟩
  · simpa [hnil] using h
  · rw [heq]
    apply h.concat
    intro w hw hne hsec
    rw [stored_sector disk pre w hw,sectorNumber_eq_iff] at hsec
    exact hop ⟨hgo,hok,w,hw,hne,hsec⟩

theorem not_isolated_of_overlaps {disk : Disk} {pre : List Op} {op : Op}
    (hop : Overlaps disk pre op) : ¬ Isolated (stored disk (pre++[op])) := by
  intro hiso
  cases op with
  | sysWrite fd byte buf count =>
    obtain ⟨hgo,hok,w,hw,hne,hsum⟩ := hop
    rcases blockWrites_step (holding_after disk pre) (.sysWrite fd byte buf count) with
      hnil | ⟨fd',byte',buf',count',hcall,-,-,heq⟩
    · -- a call that is not refused and does not fail writes its block
      rcases sysWrite_cases (after disk pre) fd byte buf count with
        ⟨href,-⟩ | ⟨-,hfail,-⟩ | ⟨-,-,hdone⟩
      · exact hgo href
      · simp [hok] at hfail
      · simp [blockWrites,step,hdone] at hnil
    · cases hcall
      rw [stored_concat,heq] at hiso
      apply hiso w (List.mem_append_left _ hw) _
        (List.mem_append_right _ (List.mem_singleton_self _)) hne
      rw [stored_sector disk pre w hw,sectorNumber_eq_iff]
      exact hsum
  | _ => exact hop

/-- Over a run, no two successful writes to different files meet in a sector exactly when
no write is made to a block whose number and inode add up to those of a block of another
file that is already written, modulo the 48 bits of an LBA. -/
theorem isolated_iff (disk : Disk) (ops : List Op) :
    Runs.Always (fun pre => Isolated (stored disk pre)) ops ↔
      Runs.EveryStep (fun pre op => ¬ Overlaps disk pre op) ops := by
  apply Runs.always_iff_everyStep (R := fun pre => Isolated (stored disk pre))
  · simp [Isolated,stored]
  · exact fun pre op => isolated_step
  · exact fun pre h => h
  · exact fun pre op _ hiso hover => not_isolated_of_overlaps hover hiso

/-- Two blocks of `/a`, then the first block of `/c`, the next inode. -/
def neighbours : List Op :=
  [.sysOpen [0x2F,0x61] 0o101,.sysOpen [0x2F,0x63] 0o101,.sysWrite 3 (fun _ => 1) 4096 8,
    .sysWrite 3 (fun _ => 1) 4096 8,.sysWrite 4 (fun _ => 1) 4096 8]

theorem neighbours_overlap : ¬ Runs.Always (fun pre => Isolated (stored blankDisk pre)) neighbours := by
  intro h
  have hiso := h _ (List.prefix_refl _)
  unfold Isolated at hiso
  exact absurd hiso (by decide +kernel)

/-- In every state after `vfs_init` the recorded size of every open file is zero, so a
read ends at the end of the file. -/
theorem sysRead_empty (disk : Disk) (ops : List Op) (fd : ℕ) :
    sysRead (after disk ops) fd =
      (after disk ops,if badFd (after disk ops) fd then ebadf else 0,none) := by
  have h := holding_after disk ops
  generalize after disk ops = s at h
  cases hbad : badFd s fd with
  | true => simp [sysRead,hbad]
  | false =>
    obtain ⟨name,isDir,hinode⟩ := h.openEntry hbad
    simp [sysRead,hbad,hinode,entryInode]

/-- The memory that one call of `sys_write` reads. -/
structure Buffer where
  byte : ℕ → UInt8
  buf : ℕ
  count : ℕ

def Buffer.block (b : Buffer) : Sector := sectorAt b.byte b.buf

/-- A file is opened at its start, written block by block, and opened again. -/
def writeSession (path : List UInt8) (flags reflags fd : ℕ) (bs : List Buffer) : List Op :=
  .sysOpen path flags::bs.map (fun b => .sysWrite fd b.byte b.buf b.count)++[.sysOpen path reflags]

def results (s : State) (ops : List Op) : List Out := (Runs.trace step s ops).map fun e => e.out

/-- As many reads as there are blocks return them in order, and the next read returns 0. -/
def ReadsBack (s : State) (fd : ℕ) (bs : List Buffer) : Prop :=
  results s (List.replicate (bs.length+1) (.sysRead fd)) =
    bs.map (fun b => ⟨512,some b.block,[]⟩)++[⟨0,none,[]⟩]

theorem results_concat (s : State) (ops : List Op) (op : Op) :
    results s (ops++[op]) = results s ops++[(step (Runs.exec step s ops) op).2] := by
  simp [results,Runs.trace_concat]

/-- Nothing that has been written is ever read back: after every session in which all the
calls succeed, the first read already returns 0 and stores nothing. -/
theorem never_reads_back (disk : Disk) (ops : List Op) (path : List UInt8) (flags reflags fd fd' : ℕ)
    (bs : List Buffer) (hbs : bs ≠ [])
    (hcalls : (results (after disk ops) (writeSession path flags reflags fd bs)).map (fun o => o.ret) =
      (fd : ℤ)::bs.map (fun _ => 512)++[(fd' : ℤ)]) :
    (step (after disk (ops++writeSession path flags reflags fd bs)) (.sysRead fd')).2 = ⟨0,none,[]⟩ ∧
      ¬ ReadsBack (after disk (ops++writeSession path flags reflags fd bs)) fd' bs := by
  have hread : (step (after disk (ops++writeSession path flags reflags fd bs)) (.sysRead fd')).2 =
      ⟨0,none,[]⟩ := by
    have hlast := hcalls
    rw [writeSession,results_concat,List.map_append] at hlast
    have hret := List.head_eq_of_cons_eq (List.append_inj' hlast rfl).2
    rw [after,← Runs.exec_append] at hret
    have hopen := (sysOpen_returns (holding_after disk _) hret).2.2
    have hstate : after disk (ops++writeSession path flags reflags fd bs) =
        (sysOpen (after disk (ops++.sysOpen path flags::bs.map fun b =>
          .sysWrite fd b.byte b.buf b.count)) path reflags).1 := by
      rw [writeSession,← List.append_assoc,after_concat]
      rfl
    simp only [step]
    rw [sysRead_empty,hstate,hopen]
    rfl
  refine ⟨hread,fun hback => ?_⟩
  cases bs with
  | nil => exact hbs rfl
  | cons b bs =>
    rw [ReadsBack,List.length_cons,List.replicate_succ] at hback
    simp only [results,Runs.trace_cons,List.map_cons,List.cons_append,List.cons.injEq] at hback
    rw [hread] at hback
    simp at hback

/-- One block written to `/a` through descriptor 3; descriptor 4 finds the file empty. -/
theorem written_block_unread :
    ¬ ReadsBack (after blankDisk ([]++writeSession [0x2F,0x61] 0o101 0 3 [⟨fun _ => 1,4096,8⟩])) 4
      [⟨fun _ => 1,4096,8⟩] :=
  (never_reads_back blankDisk [] [0x2F,0x61] 0o101 0 3 4 [⟨fun _ => 1,4096,8⟩] (by simp)
    (by decide +kernel)).2

/-- The results of opening `/a`, writing a block, opening it again and reading. -/
theorem read_after_write_returns_zero :
    (results (init (State.new blankDisk)) (writeSession [0x2F,0x61] 0o101 0 3 [⟨fun _ => 1,4096,8⟩]++
      [.sysRead 4])).map (fun o => o.ret) = [3,512,4,0] := by
  decide +kernel

end Vfs
end ValiantCore
