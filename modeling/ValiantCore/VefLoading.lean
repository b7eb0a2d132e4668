import ValiantCore.MemoryPolicy
import ValiantCore.VefLoader

/-! The load loop of `vef_exec` on a flat memory. Where it stores is chosen by the file, so
the header it reads its bound from and the payload it has yet to copy may lie under its
destination; and nobody asks the memory policy about the destination. -/
namespace ValiantCore
namespace VefLoader

open Bytes SecurityEngine

/-- The checks a file has to pass before it is loaded. -/
structure Accepted (build : Build) (byte : ℕ → UInt8) (buf size : ℕ) : Prop where
  buf_ne : buf ≠ 0
  size_ge : headerSize ≤ size
  magic : (readHeader byte buf).magic = VefPack.magic
  arch : (readHeader byte buf).arch = build.currentArch
  fits : (readHeader byte buf).textSize+headerSize ≤ size
  scanned : Security.securityScanBuffer byte (buf+headerSize) (readHeader byte buf).textSize = 0

theorem vefExec_running_iff {build : Build} {byte loaded : ℕ → UInt8} {buf size entry textSize : ℕ} :
    vefExec build byte buf size = .running loaded entry textSize ↔
      Accepted build byte buf size ∧
        loaded = copyPayload build.addrBits buf (readHeader byte buf).entryPoint byte 0 ∧
        entry = field loaded (buf+5) 4 ∧ textSize = textSizeAt loaded buf := by
  constructor
  · intro h
    dsimp only [vefExec] at h
    by_cases hnull : buf = 0 ∨ size < headerSize
    · simp [hnull] at h
    rw [if_neg hnull] at h
    by_cases hmagic : (readHeader byte buf).magic = VefPack.magic
    swap
    · simp [hmagic] at h
    rw [if_neg (not_not.mpr hmagic)] at h
    by_cases harch : (readHeader byte buf).arch = build.currentArch
    swap
    · simp [harch] at h
    rw [if_neg (not_not.mpr harch)] at h
    by_cases hfits : (readHeader byte buf).textSize+headerSize > size
    · simp [hfits] at h
    rw [if_neg hfits] at h
    by_cases hscan : Security.securityScanBuffer byte (buf+headerSize) (readHeader byte buf).textSize = 0
    swap
    · simp [hscan,scanFailed] at h
    rw [if_neg (not_not.mpr hscan)] at h
    obtain ⟨rfl,rfl,rfl⟩ := Outcome.running.inj h
    rw [not_or] at hnull
    exact ⟨⟨hnull.1,not_lt.mp hnull.2,hmagic,harch,not_lt.mp hfits,hscan⟩,rfl,rfl,rfl⟩
  · rintro ⟨h,rfl,rfl,rfl⟩
    have hnull : ¬ (buf = 0 ∨ size < headerSize) := fun hor => hor.elim h.buf_ne h.size_ge.not_gt
    dsimp only [vefExec]
    rw [if_neg hnull,if_neg (not_not.mpr h.magic),if_neg (not_not.mpr h.arch),if_neg h.fits.not_gt,
      if_neg (not_not.mpr h.scanned)]

section Loop
variable (addrBits hdr loadAddr : ℕ) (byte : ℕ → UInt8)

/-- The addresses the load loop reads from turn `i` on: the bound of the loop in the
header, and the byte it copies. -/
def loopReads (byte : ℕ → UInt8) (i : ℕ) : List ℕ :=
  [hdr+9,hdr+10,hdr+11,hdr+12]++
    if i < textSizeAt byte hdr then
      (hdr+headerSize+i)::loopReads
        (Function.update byte ((loadAddr+i)%2^addrBits) (byte (hdr+headerSize+i))) (i+1)
    else []
termination_by 256^4-i
decreasing_by
  have hlt := field_lt byte (hdr+9) 4
  have hi : i < field byte (hdr+9) 4 := by assumption
  omega

def turned : ℕ → ℕ → UInt8
  | 0 => byte
  | i+1 => Function.update (turned i) ((loadAddr+i)%2^addrBits) (turned i (hdr+headerSize+i))

end Loop

section Turns
variable {addrBits hdr loadAddr : ℕ} {byte : ℕ → UInt8}

theorem turned_succ_dest (i : ℕ) :
    turned addrBits hdr loadAddr byte (i+1) ((loadAddr+i)%2^addrBits) =
      turned addrBits hdr loadAddr byte i (hdr+headerSize+i) := Function.update_self ..

theorem turned_succ_of_ne {i a : ℕ} (h : a ≠ (loadAddr+i)%2^addrBits) :
    turned addrBits hdr loadAddr byte (i+1) a = turned addrBits hdr loadAddr byte i a :=
  Function.update_of_ne h ..

theorem turned_of_fresh {i a : ℕ} (h : ∀ j < i, a ≠ (loadAddr+j)%2^addrBits) :
    turned addrBits hdr loadAddr byte i a = byte a := by
  induction i with
  | zero => rfl
  | succ i ih =>
    rw [turned_succ_of_ne (h i (Nat.lt_succ_self i))]
    exact ih fun j hj => h j (Nat.lt_succ_of_lt hj)

theorem dest_injective {i j : ℕ} (hij : i < j) (hlap : j < 2^addrBits) :
    (loadAddr+i)%2^addrBits ≠ (loadAddr+j)%2^addrBits := by
  intro heq
  have hdvd := Nat.sub_mod_eq_zero_of_mod_eq heq.symm
  rw [Nat.add_sub_add_left,Nat.mod_eq_of_lt (by omega)] at hdvd
  omega

theorem turned_dest {j n : ℕ} (hj : j < n) (hlap : n ≤ 2^addrBits) :
    turned addrBits hdr loadAddr byte n ((loadAddr+j)%2^addrBits) =
      turned addrBits hdr loadAddr byte j (hdr+headerSize+j) := by
  induction n with
  | zero => omega
  | succ n ih =>
    rcases Nat.lt_succ_iff_lt_or_eq.mp hj with hlt | heq
    · rw [turned_succ_of_ne (dest_injective hlt (by omega)),ih hlt (by omega)]
    · subst heq
      exact turned_succ_dest j

theorem turned_first_or_last {i n a : ℕ} (hi : i ≤ n) (hlap : n ≤ 2^addrBits) :
    turned addrBits hdr loadAddr byte i a = byte a ∨
      turned addrBits hdr loadAddr byte i a = turned addrBits hdr loadAddr byte n a := by
  by_cases hfresh : ∀ j < i, a ≠ (loadAddr+j)%2^addrBits
  · exact .inl (turned_of_fresh hfresh)
  · push Not at hfresh
    obtain ⟨j,hj,rfl⟩ := hfresh
    right
    rw [turned_dest hj (hi.trans hlap),turned_dest (hj.trans_le hi) hlap]

theorem mem_loopReads {i a : ℕ} :
    a ∈ loopReads addrBits hdr loadAddr byte i ↔ (hdr+9 ≤ a ∧ a < hdr+headerSize) ∨
      i < textSizeAt byte hdr ∧ (a = hdr+headerSize+i ∨ a ∈ loopReads addrBits hdr loadAddr
        (Function.update byte ((loadAddr+i)%2^addrBits) (byte (hdr+headerSize+i))) (i+1)) := by
  rw [loopReads,List.mem_append]
  apply or_congr
  · simp only [List.mem_cons,List.not_mem_nil,or_false,headerSize]
    omega
  · split_ifs with hi
    · rw [List.mem_cons,and_iff_right hi]
    · simp [hi]

theorem copyPayload_turns (addrBits hdr loadAddr : ℕ) (byte : ℕ → UInt8) (i : ℕ) :
    ∃ n, i ≤ n ∧
      copyPayload addrBits hdr loadAddr (turned addrBits hdr loadAddr byte i) i =
        turned addrBits hdr loadAddr byte n ∧
      (∀ j, i ≤ j → j < n → j < textSizeAt (turned addrBits hdr loadAddr byte j) hdr) ∧
      textSizeAt (turned addrBits hdr loadAddr byte n) hdr ≤ n ∧
      ∀ a ∈ loopReads addrBits hdr loadAddr (turned addrBits hdr loadAddr byte i) i,
        (hdr+9 ≤ a ∧ a < hdr+headerSize) ∨ ∃ j, j < n ∧ a = hdr+headerSize+j := by
  rw [copyPayload]
  by_cases hi : i < textSizeAt (turned addrBits hdr loadAddr byte i) hdr
  · obtain ⟨n,hin,hcopy,hturns,hstop,hreads⟩ := copyPayload_turns addrBits hdr loadAddr byte (i+1)
    refine ⟨n,by omega,?_,?_,hstop,?_⟩
    · rw [if_pos hi]
      exact hcopy
    · intro j hij hjn
      rcases Nat.eq_or_lt_of_le hij with rfl | hlt
      · exact hi
      · exact hturns j hlt hjn
    · intro a ha
      rcases mem_loopReads.mp ha with hheader | ⟨-,rfl | hlater⟩
      · exact .inl hheader
      · exact .inr ⟨i,hin,rfl⟩
      · exact hreads a hlater
  · refine ⟨i,le_rfl,if_neg hi,fun j hij hji => by omega,not_lt.mp hi,?_⟩
    intro a ha
    exact (mem_loopReads.mp ha).imp_right fun h => absurd h.1 hi
termination_by 256^4-i
decreasing_by
  have hlt := field_lt (turned addrBits hdr loadAddr byte i) (hdr+9) 4
  have hi : i < field (turned addrBits hdr loadAddr byte i) (hdr+9) 4 := by assumption
  omega

end Turns

/-- What `vef_exec` runs is what it scanned: it jumps to the entry point of the header it
accepted, the `text_size` bytes found there are the scanned payload, and its load loop
reads within the buffer. -/
def RunsScanned (build : Build) (byte : ℕ → UInt8) (buf size : ℕ) : Prop :=
  ∀ (loaded : ℕ → UInt8) (entry textSize : ℕ),
    vefExec build byte buf size = .running loaded entry textSize →
      entry = (readHeader byte buf).entryPoint ∧
      (List.range textSize).map (fun k => loaded ((entry+k)%2^build.addrBits)) =
        bytesAt byte (buf+headerSize) (readHeader byte buf).textSize ∧
      ∀ a ∈ loopReads build.addrBits buf (readHeader byte buf).entryPoint byte 0,
        buf ≤ a ∧ a < buf+size

/-- Where the destination covers the entry point or the size in the header, or payload
that is yet to be copied, the byte to be stored is there already. -/
def Undisturbed (build : Build) (byte : ℕ → UInt8) (buf : ℕ) : Prop :=
  ∀ k < (readHeader byte buf).textSize,
    ∀ a, a = ((readHeader byte buf).entryPoint+k)%2^build.addrBits →
      (buf+5 ≤ a ∧ a < buf+headerSize) ∨
        (buf+headerSize+k < a ∧ a < buf+headerSize+(readHeader byte buf).textSize) →
      byte a = byte (buf+headerSize+k)

section Scanned
variable {build : Build} {byte : ℕ → UInt8} {buf size : ℕ}

theorem textSizeAt_eq_iff {byte' : ℕ → UInt8} :
    textSizeAt byte' buf = (readHeader byte buf).textSize ↔
      ∀ a, buf+9 ≤ a → a < buf+headerSize → byte' a = byte a :=
  field_eq_iff_between

theorem entryPoint_eq_iff {byte' : ℕ → UInt8} :
    field byte' (buf+5) 4 = (readHeader byte buf).entryPoint ↔
      ∀ a, buf+5 ≤ a → a < buf+9 → byte' a = byte a :=
  field_eq_iff_between

theorem textSize_lt (build : Build) (byte : ℕ → UInt8) (hdr : ℕ) :
    textSizeAt byte hdr < 2^build.addrBits := by
  have hlt := field_lt byte (hdr+9) 4
  apply hlt.trans_le
  cases build <;> decide

/-- As long as nothing is disturbed, the header and the payload still to be copied are
as they were scanned. -/
theorem turned_undisturbed (h : Undisturbed build byte buf) {i : ℕ}
    (hi : i ≤ (readHeader byte buf).textSize) {a : ℕ}
    (ha : (buf+5 ≤ a ∧ a < buf+headerSize) ∨
      (buf+headerSize+i ≤ a ∧ a < buf+headerSize+(readHeader byte buf).textSize)) :
    turned build.addrBits buf (readHeader byte buf).entryPoint byte i a = byte a := by
  induction i generalizing a with
  | zero => rfl
  | succ i ih =>
    by_cases hdest : a = ((readHeader byte buf).entryPoint+i)%2^build.addrBits
    · rw [hdest,turned_succ_dest,ih (by omega) (.inr (by omega)),← hdest]
      exact (h i (by omega) a hdest (by omega)).symm
    · rw [turned_succ_of_ne hdest]
      exact ih (by omega) (by omega)

theorem runsScanned_of_undisturbed (h : Accepted build byte buf size → Undisturbed build byte buf) :
    RunsScanned build byte buf size := by
  intro loaded entry textSize hrun
  obtain ⟨haccepted,rfl,rfl,rfl⟩ := vefExec_running_iff.mp hrun
  have hund := h haccepted
  obtain ⟨n,-,hcopy,hturns,hstop,hreads⟩ :=
    copyPayload_turns build.addrBits buf (readHeader byte buf).entryPoint byte 0
  have hsize : ∀ i ≤ (readHeader byte buf).textSize,
      textSizeAt (turned build.addrBits buf (readHeader byte buf).entryPoint byte i) buf =
        (readHeader byte buf).textSize := by
    intro i hi
    apply textSizeAt_eq_iff.mpr
    exact fun a hle hlt => turned_undisturbed hund hi (.inl ⟨by omega,hlt⟩)
  have hn : n = (readHeader byte buf).textSize := by
    rcases lt_trichotomy n (readHeader byte buf).textSize with hlt | heq | hgt
    · rw [hsize n hlt.le] at hstop
      omega
    · exact heq
    · have hturn := hturns _ (Nat.zero_le _) hgt
      rw [hsize _ le_rfl] at hturn
      omega
  have hentry : field (turned build.addrBits buf (readHeader byte buf).entryPoint byte n) (buf+5) 4 =
      (readHeader byte buf).entryPoint := by
    apply entryPoint_eq_iff.mpr
    intro a hle hlt
    exact turned_undisturbed hund hn.le (.inl ⟨hle,by unfold headerSize; omega⟩)
  rw [turned] at hcopy
  rw [hcopy,hentry,hsize n hn.le,bytesAt_eq_map]
  refine ⟨rfl,?_,?_⟩
  · apply List.map_congr_left
    intro k hk
    rw [List.mem_range] at hk
    rw [turned_dest (hn ▸ hk) (hn ▸ (textSize_lt build byte buf).le)]
    exact turned_undisturbed hund hk.le (.inr ⟨le_rfl,by omega⟩)
  · intro a ha
    have hfits := haccepted.fits
    have hheader : 9 ≤ headerSize := by decide
    rcases hreads a ha with hread | ⟨j,hj,rfl⟩ <;> omega

theorem undisturbed_of_runsScanned (h : RunsScanned build byte buf size)
    (haccepted : Accepted build byte buf size) : Undisturbed build byte buf := by
  obtain ⟨n,-,hcopy,hturns,hstop,-⟩ :=
    copyPayload_turns build.addrBits buf (readHeader byte buf).entryPoint byte 0
  obtain ⟨hentry,hbytes,-⟩ := h _ _ _ (vefExec_running_iff.mpr ⟨haccepted,rfl,rfl,rfl⟩)
  rw [turned] at hcopy
  rw [hcopy] at hentry hbytes
  rw [hentry,bytesAt_eq_map] at hbytes
  -- what is run has the scanned length, so the bound in the header never moved
  have hsize := congrArg List.length hbytes
  simp only [List.length_map,List.length_range] at hsize
  have hlap : n ≤ 2^build.addrBits := by
    cases n with
    | zero => exact Nat.zero_le _
    | succ n => exact (hturns n (Nat.zero_le n) n.lt_succ_self).trans (textSize_lt build _ buf)
  have hn : n = (readHeader byte buf).textSize := by
    rcases Nat.lt_or_ge (readHeader byte buf).textSize n with hlt | hge
    · have hturn := hturns _ (Nat.zero_le _) hlt
      have hbound : textSizeAt (turned build.addrBits buf (readHeader byte buf).entryPoint byte
          (readHeader byte buf).textSize) buf = (readHeader byte buf).textSize := by
        apply textSizeAt_eq_iff.mpr
        intro a hle hlt'
        rcases turned_first_or_last hlt.le hlap with hfirst | hlast
        · exact hfirst
        · rw [hlast]
          exact textSizeAt_eq_iff.mp hsize a hle hlt'
      omega
    · omega
  have hall : ∀ k < (readHeader byte buf).textSize,
      turned build.addrBits buf (readHeader byte buf).entryPoint byte n
        (((readHeader byte buf).entryPoint+k)%2^build.addrBits) = byte (buf+headerSize+k) := by
    rw [hsize] at hbytes
    exact fun k hk => List.map_inj_left.mp hbytes k (List.mem_range.mpr hk)
  intro k hk a ha hunder
  have hstored := hall k hk
  rw [← ha] at hstored
  rcases hunder with ⟨hle,hlt⟩ | ⟨hle,hlt⟩
  · rw [← hstored]
    by_cases hentry' : a < buf+9
    · exact (entryPoint_eq_iff.mp hentry a hle hentry').symm
    · exact (textSizeAt_eq_iff.mp hsize a (not_lt.mp hentry') hlt).symm
  · -- the turn that copies from `a` finds what turn `k` stored there
    obtain ⟨m,rfl⟩ := Nat.exists_eq_add_of_le (show buf+headerSize ≤ a by omega)
    have hm := hall m (by omega)
    rw [turned_dest (by omega) hlap] at hm
    rw [← hm,← hstored,ha,turned_dest (by omega) (by omega),turned_dest (by omega) hlap]

end Scanned

/-- Exactly the files that are refused or do not disturb their own loading are run as scanned. -/
theorem runs_scanned_iff (build : Build) (byte : ℕ → UInt8) (buf size : ℕ) :
    RunsScanned build byte buf size ↔
      (Accepted build byte buf size → Undisturbed build byte buf) :=
  ⟨undisturbed_of_runsScanned,runsScanned_of_undisturbed⟩

/-- A file for i386 at address 1, loaded one byte above its own payload. -/
def overlappingFile : ℕ → UInt8 := fun i =>
  ([0,0x46,0x49,0x4E,0x4E,1,15,0,0,0,2,0,0,0,0xC3,0x40] : List UInt8).getD i 0

theorem overlapping_file_differs : ¬ RunsScanned .i386 overlappingFile 1 15 := by
  intro h
  have haccepted : Accepted .i386 overlappingFile 1 15 := by
    constructor <;> decide
  have hund := undisturbed_of_runsScanned h haccepted 0 (by decide) 15 (by decide) (by decide)
  exact absurd hund (by decide)

/-- The width `security_check_memory` is compiled for. -/
def Build.addrT : Build → AddrT
  | .i386 => .u32
  | .x86_64 => .u64
  | .aarch64 => .u32

/-- The destination of the load loop does not wrap, and the memory policy approves each
address in it. -/
def DestinationApproved (build : Build) (entryPoint textSize : ℕ) : Prop :=
  entryPoint+textSize ≤ 2^build.addrBits ∧
    ∀ k < textSize, MemoryPolicy.Approves build.addrT (build.addrT.cast (entryPoint+k)) 1

/-- No file makes the loader store outside the memory its own policy approves. -/
def RespectsPolicy (build : Build) (byte : ℕ → UInt8) (buf size : ℕ) : Prop :=
  ∀ (loaded : ℕ → UInt8) (entry textSize : ℕ),
    vefExec build byte buf size = .running loaded entry textSize →
      DestinationApproved build (readHeader byte buf).entryPoint (readHeader byte buf).textSize

/-- The destination lies above the zero page, and below the kernel where a 32-bit file can
name its addresses. -/
def DestinationInUserSpace (build : Build) (entryPoint textSize : ℕ) : Prop :=
  0x1000 ≤ entryPoint ∧ (build = .x86_64 ∨ entryPoint+textSize ≤ 0xC0000001)

theorem approves_byte_u64 {a : ℕ} (ha : a < 2^33) :
    MemoryPolicy.Approves .u64 (AddrT.u64.cast a) 1 ↔ 0x1000 ≤ a := by
  simp only [MemoryPolicy.approves_iff,MemoryPolicy.Allowed,AddrT.cast,AddrT.bits]
  omega

theorem approves_byte_u32 (a : ℕ) :
    MemoryPolicy.Approves .u32 (AddrT.u32.cast a) 1 ↔
      0x1000 ≤ a%2^32 ∧ a%2^32 ≤ 0xC0000000 := by
  simp only [MemoryPolicy.approves_iff,MemoryPolicy.Allowed,AddrT.cast,AddrT.bits]
  omega

section Destination
variable {entryPoint textSize : ℕ}

theorem approved_u32_iff (hentry : entryPoint < 2^32) (hpos : 0 < textSize) :
    (∀ k < textSize, MemoryPolicy.Approves .u32 (AddrT.u32.cast (entryPoint+k)) 1) ↔
      0x1000 ≤ entryPoint ∧ entryPoint+textSize ≤ 0xC0000001 := by
  simp only [approves_byte_u32]
  constructor
  · intro h
    have hfirst := h 0 hpos
    refine ⟨by omega,?_⟩
    by_contra hover
    have hkernel := h (0xC0000001-entryPoint) (by omega)
    omega
  · rintro ⟨hzero,hend⟩ k hk
    omega

theorem destinationApproved_iff (build : Build) (hentry : entryPoint < 2^32)
    (hsize : textSize < 2^32) (hpos : 0 < textSize) :
    DestinationApproved build entryPoint textSize ↔
      DestinationInUserSpace build entryPoint textSize := by
  unfold DestinationApproved DestinationInUserSpace
  cases build with
  | i386 =>
    simp only [Build.addrT,approved_u32_iff hentry hpos,Build.addrBits,reduceCtorEq,false_or]
    omega
  | x86_64 =>
    simp only [Build.addrT,Build.addrBits,true_or,and_true]
    constructor
    · rintro ⟨-,h⟩
      exact (approves_byte_u64 (by omega)).mp (h 0 hpos)
    · intro hzero
      refine ⟨by omega,fun k hk => ?_⟩
      exact (approves_byte_u64 (by omega)).mpr (by omega)
  | aarch64 =>
    simp only [Build.addrT,approved_u32_iff hentry hpos,Build.addrBits,reduceCtorEq,false_or]
    omega

end Destination

theorem Accepted.destinationApproved_iff {build : Build} {byte : ℕ → UInt8} {buf size : ℕ}
    (h : Accepted build byte buf size) :
    DestinationApproved build (readHeader byte buf).entryPoint (readHeader byte buf).textSize ↔
      DestinationInUserSpace build (readHeader byte buf).entryPoint (readHeader byte buf).textSize := by
  apply VefLoader.destinationApproved_iff
  · exact field_lt byte (buf+5) 4
  · exact field_lt byte (buf+9) 4
  · -- a buffer of no bytes does not pass the scan
    by_contra hzero
    have hscanned := h.scanned
    rw [Nat.eq_zero_of_not_pos hzero,Security.securityScanBuffer_empty] at hscanned
    omega

/-- The loader itself asks nobody: it keeps to the policy for exactly the files that are
refused or name a destination in user space. -/
theorem respects_policy_iff (build : Build) (byte : ℕ → UInt8) (buf size : ℕ) :
    RespectsPolicy build byte buf size ↔
      (Accepted build byte buf size →
        DestinationInUserSpace build (readHeader byte buf).entryPoint (readHeader byte buf).textSize) := by
  constructor
  · intro h haccepted
    apply haccepted.destinationApproved_iff.mp
    exact h _ _ _ (vefExec_running_iff.mpr ⟨haccepted,rfl,rfl,rfl⟩)
  · intro h loaded entry textSize hrun
    have haccepted := (vefExec_running_iff.mp hrun).1
    exact haccepted.destinationApproved_iff.mpr (h haccepted)

/-- A file for x86_64 at address 4096 whose entry point is the NULL pointer. -/
def zeroPageFile : ℕ → UInt8 := fun i =>
  ([0x46,0x49,0x4E,0x4E,2,0,0,0,0,1,0,0,0,0xC3] : List UInt8).getD (i-4096) 0

theorem zero_page_file_runs : ¬ RespectsPolicy .x86_64 zeroPageFile 4096 14 := by
  intro h
  have haccepted : Accepted .x86_64 zeroPageFile 4096 14 := by
    constructor <;> decide
  have happroved := h _ _ _ (vefExec_running_iff.mpr ⟨haccepted,rfl,rfl,rfl⟩)
  have huser := haccepted.destinationApproved_iff.mp happroved
  exact absurd huser.1 (by decide)

end VefLoader
end ValiantCore
