import ValiantCore.Runs
import Mathlib.Data.Nat.Bitwise
import Mathlib.Logic.Function.Basic
import Mathlib.Tactic.SplitIfs

/-! The kernel heap `memory/kheap.c`: a first-fit search in a bitmap of blocks. What a
request is owed is the run of blocks that its size and its header fill. -/
namespace ValiantCore
namespace Kheap

/-- `size_t`, `sizeof(uintptr_t)` and `KERNEL_HEAP_START` of the build targets. -/
inductive Abi
  | i386 | x86_64 | aarch64
  deriving DecidableEq, Repr

def Abi.sizeBits : Abi → ℕ
  | .i386 => 32
  | .x86_64 => 64
  | .aarch64 => 64

def Abi.headerSize : Abi → ℕ
  | .i386 => 4
  | .x86_64 => 8
  | .aarch64 => 8

def Abi.heapStart : Abi → ℕ
  | .i386 => 0xD0000000
  | .x86_64 => 0xFFFF800000000000
  | .aarch64 => 0xD0000000

def kernelHeapSize : ℕ := 0x2000000
def blockSize : ℕ := 32

/-- `KERNEL_HEAP_SIZE / BLOCK_SIZE` -/
def heapBlocks : ℕ := kernelHeapSize/blockSize

theorem heapBlocks_eq : heapBlocks = 2^20 := by decide

def mask (bit : ℕ) : UInt8 := 1 <<< UInt8.ofNat (bit%8)

def setBitmap (bitmap : ℕ → UInt8) (bit : ℕ) : ℕ → UInt8 :=
  Function.update bitmap (bit/8) (bitmap (bit/8) ||| mask bit)

def clearBitmap (bitmap : ℕ → UInt8) (bit : ℕ) : ℕ → UInt8 :=
  Function.update bitmap (bit/8) (bitmap (bit/8) &&& ~~~mask bit)

def bitAt (bitmap : ℕ → UInt8) (bit : ℕ) : Bool := (bitmap (bit/8)).toNat.testBit (bit%8)

theorem mask_toNat (bit : ℕ) : (mask bit).toNat = 2^(bit%8) := by
  have hall : ∀ k < 8, ((1 : UInt8) <<< UInt8.ofNat k).toNat = 2^k := by decide
  exact hall _ (Nat.mod_lt _ (by decide))

theorem bit_ext {b bit : ℕ} (hdiv : b/8 = bit/8) (hmod : b%8 = bit%8) : b = bit := by
  omega

theorem bitAt_setBitmap (bitmap : ℕ → UInt8) (bit b : ℕ) :
    bitAt (setBitmap bitmap bit) b = (bitAt bitmap b || decide (b = bit)) := by
  unfold bitAt setBitmap
  by_cases hdiv : b/8 = bit/8
  · rw [hdiv,Function.update_self,UInt8.toNat_or,Nat.testBit_or,mask_toNat,Nat.testBit_two_pow]
    congr 2
    exact propext ⟨fun h => bit_ext hdiv h.symm,fun h => by rw [h]⟩
  · have hne : b ≠ bit := fun h => hdiv (by rw [h])
    rw [Function.update_of_ne hdiv,decide_eq_false hne,Bool.or_false]

theorem testBit_andNot (x y : UInt8) {k : ℕ} (hk : k < 8) :
    (x &&& ~~~y).toNat.testBit k = (x.toNat.testBit k && !y.toNat.testBit k) := by
  simp only [← UInt8.toNat_toBitVec,BitVec.testBit_toNat,UInt8.toBitVec_and,UInt8.toBitVec_not,
    BitVec.getLsbD_and,BitVec.getLsbD_not,hk,decide_true,Bool.true_and]

theorem bitAt_clearBitmap (bitmap : ℕ → UInt8) (bit b : ℕ) :
    bitAt (clearBitmap bitmap bit) b = (bitAt bitmap b && decide (b ≠ bit)) := by
  unfold bitAt clearBitmap
  by_cases hdiv : b/8 = bit/8
  · rw [hdiv,Function.update_self,testBit_andNot _ _ (Nat.mod_lt _ (by decide)),mask_toNat,
      Nat.testBit_two_pow]
    by_cases hmod : b%8 = bit%8
    · simp [bit_ext hdiv hmod]
    · have hne : b ≠ bit := fun h => hmod (by rw [h])
      simp [hne,Ne.symm hmod]
  · have hne : b ≠ bit := fun h => hdiv (by rw [h])
    rw [Function.update_of_ne hdiv,decide_eq_true hne,Bool.and_true]

/-- What is assumed of `get_bitmap`, which is not in the repository: it reads the bit that
`set_bitmap` and `clear_bitmap` write. -/
structure ReadsBits (getBitmap : (ℕ → UInt8) → ℕ → Bool) : Prop where
  set : ∀ bitmap bit b, getBitmap (setBitmap bitmap bit) b = (getBitmap bitmap b || decide (b = bit))
  clear : ∀ bitmap bit b,
    getBitmap (clearBitmap bitmap bit) b = (getBitmap bitmap b && decide (b ≠ bit))

theorem readsBits_bitAt : ReadsBits bitAt := ⟨bitAt_setBitmap,bitAt_clearBitmap⟩

structure Heap where
  bitmap : ℕ → UInt8
  word : ℕ → ℕ

section Allocator
variable (abi : Abi) (getBitmap : (ℕ → UInt8) → ℕ → Bool)

/-- `blocks_needed`, in `size_t` arithmetic. -/
def blocksNeeded (size : ℕ) : ℕ := (size+abi.headerSize+blockSize-1)%2^abi.sizeBits/blockSize

/-- The bit that is meant by `i + j`, converted to `uint32_t`. -/
def bitIndex (i j : ℕ) : ℕ := (i+j)%2^32

/-- The inner search: no block of the run is in use. -/
def runFree (bitmap : ℕ → UInt8) (i n : ℕ) : Bool :=
  (List.range n).all fun j => !getBitmap bitmap (bitIndex i j)

def firstFit (bitmap : ℕ → UInt8) (n : ℕ) : Option ℕ :=
  (List.range heapBlocks).find? fun i => runFree getBitmap bitmap i n

def markRun (bitmap : ℕ → UInt8) (i : ℕ) : ℕ → ℕ → UInt8
  | 0 => bitmap
  | n+1 => setBitmap (markRun bitmap i n) (bitIndex i n)

def blockAddr (i : ℕ) : ℕ := (abi.heapStart+i*blockSize)%2^abi.sizeBits

/-- What a request does with the block the search has found. -/
def allocate (s : Heap) (size : ℕ) : Option ℕ → Heap × Option ℕ
  | none => (s,none)
  | some i =>
    (⟨markRun s.bitmap i (blocksNeeded abi size),Function.update s.word (blockAddr abi i) 0xDEADBEEF⟩,
      some ((blockAddr abi i+abi.headerSize)%2^abi.sizeBits))

def kmallocExt (s : Heap) (size : ℕ) : Heap × Option ℕ :=
  allocate abi s size (firstFit getBitmap s.bitmap (blocksNeeded abi size))

end Allocator

/-- A result that is not `NULL`, and the size that was asked for. -/
structure Grant where
  result : ℕ
  size : ℕ

/-- The block the header of a result lies in. -/
def Grant.first (abi : Abi) (g : Grant) : ℕ := (g.result-abi.headerSize-abi.heapStart)/blockSize

def Grant.blocks (abi : Abi) (g : Grant) : ℕ := (g.size+abi.headerSize+blockSize-1)/blockSize

def Grant.Covers (abi : Abi) (g : Grant) (b : ℕ) : Prop :=
  g.first abi ≤ b ∧ b < g.first abi+g.blocks abi

section Requests
variable (abi : Abi) (getBitmap : (ℕ → UInt8) → ℕ → Bool)

/-- The run lies in the heap, starts at the header and is marked as used. -/
structure Owns (s : Heap) (g : Grant) : Prop where
  result_eq : g.result = abi.heapStart+g.first abi*blockSize+abi.headerSize
  in_heap : g.first abi+g.blocks abi ≤ heapBlocks
  used : ∀ b, g.Covers abi b → getBitmap s.bitmap b = true

def after (heap : Heap) (sizes : List ℕ) : Heap :=
  Runs.exec (kmallocExt abi getBitmap) heap sizes

def grants (heap : Heap) (sizes : List ℕ) : List Grant :=
  (Runs.trace (kmallocExt abi getBitmap) heap sizes).filterMap fun e => e.out.map fun r => ⟨r,e.op⟩

/-- Every request owns what it asked for, and no two own a block in common. -/
structure Sound (heap : Heap) (sizes : List ℕ) : Prop where
  owns : ∀ g ∈ grants abi getBitmap heap sizes, Owns abi getBitmap (after abi getBitmap heap sizes) g
  apart : (grants abi getBitmap heap sizes).Pairwise
    fun g g' => ∀ b, ¬ (g.Covers abi b ∧ g'.Covers abi b)

/-- The size in blocks does not wrap, and the blocks are free somewhere in the heap. -/
def Fits (s : Heap) (size : ℕ) : Prop :=
  size+abi.headerSize+blockSize-1 < 2^abi.sizeBits ∧
    ∃ i, i+blocksNeeded abi size ≤ heapBlocks ∧
      runFree getBitmap s.bitmap i (blocksNeeded abi size) = true

/-- The search comes to an end that it takes for a free run. -/
def Searched (s : Heap) (size : ℕ) : Prop :=
  ∃ i < heapBlocks, runFree getBitmap s.bitmap i (blocksNeeded abi size) = true

end Requests

section Search
variable {abi : Abi} {getBitmap : (ℕ → UInt8) → ℕ → Bool} {bitmap : ℕ → UInt8} {i n size : ℕ}

theorem runFree_iff :
    runFree getBitmap bitmap i n = true ↔ ∀ j < n, getBitmap bitmap (bitIndex i j) = false := by
  simp [runFree]

theorem firstFit_some (h : firstFit getBitmap bitmap n = some i) :
    i < heapBlocks ∧ runFree getBitmap bitmap i n = true ∧
      ∀ k, runFree getBitmap bitmap k n = true → i ≤ k := by
  obtain ⟨hfree,hmem,hleast⟩ := List.find?_range_eq_some.mp h
  refine ⟨List.mem_range.mp hmem,hfree,fun k hk => ?_⟩
  by_contra hlt
  have hnot := hleast k (not_le.mp hlt)
  rw [hk] at hnot
  exact Bool.noConfusion hnot

theorem firstFit_none {s : Heap} (h : firstFit getBitmap s.bitmap (blocksNeeded abi size) = none) :
    ¬ Searched abi getBitmap s size := by
  rintro ⟨i,hi,hfree⟩
  have hnot := List.find?_eq_none.mp h i (List.mem_range.mpr hi)
  exact hnot hfree

theorem getBitmap_markRun (hget : ReadsBits getBitmap) (b : ℕ) :
    getBitmap (markRun bitmap i n) b = true ↔
      getBitmap bitmap b = true ∨ ∃ j < n, b = bitIndex i j := by
  induction n with
  | zero => simp [markRun]
  | succ n ih =>
    rw [markRun,hget.set,Bool.or_eq_true,ih,decide_eq_true_iff,or_assoc]
    apply or_congr_right
    constructor
    · rintro (⟨j,hj,rfl⟩ | rfl)
      · exact ⟨j,hj.trans n.lt_succ_self,rfl⟩
      · exact ⟨n,n.lt_succ_self,rfl⟩
    · rintro ⟨j,hj,rfl⟩
      rcases Nat.lt_succ_iff_lt_or_eq.mp hj with hlt | rfl
      · exact .inl ⟨j,hlt,rfl⟩
      · exact .inr rfl

theorem bitIndex_eq {j : ℕ} (h : i+j < heapBlocks) : bitIndex i j = i+j := by
  rw [heapBlocks_eq] at h
  exact Nat.mod_eq_of_lt (by omega)

theorem free_of_runFree (hin : i+n ≤ heapBlocks) (h : runFree getBitmap bitmap i n = true) {b : ℕ}
    (hle : i ≤ b) (hlt : b < i+n) : getBitmap bitmap b = false := by
  obtain ⟨j,rfl⟩ := Nat.exists_eq_add_of_le hle
  have hj := runFree_iff.mp h j (by omega)
  rwa [bitIndex_eq (by omega)] at hj

theorem marked_iff (hget : ReadsBits getBitmap) (hin : i+n ≤ heapBlocks) {b : ℕ} :
    getBitmap (markRun bitmap i n) b = true ↔ getBitmap bitmap b = true ∨ (i ≤ b ∧ b < i+n) := by
  rw [getBitmap_markRun hget]
  apply or_congr_right
  constructor
  · rintro ⟨j,hj,rfl⟩
    rw [bitIndex_eq (by omega)]
    omega
  · rintro ⟨hle,hlt⟩
    obtain ⟨j,rfl⟩ := Nat.exists_eq_add_of_le hle
    exact ⟨j,by omega,(bitIndex_eq (by omega)).symm⟩

theorem blockAddr_eq (abi : Abi) (hi : i < heapBlocks) :
    (blockAddr abi i+abi.headerSize)%2^abi.sizeBits = abi.heapStart+i*blockSize+abi.headerSize := by
  rw [heapBlocks_eq] at hi
  unfold blockAddr blockSize
  cases abi <;> simp only [Abi.heapStart,Abi.headerSize,Abi.sizeBits] <;> omega

/-- The result of a request that finds its run at block `i`. -/
def granted (abi : Abi) (i size : ℕ) : Grant := ⟨abi.heapStart+i*blockSize+abi.headerSize,size⟩

@[simp] theorem granted_first (abi : Abi) (i size : ℕ) : (granted abi i size).first abi = i := by
  simp only [granted,Grant.first,blockSize]
  omega

theorem blocksNeeded_eq (h : size+abi.headerSize+blockSize-1 < 2^abi.sizeBits) :
    blocksNeeded abi size = (granted abi i size).blocks abi := by
  rw [blocksNeeded,Nat.mod_eq_of_lt h]
  rfl

end Search

theorem kmallocExt_cases (abi : Abi) (getBitmap : (ℕ → UInt8) → ℕ → Bool) (s : Heap) (size : ℕ) :
    (¬ Searched abi getBitmap s size ∧ kmallocExt abi getBitmap s size = (s,none)) ∨
    ∃ i < heapBlocks, runFree getBitmap s.bitmap i (blocksNeeded abi size) = true ∧
      (∀ k, runFree getBitmap s.bitmap k (blocksNeeded abi size) = true → i ≤ k) ∧
      (kmallocExt abi getBitmap s size).1.bitmap = markRun s.bitmap i (blocksNeeded abi size) ∧
      (kmallocExt abi getBitmap s size).2 = some (granted abi i size).result := by
  rw [kmallocExt]
  cases hfit : firstFit getBitmap s.bitmap (blocksNeeded abi size) with
  | none => exact .inl ⟨firstFit_none hfit,rfl⟩
  | some i =>
    obtain ⟨hi,hfree,hleast⟩ := firstFit_some hfit
    exact .inr ⟨i,hi,hfree,hleast,rfl,congrArg some (blockAddr_eq abi hi)⟩

section Histories
variable {abi : Abi} {getBitmap : (ℕ → UInt8) → ℕ → Bool} {heap : Heap} {sizes : List ℕ} {size : ℕ}

theorem after_concat :
    after abi getBitmap heap (sizes++[size]) =
      (kmallocExt abi getBitmap (after abi getBitmap heap sizes) size).1 := Runs.exec_concat ..

theorem grants_concat_none
    (h : kmallocExt abi getBitmap (after abi getBitmap heap sizes) size =
      (after abi getBitmap heap sizes,none)) :
    grants abi getBitmap heap (sizes++[size]) = grants abi getBitmap heap sizes := by
  rw [after] at h
  simp [grants,Runs.trace_concat,h]

theorem grants_concat_some {i : ℕ}
    (h : (kmallocExt abi getBitmap (after abi getBitmap heap sizes) size).2 =
      some (granted abi i size).result) :
    grants abi getBitmap heap (sizes++[size]) =
      grants abi getBitmap heap sizes++[granted abi i size] := by
  rw [after] at h
  simp [grants,Runs.trace_concat,h,granted]

theorem granted_owns (hget : ReadsBits getBitmap) (s : Heap) {s' : Heap} {i : ℕ}
    (hin : i+(granted abi i size).blocks abi ≤ heapBlocks)
    (hbitmap : s'.bitmap = markRun s.bitmap i ((granted abi i size).blocks abi)) :
    Owns abi getBitmap s' (granted abi i size) := by
  constructor
  · rw [granted_first]
    rfl
  · rwa [granted_first]
  · intro b hb
    rw [Grant.Covers,granted_first] at hb
    rw [hbitmap]
    exact (marked_iff hget hin).mpr (.inr hb)

/-- As long as a request that finds a run would fit, it gets blocks nobody owns. -/
theorem sound_concat (hget : ReadsBits getBitmap) (h : Sound abi getBitmap heap sizes)
    (hguard : Searched abi getBitmap (after abi getBitmap heap sizes) size →
      Fits abi getBitmap (after abi getBitmap heap sizes) size) :
    Sound abi getBitmap heap (sizes++[size]) := by
  rcases kmallocExt_cases abi getBitmap (after abi getBitmap heap sizes) size with
    ⟨-,heq⟩ | ⟨i,hi,hfree,hleast,hbitmap,hresult⟩
  · constructor
    · rw [grants_concat_none heq,after_concat,heq]
      exact h.owns
    · rw [grants_concat_none heq]
      exact h.apart
  obtain ⟨hwrap,k,hk,hkfree⟩ := hguard ⟨i,hi,hfree⟩
  have hik := hleast k hkfree
  rw [blocksNeeded_eq (i := i) hwrap] at hfree hbitmap hk
  have hin : i+(granted abi i size).blocks abi ≤ heapBlocks := by omega
  constructor
  · intro g hg
    rw [grants_concat_some hresult,List.mem_append,List.mem_singleton] at hg
    rw [after_concat]
    rcases hg with hold | rfl
    · obtain ⟨hres,hheap,hused⟩ := h.owns g hold
      refine ⟨hres,hheap,fun b hb => ?_⟩
      rw [hbitmap]
      exact (marked_iff hget hin).mpr (.inl (hused b hb))
    · exact granted_owns hget (after abi getBitmap heap sizes) hin hbitmap
  · rw [grants_concat_some hresult,List.pairwise_append]
    refine ⟨h.apart,List.pairwise_singleton _ _,?_⟩
    intro g hg g' hg' b hboth
    rw [List.mem_singleton] at hg'
    subst hg'
    -- a block owned earlier is marked, a block of the new run was found free
    have hused := (h.owns g hg).used b hboth.1
    have hnew : i ≤ b ∧ b < i+(granted abi i size).blocks abi := by
      simpa only [Grant.Covers,granted_first] using hboth.2
    rw [free_of_runFree hin hfree hnew.1 hnew.2] at hused
    exact Bool.noConfusion hused

theorem fits_of_sound_concat (h : Sound abi getBitmap heap (sizes++[size]))
    (hsearched : Searched abi getBitmap (after abi getBitmap heap sizes) size) :
    Fits abi getBitmap (after abi getBitmap heap sizes) size := by
  rcases kmallocExt_cases abi getBitmap (after abi getBitmap heap sizes) size with
    ⟨hnone,-⟩ | ⟨i,-,hfree,-,-,hresult⟩
  · exact absurd hsearched hnone
  have hgrant : granted abi i size ∈ grants abi getBitmap heap (sizes++[size]) := by
    rw [grants_concat_some hresult]
    exact List.mem_append_right _ (List.mem_singleton.mpr rfl)
  have hin := (h.owns _ hgrant).in_heap
  rw [granted_first] at hin
  have hwrap : size+abi.headerSize+blockSize-1 < 2^abi.sizeBits := by
    rw [heapBlocks_eq] at hin
    simp only [granted,Grant.blocks,blockSize] at hin ⊢
    cases abi <;> simp only [Abi.headerSize,Abi.sizeBits] at hin ⊢ <;> omega
  exact ⟨hwrap,i,blocksNeeded_eq (i := i) hwrap ▸ hin,hfree⟩

end Histories

/-- Along a run of requests every result owns its memory, and no two share any, exactly if
each request that the search answers neither wraps nor runs over the end of the heap. -/
theorem always_sound_iff (abi : Abi) {getBitmap : (ℕ → UInt8) → ℕ → Bool} (hget : ReadsBits getBitmap)
    (heap : Heap) (sizes : List ℕ) :
    Runs.Always (Sound abi getBitmap heap) sizes ↔
      Runs.EveryStep (fun pre size => Searched abi getBitmap (after abi getBitmap heap pre) size →
        Fits abi getBitmap (after abi getBitmap heap pre) size) sizes := by
  apply Runs.always_iff_everyStep (R := Sound abi getBitmap heap)
  · constructor
    · intro g hg
      simp [grants] at hg
    · simp [grants]
  · exact fun pre size h hguard => sound_concat hget h hguard
  · exact fun pre h => h
  · exact fun pre size _ h hsearched => fits_of_sound_concat h hsearched

def emptyHeap : Heap := ⟨fun _ => 0,fun _ => 0⟩

theorem always_sound_iff_one_request :
    Runs.Always (Sound .x86_64 bitAt emptyHeap) [24] ↔
      Runs.EveryStep (fun pre size => Searched .x86_64 bitAt (after .x86_64 bitAt emptyHeap pre) size →
        Fits .x86_64 bitAt (after .x86_64 bitAt emptyHeap pre) size) [24] :=
  always_sound_iff .x86_64 readsBits_bitAt emptyHeap [24]

/-- The largest size wraps to one block. -/
theorem largest_size_not_owned : ¬ Sound .x86_64 bitAt emptyHeap [2^64-1] := by
  intro h
  have hsearched : Searched .x86_64 bitAt emptyHeap (2^64-1) := by
    refine ⟨0,by decide,?_⟩
    decide
  have hfits := @fits_of_sound_concat .x86_64 bitAt emptyHeap [] (2^64-1) h hsearched
  exact absurd hfits.1 (by decide)

end Kheap
end ValiantCore
