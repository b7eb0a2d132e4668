import ValiantCore.Kheap
import ValiantCore.Slots

/-! Which bits of `heap_bitmap` a request touches. The starts of the outer loop end with
the heap, but how far the inner one looks ahead depends on the size of the request only. -/
namespace ValiantCore
namespace Kheap

section Touched
variable (abi : Abi) (getBitmap : (ℕ → UInt8) → ℕ → Bool)

/-- The inner search of `n` blocks from `i` on: `found`, and the bits tested, up to the
first one in use. -/
def testRun (bitmap : ℕ → UInt8) (i n : ℕ) : Bool × List ℕ :=
  let r := Slots.scan (fun j => getBitmap bitmap (bitIndex i j)) (fun j => [bitIndex i j]) n 0
  (r.1.isNone,r.2)

/-- The outer search over `m` starts: the one found, and the bits tested on the way. -/
def searchRuns (bitmap : ℕ → UInt8) (n m : ℕ) : Option ℕ × List ℕ :=
  Slots.scan (fun i => (testRun getBitmap bitmap i n).1) (fun i => (testRun getBitmap bitmap i n).2) m 0

/-- The bits that `kmalloc_ext` hands to `get_bitmap`. -/
def bitsTested (s : Heap) (size : ℕ) : List ℕ :=
  (searchRuns getBitmap s.bitmap (blocksNeeded abi size) heapBlocks).2

def runBits (n : ℕ) : Option ℕ → List ℕ
  | none => []
  | some i => (List.range n).map (bitIndex i)

def bitsSet (s : Heap) (size : ℕ) : List ℕ :=
  runBits (blocksNeeded abi size) (searchRuns getBitmap s.bitmap (blocksNeeded abi size) heapBlocks).1

/-- The request touches bits of the heap only, and the blocks of its result end with it. -/
structure InHeap (s : Heap) (size : ℕ) : Prop where
  tested : ∀ b ∈ bitsTested abi getBitmap s size, b < heapBlocks
  marked : ∀ b ∈ bitsSet abi getBitmap s size, b < heapBlocks
  ends : ∀ r, (kmallocExt abi getBitmap s size).2 = some r →
    r-abi.headerSize+blocksNeeded abi size*blockSize ≤ abi.heapStart+kernelHeapSize

/-- Some free run of the blocks lies in the heap, or the last block of the heap is in use. -/
def Stopped (s : Heap) (size : ℕ) : Prop :=
  (∃ i, i+blocksNeeded abi size ≤ heapBlocks ∧
    runFree getBitmap s.bitmap i (blocksNeeded abi size) = true) ∨
  getBitmap s.bitmap (heapBlocks-1) = true

end Touched

section Search
variable {abi : Abi} {getBitmap : (ℕ → UInt8) → ℕ → Bool} {bitmap : ℕ → UInt8} {i n b size : ℕ} {s : Heap}

theorem testRun_found : (testRun getBitmap bitmap i n).1 = runFree getBitmap bitmap i n := by
  rw [testRun,Slots.scan_breaks,← List.range_eq_range',Bool.eq_iff_iff,Option.isNone_iff_eq_none,
    List.find?_eq_none,runFree_iff]
  simp

theorem searchRuns_found (m : ℕ) :
    (searchRuns getBitmap bitmap n m).1 = (List.range m).find? fun i => runFree getBitmap bitmap i n := by
  simp only [searchRuns,Slots.scan_breaks,testRun_found,← List.range_eq_range']

theorem searchHeap_found : (searchRuns getBitmap bitmap n heapBlocks).1 = firstFit getBitmap bitmap n :=
  searchRuns_found heapBlocks

theorem markRun_eq_foldl :
    markRun bitmap i n = ((List.range n).map (bitIndex i)).foldl setBitmap bitmap := by
  induction n with
  | zero => rfl
  | succ n ih => rw [markRun,ih,List.range_succ,List.map_append,List.foldl_append]; rfl

theorem kmallocExt_bitmap :
    (kmallocExt abi getBitmap s size).1.bitmap = (bitsSet abi getBitmap s size).foldl setBitmap s.bitmap := by
  rw [kmallocExt,bitsSet,searchHeap_found]
  cases firstFit getBitmap s.bitmap (blocksNeeded abi size) with
  | none => rfl
  | some i => exact markRun_eq_foldl

theorem mem_testRun :
    b ∈ (testRun getBitmap bitmap i n).2 ↔
      ∃ j < n, runFree getBitmap bitmap i j = true ∧ b = bitIndex i j := by
  simp only [testRun,Slots.mem_scan,Nat.zero_add,List.mem_singleton,runFree_iff]

theorem mem_bitsTested :
    b ∈ bitsTested abi getBitmap s size ↔
      ∃ i < heapBlocks, (∀ k < i, runFree getBitmap s.bitmap k (blocksNeeded abi size) = false) ∧
        ∃ j < blocksNeeded abi size, runFree getBitmap s.bitmap i j = true ∧ b = bitIndex i j := by
  simp only [bitsTested,searchRuns,Slots.mem_scan,Nat.zero_add,testRun_found,mem_testRun]

theorem last_of_runFree (hi : i < heapBlocks) (hend : heapBlocks ≤ i+n)
    (h : runFree getBitmap bitmap i n = true) : getBitmap bitmap (heapBlocks-1) = false := by
  have hj := runFree_iff.mp h (heapBlocks-1-i) (by omega)
  have hplace : i+(heapBlocks-1-i) = heapBlocks-1 := by omega
  rwa [bitIndex_eq (by omega),hplace] at hj

theorem ahead_le (h : Stopped abi getBitmap s size) (hi : i < heapBlocks)
    (hearlier : ∀ k < i, runFree getBitmap s.bitmap k (blocksNeeded abi size) = false) {j : ℕ}
    (hj : j ≤ blocksNeeded abi size) (hfree : runFree getBitmap s.bitmap i j = true) :
    i+j ≤ heapBlocks ∧ (j < blocksNeeded abi size → i+j < heapBlocks) := by
  rcases h with ⟨k,hk,hkfree⟩ | hlast
  · have hik : i ≤ k := by
      by_contra hlt
      rw [hearlier k (not_le.mp hlt)] at hkfree
      exact Bool.noConfusion hkfree
    omega
  · have hshort : ¬ heapBlocks ≤ i+j := by
      intro hend
      rw [last_of_runFree hi hend hfree] at hlast
      exact Bool.noConfusion hlast
    omega

theorem earlier_of_firstFit (hfound : firstFit getBitmap bitmap n = some i) :
    ∀ k < i, runFree getBitmap bitmap k n = false := by
  intro k hk
  obtain ⟨-,-,hleast⟩ := firstFit_some hfound
  rw [← Bool.not_eq_true]
  exact fun hfree => absurd (hleast k hfree) (not_le.mpr hk)

theorem firstFit_le (h : Stopped abi getBitmap s size)
    (hfound : firstFit getBitmap s.bitmap (blocksNeeded abi size) = some i) :
    i+blocksNeeded abi size ≤ heapBlocks := by
  obtain ⟨hi,hfree,-⟩ := firstFit_some hfound
  exact (ahead_le h hi (earlier_of_firstFit hfound) le_rfl hfree).1

theorem bitsTested_lt (h : Stopped abi getBitmap s size) : ∀ b ∈ bitsTested abi getBitmap s size, b < heapBlocks := by
  intro b hb
  obtain ⟨i,hi,hearlier,j,hj,hfree,rfl⟩ := mem_bitsTested.mp hb
  have hin := (ahead_le h hi hearlier hj.le hfree).2 hj
  rwa [bitIndex_eq hin]

theorem bitsSet_lt (h : Stopped abi getBitmap s size) : ∀ b ∈ bitsSet abi getBitmap s size, b < heapBlocks := by
  intro b hb
  rw [bitsSet,searchHeap_found] at hb
  cases hfound : firstFit getBitmap s.bitmap (blocksNeeded abi size) with
  | none =>
    rw [hfound] at hb
    cases hb
  | some i =>
    have hin := firstFit_le h hfound
    rw [hfound] at hb
    obtain ⟨j,hj,rfl⟩ := List.mem_map.mp hb
    have hturn := List.mem_range.mp hj
    have hlt : i+j < heapBlocks := by omega
    rwa [bitIndex_eq hlt]

theorem blocks_end (h : Stopped abi getBitmap s size) :
    ∀ r, (kmallocExt abi getBitmap s size).2 = some r →
      r-abi.headerSize+blocksNeeded abi size*blockSize ≤ abi.heapStart+kernelHeapSize := by
  intro r hr
  rw [kmallocExt] at hr
  cases hfound : firstFit getBitmap s.bitmap (blocksNeeded abi size) with
  | none =>
    rw [hfound] at hr
    cases hr
  | some i =>
    have hin := firstFit_le h hfound
    rw [hfound,allocate,blockAddr_eq abi (firstFit_some hfound).1] at hr
    have haddr : r-abi.headerSize = abi.heapStart+i*blockSize := by
      rw [← Option.some.inj hr,Nat.add_sub_cancel]
    have hblocks := Nat.mul_le_mul_right blockSize hin
    rw [Nat.add_mul] at hblocks
    have hsize : heapBlocks*blockSize = kernelHeapSize := by decide
    omega

theorem inHeap_of_stopped (h : Stopped abi getBitmap s size) : InHeap abi getBitmap s size :=
  ⟨bitsTested_lt h,bitsSet_lt h,blocks_end h⟩

theorem tested_behind (hi : i < heapBlocks) (hend : heapBlocks < i+blocksNeeded abi size)
    (hearlier : ∀ k < i, runFree getBitmap s.bitmap k (blocksNeeded abi size) = false)
    (hfree : runFree getBitmap s.bitmap i (heapBlocks-i) = true) :
    heapBlocks ∈ bitsTested abi getBitmap s size := by
  have hbit : bitIndex i (heapBlocks-i) = heapBlocks := by
    rw [bitIndex,Nat.add_sub_cancel' hi.le]
    decide
  exact mem_bitsTested.mpr ⟨i,hi,hearlier,heapBlocks-i,by omega,hfree,hbit.symm⟩

theorem stopped_of_tested (h : ∀ b ∈ bitsTested abi getBitmap s size, b < heapBlocks) :
    Stopped abi getBitmap s size := by
  by_contra hnot
  obtain ⟨hnone,hlast⟩ := not_or.mp hnot
  have hbehind : ¬ heapBlocks ∈ bitsTested abi getBitmap s size := fun hmem => lt_irrefl _ (h _ hmem)
  cases hfound : firstFit getBitmap s.bitmap (blocksNeeded abi size) with
  | some i =>
    obtain ⟨hi,hfree,-⟩ := firstFit_some hfound
    have hend : heapBlocks < i+blocksNeeded abi size := by
      by_contra hin
      exact hnone ⟨i,not_lt.mp hin,hfree⟩
    refine hbehind (tested_behind hi hend (earlier_of_firstFit hfound) ?_)
    exact runFree_iff.mpr fun j hj => runFree_iff.mp hfree j (by omega)
  | none =>
    have hsearched := firstFit_none (s := s) hfound
    have hnever : ∀ k < heapBlocks, runFree getBitmap s.bitmap k (blocksNeeded abi size) = false := by
      intro k hk
      rw [← Bool.not_eq_true]
      exact fun hkfree => hsearched ⟨k,hk,hkfree⟩
    -- the start is the last block: it is free, and the one behind it is looked at
    have hpos : 0 < heapBlocks := by decide
    have hone : runFree getBitmap s.bitmap (heapBlocks-1) 1 = true := by
      refine runFree_iff.mpr fun j hj => ?_
      obtain rfl : j = 0 := by omega
      rw [bitIndex_eq (by omega),Nat.add_zero]
      exact Bool.not_eq_true _ ▸ hlast
    have hmore : 1 < blocksNeeded abi size := by
      by_contra hfew
      refine Bool.false_ne_true ((hnever (heapBlocks-1) (by omega)).symm.trans ?_)
      exact runFree_iff.mpr fun j hj => runFree_iff.mp hone j (by omega)
    have hlen : heapBlocks-(heapBlocks-1) = 1 := by omega
    refine hbehind (tested_behind (i := heapBlocks-1) (by omega) (by omega) (fun k hk => hnever k (by omega)) ?_)
    rw [hlen]
    exact hone

end Search

/-- Whatever the bitmap holds and whatever reads it, a request stays in the heap just if
its blocks are free somewhere in it, or the last block of the heap is in use. -/
theorem inHeap_iff (abi : Abi) (getBitmap : (ℕ → UInt8) → ℕ → Bool) (s : Heap) (size : ℕ) :
    InHeap abi getBitmap s size ↔ Stopped abi getBitmap s size :=
  ⟨fun h => stopped_of_tested h.tested,inHeap_of_stopped⟩

/-- The size of the whole heap, asked of an empty one: with the header it is one block more
than there are. -/
theorem whole_heap_looks_behind : ¬ InHeap .x86_64 bitAt emptyHeap kernelHeapSize := by
  intro h
  have hneeded : blocksNeeded .x86_64 kernelHeapSize = heapBlocks+1 := by decide
  rcases stopped_of_tested h.tested with ⟨i,hi,-⟩ | hlast
  · rw [hneeded] at hi
    omega
  · exact absurd hlast (by decide)

end Kheap
end ValiantCore
