import ValiantCore.SecurityEngine

/-! What a scan that returns 0 says of the buffer. The loop of the rootkit check ends two
places before the end of the buffer, so that the last two bytes are not looked at together. -/
namespace ValiantCore
namespace Security

open Bytes

/-- The first bytes of a jump through memory, `FF 25`, lie at the address. -/
def JumpAt (byte : ℕ → UInt8) (addr : ℕ) : Prop := byte addr = 0xFF ∧ byte (addr+1) = 0x25

instance (byte : ℕ → UInt8) (addr : ℕ) : Decidable (JumpAt byte addr) :=
  inferInstanceAs (Decidable (_ ∧ _))

/-- The buffer shows neither a signature nor a jump. -/
structure Clean (byte : ℕ → UInt8) (buf len : ℕ) : Prop where
  noSignature : ∀ i, i+8 ≤ len → bytesAt byte (buf+i) 8 ∉ virusSignatures
  noJump : ∀ i, i+2 ≤ len → ¬ JumpAt byte (buf+i)

/-- The one pattern of the buffer is a jump in its last two bytes. -/
structure LastPairOnly (byte : ℕ → UInt8) (buf len : ℕ) : Prop where
  long : 2 ≤ len
  last : JumpAt byte (buf+(len-2))
  noSignature : ∀ i, i+8 ≤ len → bytesAt byte (buf+i) 8 ∉ virusSignatures
  noneBefore : ∀ i, i+2 < len → ¬ JumpAt byte (buf+i)

section Scan
variable {byte : ℕ → UInt8} {buf len : ℕ}

theorem bytesAt_getElem? {i : ℕ} (hi : i < len) : (bytesAt byte buf len)[i]? = some (byte (buf+i)) := by
  rw [bytesAt_eq_map,List.getElem?_map,List.getElem?_range hi]
  rfl

theorem rootkitPattern_bytesAt :
    rootkitPattern (bytesAt byte buf len) = true ↔ ∃ i, i+2 < len ∧ JumpAt byte (buf+i) := by
  simp only [rootkitPattern,List.any_eq_true,List.mem_range,bytesAt_length,Bool.and_eq_true,beq_iff_eq]
  constructor
  · rintro ⟨i,hi,hfirst,hsecond⟩
    rw [bytesAt_getElem? (by omega)] at hfirst hsecond
    exact ⟨i,by omega,Option.some.inj hfirst,Option.some.inj hsecond⟩
  · rintro ⟨i,hi,hfirst,hsecond⟩
    refine ⟨i,by omega,?_,?_⟩
    · rw [bytesAt_getElem? (by omega),hfirst]
    · rw [bytesAt_getElem? (by omega),← Nat.add_assoc,hsecond]

theorem securityScanBuffer_eq_zero_iff (hbuf : buf ≠ 0) (hlen : len ≠ 0) :
    securityScanBuffer byte buf len = 0 ↔
      (∀ i, i+8 ≤ len → bytesAt byte (buf+i) 8 ∉ virusSignatures) ∧
        ∀ i, i+2 < len → ¬ JumpAt byte (buf+i) := by
  have hvirus : virusDetected (bytesAt byte buf len) = false ↔
      ∀ i, i+8 ≤ len → bytesAt byte (buf+i) 8 ∉ virusSignatures := by
    rw [← Bool.not_eq_true,virusDetected_bytesAt]
    simp
  have hrootkit : ¬ (len ≥ 3 ∧ rootkitPattern (bytesAt byte buf len) = true) ↔
      ∀ i, i+2 < len → ¬ JumpAt byte (buf+i) := by
    rw [rootkitPattern_bytesAt]
    constructor
    · exact fun h i hi hjump => h ⟨by omega,i,hi,hjump⟩
    · rintro h ⟨-,i,hi,hjump⟩
      exact h i hi hjump
  rw [← hvirus,← hrootkit]
  simp only [securityScanBuffer,hbuf,hlen,or_self,if_false]
  cases virusDetected (bytesAt byte buf len) with
  | true => simp
  | false => simp

theorem clean_iff_checked :
    (∀ i, i+2 ≤ len → ¬ JumpAt byte (buf+i)) ↔
      (∀ i, i+2 < len → ¬ JumpAt byte (buf+i)) ∧ (2 ≤ len → ¬ JumpAt byte (buf+(len-2))) := by
  constructor
  · exact fun h => ⟨fun i hi => h i (by omega),fun hlen => h (len-2) (by omega)⟩
  · rintro ⟨hbefore,hlast⟩ i hi
    rcases Nat.lt_or_eq_of_le hi with hlt | heq
    · exact hbefore i hlt
    · obtain rfl : i = len-2 := by omega
      exact hlast (by omega)

end Scan

end Security

namespace SecurityEngine

open Security

theorem returns_zero_iff (w : AddrT) (byte : ℕ → UInt8) (buf len : ℕ) (s : Engine) :
    (∃ s', securityScanBuffer w byte buf len s = .ok (0,s')) ↔
      Security.securityScanBuffer byte buf len = 0 := by
  constructor
  · rintro ⟨s',hrun⟩
    have hret := securityScanBuffer_returns w byte buf len s trivial
    rw [hrun] at hret
    exact hret.symm
  · intro h
    simp only [Security.securityScanBuffer] at h
    split_ifs at h with hnone hvirus hroot
    refine ⟨{ s with scanGeneration := u32 (s.scanGeneration+1) },?_⟩
    simp only [securityScanBuffer,if_neg hnone]
    simp [hvirus,hroot]
    rfl

/-- On a buffer that is not empty the scan is exact, whatever the state of the engine and
the hardware, unless the one pattern in it is a jump in its last two bytes. -/
theorem scan_exact_iff (w : AddrT) (byte : ℕ → UInt8) {buf len : ℕ} (hbuf : buf ≠ 0) (hlen : len ≠ 0)
    (s : Engine) :
    ((∃ s', securityScanBuffer w byte buf len s = .ok (0,s')) ↔ Clean byte buf len) ↔
      ¬ LastPairOnly byte buf len := by
  rw [returns_zero_iff,securityScanBuffer_eq_zero_iff hbuf hlen]
  constructor
  · rintro h ⟨hlong,hlast,hsig,hbefore⟩
    exact (h.mp ⟨hsig,hbefore⟩).noJump (len-2) (by omega) hlast
  · intro h
    constructor
    · rintro ⟨hsig,hbefore⟩
      exact ⟨hsig,clean_iff_checked.mpr ⟨hbefore,fun hlong hlast => h ⟨hlong,hlast,hsig,hbefore⟩⟩⟩
    · rintro ⟨hsig,hjump⟩
      exact ⟨hsig,(clean_iff_checked.mp hjump).1⟩

/-- Three bytes that begin with a jump. -/
theorem scan_exact_demo :
    (∃ s', securityScanBuffer .u64 (fun i => [0,0xFF,0x25,0].getD i 0) 1 3
      (boot ⟨fun _ => 0,fun _ => 0,fun _ => 0⟩) = .ok (0,s')) ↔
      Clean (fun i => [0,0xFF,0x25,0].getD i 0) 1 3 :=
  (scan_exact_iff .u64 (fun i => [0,0xFF,0x25,0].getD i 0) (by decide) (by decide)
    (boot ⟨fun _ => 0,fun _ => 0,fun _ => 0⟩)).mpr fun h => absurd h.last (by decide)

/-- Two bytes that are a jump. -/
theorem jump_in_last_pair :
    ¬ ((∃ s', securityScanBuffer .u64 (fun i => [0,0xFF,0x25].getD i 0) 1 2
      (boot ⟨fun _ => 0,fun _ => 0,fun _ => 0⟩) = .ok (0,s')) ↔
      Clean (fun i => [0,0xFF,0x25].getD i 0) 1 2) := by
  rw [returns_zero_iff]
  intro h
  have hclean := h.mp (by decide +kernel)
  exact hclean.noJump 0 (by decide) (by decide)

end SecurityEngine
end ValiantCore
