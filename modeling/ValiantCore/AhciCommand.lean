import ValiantCore.Ahci
import Mathlib.Data.Nat.Digits.Defs

/-! The command that `ahci_send_cmd` builds, as the controller reads it: the numbers that
its byte fields spell, and the length that is left of the byte count in 22 bits. -/
namespace ValiantCore
namespace Ahci

def FisH2d.lba (f : FisH2d) : ℕ := Nat.ofDigits 256 [f.lba0,f.lba1,f.lba2,f.lba3,f.lba4,f.lba5]

def FisH2d.count (f : FisH2d) : ℕ := Nat.ofDigits 256 [f.countl,f.counth]

/-- The address that the entry names, and the number of bytes it stands for. -/
def PrdtEntry.base (p : PrdtEntry) : ℕ := p.dba+2^32*p.dbau

def PrdtEntry.length (p : PrdtEntry) : ℕ := p.dbc+1

/-- The command says what was asked for, and the same in all its parts. -/
structure SelfConsistent (table : CmdTable) (lba count buf : ℕ) : Prop where
  sector : table.cfis.lba = lba
  sectors : table.cfis.count = count
  base : table.prdt.base = buf
  length : table.prdt.length = count*ahciSectorSz

section Fields
variable {lba count buf : ℕ} (write : Bool)

theorem cmdFis_lba (h : lba < 2^48) : (cmdFis lba count write).lba = lba := by
  simp only [cmdFis,FisH2d.lba,Nat.ofDigits_cons,Nat.ofDigits_nil]
  omega

theorem cmdFis_count (h : count < 2^16) : (cmdFis lba count write).count = count := by
  simp only [cmdFis,FisH2d.count,Nat.ofDigits_cons,Nat.ofDigits_nil]
  omega

theorem cmdPrdt_base (h : buf < 2^64) : (cmdPrdt count buf).base = buf := by
  simp only [cmdPrdt,PrdtEntry.base]
  omega

theorem cmdPrdt_length_iff (hpos : 0 < count) :
    (cmdPrdt count buf).length = count*ahciSectorSz ↔ count ≤ 8192 := by
  simp only [cmdPrdt,PrdtEntry.length,ahciSectorSz]
  omega

end Fields

theorem ahciSendCmd_table (ctba port lba : ℕ) {count buf : ℕ} (hbuf : buf ≠ 0) (hcount : count ≠ 0)
    (write : Bool) (drv : Driver) (b : Bus) :
    (ahciSendCmd ctba port lba count buf write drv b).2.1.cmdTable =
      ⟨cmdFis lba count write,cmdPrdt count buf⟩ := by
  rw [ahciSendCmd,if_neg (not_or.mpr ⟨hbuf,hcount⟩)]

/-- Over every port, sector, count, buffer and direction, and whatever the registers
answer, the command is consistent just if the transfer is at most 8192 sectors long. -/
theorem sent_command_consistent_iff (ctba port : ℕ) {lba count buf : ℕ} (hlba : lba < 2^48)
    (hpos : 1 ≤ count) (hcount : count ≤ 65535) (hbuf : buf ≠ 0) (haddr : buf < 2^64) (write : Bool)
    (drv : Driver) (b : Bus) :
    SelfConsistent (ahciSendCmd ctba port lba count buf write drv b).2.1.cmdTable lba count buf ↔
      count ≤ 8192 := by
  rw [ahciSendCmd_table ctba port lba hbuf (Nat.ne_of_gt hpos) write drv b,
    ← @cmdPrdt_length_iff count buf hpos]
  constructor
  · exact SelfConsistent.length
  · exact fun hlen => ⟨cmdFis_lba write hlba,cmdFis_count write (by omega),cmdPrdt_base haddr,hlen⟩

/-- The largest transfer whose length is kept. -/
theorem sent_command_consistent_demo :
    SelfConsistent (ahciSendCmd 0x40000000 0 0xFEDCBA987654 8192 0x123450000000 true readyDriver
      (stuckBus readyDriver)).2.1.cmdTable 0xFEDCBA987654 8192 0x123450000000 :=
  (sent_command_consistent_iff 0x40000000 0 (by decide) (by decide) (by decide) (by decide) (by decide)
    true readyDriver (stuckBus readyDriver)).mpr (by decide)

/-- One sector more, and the length is that of one sector. -/
theorem long_transfer_cut_short :
    ¬ SelfConsistent (ahciSendCmd 0x40000000 0 0 8193 0x50000000 false readyDriver
      (stuckBus readyDriver)).2.1.cmdTable 0 8193 0x50000000 := by
  intro h
  have hlen := h.length
  rw [ahciSendCmd_table 0x40000000 0 0 (by decide) (by decide) false readyDriver (stuckBus readyDriver)] at hlen
  exact absurd ((cmdPrdt_length_iff (by decide)).mp hlen) (by decide)

end Ahci
end ValiantCore
