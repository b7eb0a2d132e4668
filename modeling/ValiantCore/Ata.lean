import Mathlib.Algebra.Order.Ring.Nat
import Mathlib.Logic.Function.Basic

/-! The driver `drivers/ata.c`, written once for every machine that has the four port
instructions: a device that serves it is one such machine, a bus that keeps a log is another
one. -/
namespace ValiantCore
namespace Ata

def ataData : ℕ := 0x1F0
def ataSecCount : ℕ := 0x1F2
def ataLbaLow : ℕ := 0x1F3
def ataLbaMid : ℕ := 0x1F4
def ataLbaHigh : ℕ := 0x1F5
def ataDriveSel : ℕ := 0x1F6
def ataCommand : ℕ := 0x1F7
def ataControl : ℕ := 0x3F6

def cmdReadPioExt : UInt8 := 0x24
def cmdWritePioExt : UInt8 := 0x34
def cmdCacheFlush : UInt8 := 0xE7
def statusBsy : UInt8 := 0x80
def statusDrq : UInt8 := 0x08

/-- The port instructions of a machine. -/
structure Ports (D : Type) where
  inb : ℕ → D → UInt8 × D
  outb : ℕ → UInt8 → D → D
  inw : ℕ → D → UInt16 × D
  outw : ℕ → UInt16 → D → D

namespace Ports

variable {D X : Type} (p : Ports D)

def ataIoWait (d : D) : D :=
  let d := (p.inb ataControl d).2
  let d := (p.inb ataControl d).2
  let d := (p.inb ataControl d).2
  (p.inb ataControl d).2

def ataStatusWait (bit : UInt8) : ℕ → D → Bool × D
  | 0, d => (false,d)
  | timeout+1, d =>
    let (status,d) := p.inb ataCommand d
    if bit ≠ 0 ∧ status &&& bit ≠ 0 then (true,d)
    else if bit = 0 ∧ status &&& statusBsy = 0 then (true,d)
    else ataStatusWait bit timeout (p.ataIoWait d)

/-- The address, the count and the command, which both functions send in the same way. -/
def sendCommand (cmd : UInt8) (lba count : ℕ) (d : D) : D :=
  let d := p.outb ataDriveSel 0x40 d
  let d := p.ataIoWait d
  let d := p.outb ataSecCount (UInt8.ofNat (count/2^8)) d
  let d := p.outb ataLbaLow (UInt8.ofNat (lba/2^24)) d
  let d := p.outb ataLbaMid (UInt8.ofNat (lba/2^32)) d
  let d := p.outb ataLbaHigh (UInt8.ofNat (lba/2^40)) d
  let d := p.outb ataSecCount (UInt8.ofNat count) d
  let d := p.outb ataLbaLow (UInt8.ofNat lba) d
  let d := p.outb ataLbaMid (UInt8.ofNat (lba/2^8)) d
  let d := p.outb ataLbaHigh (UInt8.ofNat (lba/2^16)) d
  p.outb ataCommand cmd d

/-- The loop over the sectors from `s` on, `left` of them: wait for DRQ, then `move` the words. -/
def sectors (move : ℕ → X × D → X × D) : ℕ → ℕ → X × D → Bool × X × D
  | 0, _, r => (true,r)
  | left+1, s, (x,d) =>
    let (ready,d) := p.ataStatusWait statusDrq 10000 d
    if ready then sectors move left (s+1) (move s (x,d)) else (false,x,d)

/-- The first `n` turns of the inner loop of `ata_write_250gb`. -/
def outWords (buffer : ℕ → UInt16) (base : ℕ) : ℕ → D → D
  | 0, d => d
  | n+1, d => p.outw ataData (buffer (base+n)) (outWords buffer base n d)

def writeSectors (buffer : ℕ → UInt16) (left s : ℕ) (d : D) : Bool × Unit × D :=
  p.sectors (fun s r => ((),p.outWords buffer (s*256) 256 r.2)) left s ((),d)

def ataWrite250gb (lba count : ℕ) (buffer : ℕ → UInt16) (d : D) : ℤ × D :=
  let (done,_,d) := p.writeSectors buffer count 0 (p.sendCommand cmdWritePioExt lba count d)
  if done then (0,(p.ataStatusWait 0 100000 (p.outb ataCommand cmdCacheFlush d)).2) else (-1,d)

/-- The first `n` turns of the inner loop of `ata_read_250gb`. -/
def inWords (base : ℕ) : ℕ → (ℕ → UInt16) × D → (ℕ → UInt16) × D
  | 0, r => r
  | n+1, r =>
    let (buffer,d) := inWords base n r
    let (v,d) := p.inw ataData d
    (Function.update buffer (base+n) v,d)

def readSectors (left s : ℕ) (r : (ℕ → UInt16) × D) : Bool × (ℕ → UInt16) × D :=
  p.sectors (fun s r => p.inWords (s*256) 256 r) left s r

def ataRead250gb (lba count : ℕ) (buffer : ℕ → UInt16) (d : D) : ℤ × (ℕ → UInt16) × D :=
  let (done,r) := p.readSectors count 0 (buffer,p.sendCommand cmdReadPioExt lba count d)
  if done then (0,r) else (-1,r)

end Ports

end Ata
end ValiantCore
