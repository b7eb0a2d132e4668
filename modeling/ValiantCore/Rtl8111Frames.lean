import ValiantCore.Rtl8111

/-! Where in `rx_buf` a call of `rtl8111_receive` reads. The device names a place of the
buffer and the packet its own length; the check of the length is always passed, and nothing
compares the sum of the two with the size of the buffer. -/
namespace ValiantCore
namespace Rtl8111

/-- The indices of `rx_buf` that the copy reads: those of the length, and, unless the
length is refused, those of the bytes. -/
def copyReads (s : State) : List ℕ :=
  [s.rxBufPtr.toNat+2,s.rxBufPtr.toNat+3]++
    if pktLen s > rxBufSize then []
    else (List.range (pktLen s)).map fun i => s.rxBufPtr.toNat+4+i

/-- The indices that the step reads; the calls read in no other step. -/
def reads (s : State) (op : Op) : List ℕ :=
  match op,s.handler,s.call with
  | .goOn,none,.copy => copyReads s
  | _,_,_ => []

def InRing (s : State) (op : Op) : Prop := ∀ i ∈ reads s op, i < rxBufSize

/-- The packet at the place that the device has named ends within the buffer. -/
def FrameFits (s : State) : Prop := s.rxBufPtr.toNat+4+pktLen s ≤ rxBufSize

def Copies (s : State) (op : Op) : Prop := op = .goOn ∧ s.handler = none ∧ s.call = .copy

section Copy
variable {s : State} {op : Op}

theorem receiveCopy_of_reads (s : State) :
    (receiveCopy s).2 = .returned 1 (((copyReads s).drop 2).map s.rxBuf) := by
  rw [receiveCopy_returns,copyReads,if_neg (pktLen_le s)]
  simp [Function.comp_def]

theorem copyReads_lt_iff (s : State) : (∀ i ∈ copyReads s, i < rxBufSize) ↔ FrameFits s := by
  rw [copyReads,if_neg (pktLen_le s)]
  simp only [List.cons_append,List.nil_append,List.forall_mem_cons,List.forall_mem_map,List.mem_range,FrameFits]
  constructor
  · rintro ⟨-,hlength,hbytes⟩
    cases hlen : pktLen s with
    | zero => omega
    | succ n =>
      have hlast := hbytes n (by omega)
      omega
  · intro hfits
    exact ⟨by omega,by omega,fun i hi => by omega⟩

theorem inRing_iff (s : State) (op : Op) : InRing s op ↔ (Copies s op → FrameFits s) := by
  by_cases h : Copies s op
  · obtain ⟨rfl,hhandler,hcall⟩ := h
    have hreads : reads s .goOn = copyReads s := by simp [reads,hhandler,hcall]
    rw [InRing,hreads,copyReads_lt_iff]
    exact ⟨fun hfits _ => hfits,fun hfits => hfits ⟨rfl,hhandler,hcall⟩⟩
  · have hreads : reads s op = [] := by
      unfold reads
      split
      · exact absurd ⟨rfl,‹_›,‹_›⟩ h
      · rfl
    refine iff_of_true (fun i hi => ?_) (fun hcopies => absurd hcopies h)
    rw [hreads] at hi
    cases hi

end Copy

/-- From every state and in every run, the reads of `rtl8111_receive` stay in `rx_buf` just
if each packet that is copied ends within it. -/
theorem reads_in_ring_iff (s : State) (ops : List Op) :
    Runs.EveryStep (fun pre op => InRing (after s pre) op) ops ↔
      Runs.EveryStep (fun pre op => Copies (after s pre) op → FrameFits (after s pre)) ops := by
  simp only [inRing_iff]

/-- A packet of one byte, whose length ends with the buffer: the byte is read behind it. -/
theorem byte_read_behind_ring :
    ¬ Runs.EveryStep (fun pre op => InRing (after (boot 0xC000 true) pre) op)
      [.arrive 65532 fun i => if i = 65534 then 1 else 0,.receive,.goOn,.goOn] := by
  intro h
  have hring := h [.arrive 65532 fun i => if i = 65534 then 1 else 0,.receive,.goOn] .goOn (List.prefix_refl _)
  exact absurd (hring 65536 (by decide +kernel)) (by decide)

end Rtl8111
end ValiantCore
