import ValiantCore.Descriptors
import ValiantCore.Interruption
import ValiantCore.X86Stack

/-! The interrupt entries of `arch/x86/interrupts.asm` in their 64-bit build, from the table
that `init_idt` fills to `iretq`: what the C functions find in their `struct registers`, and
what is left of an interrupt when they have returned. -/
namespace ValiantCore
namespace InterruptStubs

open Memory X86Stack Descriptors

inductive Handler
  | isrHandler
  | irqHandler

/-- The exceptions with an `ISR_ERRCODE` line. -/
def isrErrcode (n : ℕ) : Bool := n = 8 ∨ 10 ≤ n ∧ n ≤ 14

/-- What the macros `ISR_NOERRCODE`, `ISR_ERRCODE` and `IRQ` push. -/
def numbers : Stub → List Word
  | .isr n => if isrErrcode n then [BitVec.ofNat 64 n] else [0,BitVec.ofNat 64 n]
  | .irq n => [9,BitVec.ofNat 64 (32+n)]

def handler : Stub → Handler
  | .isr _ => .isrHandler
  | .irq _ => .irqHandler

/-- What the common stubs push, in this order. -/
def commonRegs : List Reg := [.rax,.rbx,.rcx,.rdx,.rsi,.rdi,.rbp,.r8,.r9,.r10,.r11]

/-- A stub up to the first instruction of the C function; `ret` is the return address. -/
def enter (s : Stub) (ret : Word) (m : Machine) : Machine :=
  ((m.pushes (numbers s)).pushes (commonRegs.map m.r)).push ret

/-- The end of a stub: eleven pops, `add rsp, 16` and `iretq`. -/
def leave (m : Machine) : Machine :=
  let m := m.pops [.r11,.r10,.r9,.r8,.rbp,.rdi,.rsi,.rdx,.rcx,.rbx,.rax]
  { m with rsp := m.rsp+16 }.iretq

structure Registers where
  r11 : Word
  r10 : Word
  r9 : Word
  r8 : Word
  rbp : Word
  rdi : Word
  rsi : Word
  rdx : Word
  rcx : Word
  rbx : Word
  rax : Word
  intNo : Word
  errCode : Word
  rip : Word
  cs : Word
  rflags : Word
  rsp : Word
  ss : Word

/-- What the stub pops again, and what `iretq` takes. -/
def Registers.general (s : Registers) : List Word :=
  [s.r11,s.r10,s.r9,s.r8,s.rbp,s.rdi,s.rsi,s.rdx,s.rcx,s.rbx,s.rax]

def Registers.returned (s : Registers) : List Word := [s.rip,s.cs,s.rflags,s.rsp,s.ss]

def Registers.words (s : Registers) : List Word := s.general++([s.intNo,s.errCode]++s.returned)

/-- The exceptions with which the processor pushes an error code. -/
def pushesErrorCode (v : ℕ) : Bool := v ∈ [8,10,11,12,13,14,17,21,29,30]

def errorCode (v : ℕ) (e : Word) : List Word := if pushesErrorCode v then [e] else []

/-- The processor delivers vector `v` through its gate, with error code `e` if it has one. -/
def delivered (g : Gate) (v : ℕ) (e : Word) (m : Machine) : Machine :=
  m.deliver (BitVec.ofNat 64 g.offset) (BitVec.ofNat 64 g.selector) (errorCode v e)

section Table

def bytesFrom (mem : Mem) (a : Word) : ℕ → UInt8 := fun k => mem (a+BitVec.ofNat 64 k)

/-- Where the processor has its table. -/
structure Idtr where
  limit : ℕ
  base : ℕ

def lidt (mem : Mem) (a : Word) : Idtr :=
  ⟨Bytes.field (bytesFrom mem a) 0 2,Bytes.field (bytesFrom mem a) 2 8⟩

/-- `idt_flush` from its first instruction on, with its return address on the stack. It takes
its argument from the word above that; its caller has put it into `rdi`. -/
def idtFlush (m : Machine) : Idtr := lidt m.mem (load64 m.mem (m.rsp+8))

/-- The gate of vector `v`, if the table goes so far. -/
def Idtr.gate (t : Idtr) (mem : Mem) (v : ℕ) : Option Gate :=
  if 16*v+15 ≤ t.limit then some (readGate (bytesFrom mem (BitVec.ofNat 64 t.base)) (16*v)) else none

/-- `idtp` as `init_idt` sets it, for a table at `base`. -/
def idtp (base : Word) : List UInt8 := Bytes.leBytes 2 (16*256-1)++Bytes.leBytes 8 base.toNat

variable {mem : Mem} {base : Word}

theorem lidt_idtp {a : Word} (h : Bytes.Holds (bytesFrom mem a) 0 (idtp base)) :
    lidt mem a = ⟨16*256-1,base.toNat⟩ := by
  rw [idtp,Bytes.holds_append,Bytes.leBytes_length] at h
  rw [lidt,h.1.field,h.2.field]
  congr 1
  exact Nat.mod_eq_of_lt (show base.toNat < 256^8 from base.isLt)

theorem Idtr.gate_of_image {idt : ℕ → IdtEntry} (h : ∀ k < 4096, bytesFrom mem base k = idtImage idt k)
    {v : ℕ} (hv : v < 256) : Idtr.gate ⟨16*256-1,base.toNat⟩ mem v = some (gateOf idt v) := by
  have hfield : ∀ off w, 16*v+off+w ≤ 4096 →
      Bytes.field (bytesFrom mem base) (16*v+off) w = Bytes.field (idtImage idt) (16*v+off) w :=
    fun off w hle => Bytes.field_eq_iff.mpr fun k hk => h _ (by omega)
  have h₀ := hfield 0 2 (by omega)
  rw [Nat.add_zero] at h₀
  rw [Idtr.gate,if_pos (by dsimp only; omega),BitVec.ofNat_toNat,BitVec.setWidth_eq]
  rw [gateOf,readGate,readGate,h₀,hfield 6 2 (by omega),hfield 8 4 (by omega),hfield 2 2 (by omega),
    hfield 5 1 (by omega)]

end Table

/-- What the interrupted machine looks like to the C function. -/
def registers (v : ℕ) (e : Word) (m : Machine) : Registers where
  r11 := m.r .r11
  r10 := m.r .r10
  r9 := m.r .r9
  r8 := m.r .r8
  rbp := m.r .rbp
  rdi := m.r .rdi
  rsi := m.r .rsi
  rdx := m.r .rdx
  rcx := m.r .rcx
  rbx := m.r .rbx
  rax := m.r .rax
  intNo := BitVec.ofNat 64 v
  errCode := if pushesErrorCode v then e else if v < 32 then 0 else 9
  rip := m.rip
  cs := m.cs
  rflags := m.rflags
  rsp := m.rsp
  ss := m.ss

section Frame

/-- What the processor and the stub push, in this order. -/
def frame (v : ℕ) (s : Stub) (e : Word) (m : Machine) : List Word :=
  m.interrupted++errorCode v e++(numbers s++commonRegs.map m.r)

theorem errcode_agrees : ∀ v ≤ 14, pushesErrorCode v = isrErrcode v := by decide

theorem reverse_frame {v : ℕ} {s : Stub} (hs : stubOf v = some s) (e : Word) (m : Machine) :
    (frame v s e m).reverse = (registers v e m).words := by
  unfold stubOf at hs
  split at hs
  · obtain ⟨hle,-⟩ := ‹v ≤ 14 ∧ v ≠ 2›
    cases hs
    have hlt : v < 32 := by omega
    cases hcode : isrErrcode v <;>
      simp [frame,errorCode,Machine.interrupted,registers,Registers.words,Registers.general,Registers.returned,numbers,commonRegs,
        errcode_agrees v hle,hcode,hlt]
  · split at hs
    · cases hs
      rcases ‹v = 32 ∨ v = 33› with rfl | rfl <;>
        simp [frame,errorCode,Machine.interrupted,registers,Registers.words,Registers.general,Registers.returned,numbers,commonRegs,
          pushesErrorCode]
    · cases hs

theorem length_frame {v : ℕ} {s : Stub} (hs : stubOf v = some s) (e : Word) (m : Machine) :
    (frame v s e m).length = 18 := by
  rw [← List.length_reverse,reverse_frame hs]
  rfl

variable (g : Gate) {v : ℕ} {s : Stub} (e ret : Word) (m : Machine)

theorem delivered_r : (delivered g v e m).r = m.r := Machine.deliver_r _ _ _ m

theorem enter_eq : enter s ret (delivered g v e m) =
    (delivered g v e m).pushes (numbers s++commonRegs.map m.r++[ret]) := by
  have hr : (delivered g v e m).r = m.r := delivered_r g e m
  rw [Machine.pushes_append,Machine.pushes_append,← hr]
  rfl

theorem enter_r : (enter s ret (delivered g v e m)).r = m.r := by
  rw [enter_eq,Machine.pushes_r,delivered_r]

theorem enter_mem : (enter s ret (delivered g v e m)).mem =
    (m.aligned.pushes (frame v s e m++[ret])).mem := by
  rw [enter_eq,delivered,Machine.deliver_pushes_mem,frame]
  simp only [List.append_assoc]

theorem enter_rsp (hs : stubOf v = some s) :
    (enter s ret (delivered g v e m)).rsp = m.aligned.rsp-152 := by
  have hlen : (m.interrupted++errorCode v e++(numbers s++commonRegs.map m.r++[ret])).length = 19 := by
    rw [← List.append_assoc,List.length_append]
    exact congrArg (·+1) (length_frame hs e m)
  rw [enter_eq,delivered,Machine.deliver_pushes_rsp,hlen]
  rfl

theorem enter_registers (hs : stubOf v = some s) : Holds (enter s ret (delivered g v e m)).mem
    ((enter s ret (delivered g v e m)).rsp+8) (registers v e m).words := by
  have hlen : (frame v s e m++[ret]).length = 19 := by
    rw [List.length_append,length_frame hs]
    rfl
  have hall := @Machine.pushes_holds m.aligned (frame v s e m++[ret]) [] (by rw [hlen]; decide) trivial
  rw [List.append_nil,List.reverse_append,reverse_frame hs,Machine.pushes_rsp,hlen] at hall
  rw [enter_mem,enter_rsp g e ret m hs]
  exact hall.2

end Frame

theorem stubOf_lt {v : ℕ} {s : Stub} (hs : stubOf v = some s) : v < 256 := by
  unfold stubOf at hs
  split_ifs at hs <;> omega

/-- Wherever its gate comes from, the stub of a vector that `init_idt` sets gives the C function
the interrupted machine and the number of the vector in its `struct registers`. And where
`idt_flush` finds `idtp`, the processor goes to that stub with interrupts off, in the code
segment of `init_gdt`, a flat one of 64-bit code. -/
theorem stub_registers (address : Stub → Fin (2^64)) (idt : ℕ → IdtEntry) {v : ℕ} {s : Stub} (hs : stubOf v = some s)
    (e ret : Word) (m : Machine) :
    (∀ g, Holds (enter s ret (delivered g v e m)).mem ((enter s ret (delivered g v e m)).rsp+8)
      (registers v e m).words) ∧
    ∀ (base : Word) (m₀ : Machine),
      Bytes.Holds (bytesFrom m₀.mem (load64 m₀.mem (m₀.rsp+8))) 0 (idtp base) →
      (∀ k < 4096, bytesFrom m.mem base k = idtImage (initIdt address idt) k) →
      ∃ g, (idtFlush m₀).gate m.mem v = some g ∧
        (delivered g v e m).rip = BitVec.ofNat 64 (address s) ∧
        (delivered g v e m).cs = 0x08 ∧ (∀ gdt, segmentOf (initGdt true gdt) (g.selector/8) = ⟨0,0xFFFFF,0x9A,0xA⟩) ∧
        (delivered g v e m).rflags &&& 0x200 = 0 := by
  refine ⟨fun g => enter_registers g e ret m hs,fun base m₀ hidtp htable => ?_⟩
  have hgate : gateOf (initIdt address idt) v = ⟨address s,0x08,0x8E⟩ := by
    rw [gateOf_initIdt address idt (stubOf_lt hs),hs]
    rfl
  refine ⟨⟨address s,0x08,0x8E⟩,?_,rfl,rfl,fun gdt => ?_,?_⟩
  · rw [idtFlush,lidt_idtp hidtp,Idtr.gate_of_image htable (stubOf_lt hs),hgate]
  · have hselector : 0x08/8 = 1 := rfl
    rw [hselector,initGdt_code]
    rfl
  · show m.rflags &&& ~~~0x14300 &&& 0x200 = 0
    rw [BitVec.and_assoc]
    exact BitVec.and_zero

/-- `idt_flush` with a stack of zeros, and `idtp` at the address 0. -/
def flushing : Machine :=
  ⟨fun _ => 0,0x100,0,8,2,16,fun b => if b = 0 then 0xFF else if b = 1 then 0x0F else 0⟩

/-- A machine with the table at the address 0. -/
def running : Machine :=
  ⟨fun _ => 1,0x9000,5,8,0x202,16,fun b => idtImage (initIdt (fun _ => 0x1000) fun _ => gate 0 0 0) b.toNat⟩

/-- A page fault. -/
theorem stub_registers_page_fault : (∃ g, (idtFlush flushing).gate running.mem 14 = some g ∧
    (delivered g 14 2 running).rip = 0x1000 ∧ (delivered g 14 2 running).cs = 0x08 ∧
    (∀ gdt, segmentOf (initGdt true gdt) (g.selector/8) = ⟨0,0xFFFFF,0x9A,0xA⟩) ∧
    (delivered g 14 2 running).rflags &&& 0x200 = 0) ∧
    ∀ g, Holds (enter (.isr 14) 7 (delivered g 14 2 running)).mem
      ((enter (.isr 14) 7 (delivered g 14 2 running)).rsp+8)
      [1,1,1,1,1,1,1,1,1,1,1,14,2,5,8,0x202,0x9000,16] := by
  have hidtp : Bytes.Holds (bytesFrom flushing.mem (load64 flushing.mem (flushing.rsp+8))) 0 (idtp 0) := by
    unfold Bytes.Holds
    decide +kernel
  have htable : ∀ k < 4096, bytesFrom running.mem 0 k =
      idtImage (initIdt (fun _ => 0x1000) fun _ => gate 0 0 0) k := by
    intro k hk
    have haddress : (0 : Word)+BitVec.ofNat 64 k = BitVec.ofNat 64 k := BitVec.zero_add _
    rw [bytesFrom,haddress]
    show idtImage _ (BitVec.ofNat 64 k).toNat = _
    rw [BitVec.toNat_ofNat,Nat.mod_eq_of_lt (by omega)]
  have hpage := stub_registers (fun _ => 0x1000) (fun _ => gate 0 0 0) (v := 14) rfl 2 7 running
  exact ⟨hpage.2 0 flushing hidtp htable,hpage.1⟩

section View
variable (own : Set Word) (lo : Word)

/-- What a program sees: the registers, and memory outside of its stack below `rsp`, down to
the end `lo` of the stack, and of what is the functions' own. -/
structure View (s t : Machine) : Prop where
  r : s.r = t.r
  rsp : s.rsp = t.rsp
  rip : s.rip = t.rip
  cs : s.cs = t.cs
  rflags : s.rflags = t.rflags
  ss : s.ss = t.ss
  mem : ∀ b, b ∉ span lo (s.rsp-lo).toNat → b ∉ own → s.mem b = t.mem b

variable {own lo}

theorem View.refl (s : Machine) : View own lo s s :=
  ⟨rfl,rfl,rfl,rfl,rfl,rfl,fun _ _ _ => rfl⟩

theorem View.trans {r s t : Machine} (h : View own lo r s) (h' : View own lo s t) : View own lo r t := by
  refine ⟨h.r.trans h'.r,h.rsp.trans h'.rsp,h.rip.trans h'.rip,h.cs.trans h'.cs,
    h.rflags.trans h'.rflags,h.ss.trans h'.ss,?_⟩
  intro b hb hown
  rw [h.mem b hb hown]
  rw [h.rsp] at hb
  exact h'.mem b hb hown

def calleeSaved : List Reg := [.rbx,.rbp,.r12,.r13,.r14,.r15]

variable (own lo)

/-- The C functions, where they return: `call` goes from their first instruction to the one
behind the call. -/
abbrev Functions := Handler → Machine → Option Machine

/-- A function returns by the calling convention: with `rsp` above the return address and its
callee's registers as they were. It writes to its stack, of which its return address and its
argument are a part, and to what is its own. -/
structure Returns (m m' : Machine) : Prop where
  rsp : m'.rsp = m.rsp+8
  saved : ∀ k ∈ calleeSaved, m'.r k = m.r k
  mem : ∀ b, b ∉ span lo (m.rsp+152-lo).toNat → b ∉ own → m'.mem b = m.mem b

/-- With `need` bytes of stack the function returns. -/
def Conventional (need : ℕ) (call : Functions) (h : Handler) : Prop :=
  ∀ m : Machine, need ≤ (m.rsp-lo).toNat → ∃ m', call h m = some m' ∧ Returns own lo m m'

/-- The words that the end of a stub takes back are what they were. The number of the vector
and the error code are not among them. -/
structure Registers.KeptAt (s : Registers) (mem : Mem) (a : Word) : Prop where
  general : Holds mem a s.general
  returned : Holds mem (a+104) s.returned

/-- The function leaves these words of its argument alone, which the calling convention does not
ask of it. -/
def Spares (call : Functions) (h : Handler) : Prop :=
  ∀ (m m' : Machine) (s : Registers), call h m = some m' → Holds m.mem (m.rsp+8) s.words →
    s.KeptAt m'.mem m'.rsp

variable (g : ℕ → Gate) (ret : Word) (call : Functions)

/-- Vector `v` from its delivery to `iretq`, for vectors whose gate leads to their stub. -/
def interrupt (ve : ℕ × Word) (m : Machine) : Option Machine :=
  (stubOf ve.1).bind fun s =>
    (call (handler s) (enter s ret (delivered (g ve.1) ve.1 ve.2 m))).map leave

/-- The vector has a stub, with a function that returns, and room for both. -/
structure Ready (need : ℕ) (ve : ℕ × Word) (s : Stub) (m : Machine) : Prop where
  stub : stubOf ve.1 = some s
  conventional : Conventional own lo need call (handler s)
  room : 168+need ≤ (m.rsp-lo).toNat

/-- The function also spares its argument. -/
def Safe (need : ℕ) (ve : ℕ × Word) (m : Machine) : Prop :=
  ∃ s, Ready own lo call need ve s m ∧ Spares call (handler s)

variable {own lo call}

def popped : List Reg := [.r11,.r10,.r9,.r8,.rbp,.rdi,.rsi,.rdx,.rcx,.rbx,.rax]

theorem leave_r (m : Machine) : (leave m).r = (m.pops popped).r := rfl

theorem leave_iretq (m : Machine) : leave m =
    { m with r := (m.pops popped).r, rsp := m.rsp+104 }.iretq := by
  show ({ m.pops popped with rsp := (m.pops popped).rsp+16 } : Machine).iretq = _
  have hrsp : (m.pops popped).rsp+16 = m.rsp+104 := by
    rw [Machine.pops_eq]
    exact BitVec.add_assoc m.rsp 88 16
  rw [hrsp,Machine.pops_eq]

theorem leave_eq {v : ℕ} {e : Word} {m m' : Machine} (hkept : (registers v e m).KeptAt m'.mem m'.rsp)
    (hsaved : ∀ k ∈ calleeSaved, m'.r k = m.r k) : leave m' = { m' with
      r := m.r, rsp := m.rsp, rip := m.rip, cs := m.cs, rflags := m.rflags, ss := m.ss } := by
  have hgeneral : Holds m'.mem m'.rsp (popped.map m.r) := hkept.general
  have hr : (m'.pops popped).r = m.r := by
    funext k
    by_cases hk : k ∈ popped
    · exact Machine.pops_of_holds hgeneral hk
    · rw [Machine.pops_of_notMem hk]
      exact hsaved k (by cases k <;> simp_all [popped,calleeSaved])
  rw [leave_iretq,hr]
  exact Machine.iretq_of_holds hkept.returned

theorem keptAt_of_leave {v : ℕ} {e : Word} {m m' : Machine} (hview : View own lo (leave m') m) :
    (registers v e m).KeptAt m'.mem m'.rsp := by
  constructor
  · have hpops : Holds m'.mem m'.rsp (popped.map m.r) := by
      refine Machine.holds_of_pops (by decide) fun k hk => ?_
      rw [← leave_r,hview.r]
    exact hpops
  · have hiretq := leave_iretq m'
    refine ⟨?_,?_,?_,?_,?_,trivial⟩
    · exact (congrArg Machine.rip hiretq).symm.trans hview.rip
    · exact (congrArg Machine.cs hiretq).symm.trans hview.cs
    · exact (congrArg Machine.rflags hiretq).symm.trans hview.rflags
    · exact (congrArg Machine.rsp hiretq).symm.trans hview.rsp
    · exact (congrArg Machine.ss hiretq).symm.trans hview.ss

/-- An interrupt goes unnoticed just if the C function leaves the saved words of its argument
as they were. -/
theorem interrupt_unnoticed_iff {need : ℕ} {ve : ℕ × Word} {s : Stub} {m : Machine}
    (h : Ready own lo call need ve s m) :
    Interruption.Unnoticed (interrupt g ret call) (View own lo) ve m ↔
      ∀ m', call (handler s) (enter s ret (delivered (g ve.1) ve.1 ve.2 m)) = some m' →
        (registers ve.1 ve.2 m).KeptAt m'.mem m'.rsp := by
  obtain ⟨v,e⟩ := ve
  obtain ⟨hs,hconventional,hroom⟩ := h
  have hrsp := enter_rsp (g v) e ret m hs
  obtain ⟨d,hd,halign⟩ := m.aligned_rsp
  have hneed : need ≤ ((enter s ret (delivered (g v) v e m)).rsp-lo).toNat := by
    rw [hrsp]
    bv_omega
  obtain ⟨m',hcall,hreturns⟩ := hconventional _ hneed
  have hinterrupt : interrupt g ret call (v,e) m = some (leave m') := by
    show (stubOf v).bind _ = _
    rw [hs,Option.bind_some,hcall,Option.map_some]
  constructor
  · rintro ⟨s',hs',hview⟩ m'' hcall''
    obtain rfl := Option.some.inj (hcall.symm.trans hcall'')
    obtain rfl := Option.some.inj (hinterrupt.symm.trans hs')
    exact keptAt_of_leave hview
  · intro hkept
    have hsaved : ∀ k ∈ calleeSaved, m'.r k = m.r k := fun k hk => by
      rw [hreturns.saved k hk,enter_r]
    refine ⟨leave m',hinterrupt,?_⟩
    rw [leave_eq (hkept m' hcall) hsaved]
    refine ⟨rfl,rfl,rfl,rfl,rfl,rfl,?_⟩
    intro b hb hown
    change b ∉ span lo (m.rsp-lo).toNat at hb
    rw [mem_span] at hb
    have hlen : (frame v s e m++[ret]).length = 19 := by
      rw [List.length_append,length_frame hs]
      rfl
    refine (hreturns.mem b ?_ hown).trans ?_
    · rw [mem_span,hrsp]
      bv_omega
    · rw [enter_mem]
      apply Machine.pushes_mem (by rw [hlen]; decide)
      rw [hlen,mem_span]
      bv_omega

theorem interrupt_unnoticed {need : ℕ} (ve : ℕ × Word) (m : Machine) (h : Safe own lo call need ve m) :
    Interruption.Unnoticed (interrupt g ret call) (View own lo) ve m := by
  obtain ⟨s,hready,hspares⟩ := h
  refine (interrupt_unnoticed_iff g ret hready).mpr fun m' hcall => ?_
  exact hspares _ m' _ hcall (enter_registers (g ve.1) ve.2 ret m hready.stub)

/-- A program that is interrupted any number of times and anywhere, through stubs whose function
returns and spares its argument, ends with the registers and the memory it would have ended
with alone. -/
theorem interrupts_unnoticed {A : Type} {act : A → Machine → Machine} {need : ℕ}
    (hact : ∀ a s t, View own lo s t → View own lo (act a s) (act a t))
    {es : List (Interruption.Event A (ℕ × Word))} {m : Machine}
    (h : Interruption.Guarded act (interrupt g ret call) (Safe own lo call need) m es) :
    ∃ m', Interruption.exec act (interrupt g ret call) m es = some m' ∧
      View own lo m' (Interruption.alone act m (Interruption.acts es)) := by
  have htrans : ∀ r s t, View own lo r s → View own lo s t → View own lo r t :=
    fun _ _ _ => View.trans
  exact Interruption.exec_view htrans hact (interrupt_unnoticed g ret) h (View.refl m)

end View

section Example

/-- Functions that clobber what a C function may clobber, and return. -/
def clobber : Functions := fun _ m =>
  some { m with r := fun k => if k ∈ calleeSaved then m.r k else 0, rsp := m.rsp+8, rflags := 0 }

theorem clobber_conventional (h : Handler) : Conventional ∅ 0 0 clobber h := by
  intro m _
  refine ⟨_,rfl,rfl,?_,fun _ _ _ => rfl⟩
  intro k hk
  exact if_pos hk

theorem clobber_spares (h : Handler) : Spares clobber h := by
  intro m m' s hcall hwords
  have hrest : Holds m.mem (m.rsp+8+88) ([s.intNo,s.errCode]++s.returned) :=
    @Holds.append_right _ _ s.general _ hwords
  have hreturned : Holds m.mem (m.rsp+8+88+16) s.returned := @Holds.append_right _ _ [s.intNo,s.errCode] _ hrest
  have hoff : m.rsp+8+88+16 = m.rsp+8+104 := BitVec.add_assoc (m.rsp+8) 88 16
  rw [hoff] at hreturned
  rw [← Option.some.inj hcall]
  exact ⟨hwords.append_left,hreturned⟩

def pushed (w : Word) (m : Machine) : Machine := m.push w

theorem pushed_view {own : Set Word} {lo : Word} (w : Word) (s t : Machine) (h : View own lo s t) :
    View own lo (pushed w s) (pushed w t) := by
  refine ⟨h.r,congrArg (·-8) h.rsp,h.rip,h.cs,h.rflags,h.ss,?_⟩
  intro b hb hown
  show store64 s.mem (s.rsp-8) w b = store64 t.mem (t.rsp-8) w b
  rw [← h.rsp]
  by_cases hin : b ∈ span (s.rsp-8) 8
  · rw [mem_span] at hin
    rw [store64,store64,if_pos hin,if_pos hin]
  · rw [store64_of_notMem hin,store64_of_notMem hin]
    refine h.mem b ?_ hown
    change b ∉ span lo (s.rsp-8-lo).toNat at hb
    rw [mem_span] at hb hin ⊢
    bv_omega

/-- A push, a timer interrupt, and another push. -/
theorem interrupts_unnoticed_pushes : ∃ m',
    Interruption.exec pushed (interrupt (fun _ => ⟨0,8,0x8E⟩) 7 clobber)
      ⟨fun _ => 1,0x9000,5,8,0x202,16,fun _ => 0⟩ [.act 3,.interrupt (32,0),.act 4] = some m' ∧
    View ∅ 0 m' (Interruption.alone pushed ⟨fun _ => 1,0x9000,5,8,0x202,16,fun _ => 0⟩ [3,4]) := by
  refine @interrupts_unnoticed ∅ 0 (fun _ => ⟨0,8,0x8E⟩) 7 clobber _ _ 0 pushed_view _ _
    ⟨?_,fun _ _ => trivial⟩
  exact ⟨.irq 0,⟨rfl,clobber_conventional _,by decide⟩,clobber_spares _⟩

end Example

end InterruptStubs
end ValiantCore
