import ValiantCore.Patches

/-! Line input of `bin/stdio.h`. `fgets` reads byte by byte, echoes what it stores, and stops
at the end of a line or when the buffer is full; what is left is for the next call. The
system call behind `getchar` is open: it may leave any byte in the buffer of one byte that it
is given, and does nothing else to the memory of the program. -/
namespace ValiantCore
namespace LineInput

open Bytes Patches

/-- What the calls of `sys_read` leave in their buffer, one after the other (0 if they leave it
alone), how many there were, and the bytes that were given to `sys_write`. -/
structure Io where
  input : ℕ → UInt8
  taken : ℕ
  output : List UInt8

def lineFeed : UInt8 := 10
def carriageReturn : UInt8 := 13

def putchar (io : Io) (c : UInt8) : Io := { io with output := io.output++[c] }

def getchar (io : Io) : Io × UInt8 := ({ io with taken := io.taken+1 },io.input io.taken)

/-- The calls of `getchar` from one moment to another have given these bytes. -/
structure Took (io : Io) (used : List UInt8) (io' : Io) : Prop where
  input : io'.input = io.input
  taken : io'.taken = io.taken+used.length
  bytes : Holds io.input io.taken used

/-- The loop with `n` turns left: the index, the streams and the memory that it leaves. -/
def fgetsLoop (str : ℕ) : ℕ → ℕ → Io → (ℕ → UInt8) → ℕ × Io × (ℕ → UInt8)
  | 0, index, io, m => (index,io,m)
  | n+1, index, io, m =>
    let (io,c) := getchar io
    if c = 0 ∨ c = carriageReturn ∨ c = lineFeed then
      if c = lineFeed then (index+1,putchar io c,Function.update m (str+index) c) else (index,io,m)
    else fgetsLoop str n (index+1) (putchar io c) (Function.update m (str+index) c)

/-- The address that is returned, the streams and the memory. -/
def fgets (str : Option ℕ) (num : ℤ) (io : Io) (m : ℕ → UInt8) : Option ℕ × Io × (ℕ → UInt8) :=
  match str with
  | none => (none,io,m)
  | some str =>
    if num ≤ 0 then (none,io,m)
    else
      let (index,io,m) := fgetsLoop str (num-1).toNat 0 io m
      (some str,io,Function.update m (str+index) 0)

def stringAt (m : ℕ → UInt8) (str num : ℕ) : List UInt8 := (bytesAt m str num).takeWhile (· ≠ 0)

/-- Neither NUL nor a carriage return is stored. -/
def Kept (c : UInt8) : Bool := c ≠ 0 ∧ c ≠ carriageReturn

/-- What is read with room for `n` bytes: a part of a line, which is echoed. The reading ends
with the line or with a byte that is not kept, or for want of room. -/
structure Reads (n : ℕ) (io io' : Io) (line : List UInt8) : Prop where
  used : ∃ used, Took io used io' ∧ used.filter Kept = line ∧
    (line.length = n ∨ line.getLast? = some lineFeed ∨ ∃ c ∈ used, Kept c = false)
  echo : io'.output = io.output++line
  room : line.length ≤ n
  single : ∀ c ∈ line.dropLast, c ≠ lineFeed

theorem Took.append {io io' io'' : Io} {used used' : List UInt8} (h : Took io used io') (h' : Took io' used' io'') :
    Took io (used++used') io'' := by
  refine ⟨h'.input.trans h.input,?_,?_⟩
  · rw [h'.taken,h.taken,List.length_append,Nat.add_assoc]
  · have hbytes := h'.bytes
    rw [h.input,h.taken] at hbytes
    exact holds_append.mpr ⟨h.bytes,hbytes⟩

theorem patch_cons (c : UInt8) (cs : List UInt8) (m : ℕ → UInt8) (a : ℕ) :
    patch (c::cs) m a = patch cs (Function.update m a c) (a+1) := by
  rw [← List.singleton_append,patch_append,patch_singleton,List.length_singleton]

theorem Took.next (io io' : Io) (hinput : io'.input = io.input) (htaken : io'.taken = io.taken+1) :
    Took io [io.input io.taken] io' := ⟨hinput,htaken,rfl⟩

theorem Reads.cons {n : ℕ} {c : UInt8} {line : List UInt8} {io io' io'' : Io} (htook : Took io [c] io')
    (hecho : io'.output = io.output++[c]) (hkept : Kept c = true) (hlf : c ≠ lineFeed) (h : Reads n io' io'' line) :
    Reads (n+1) io io'' (c::line) := by
  obtain ⟨used,hused,hline,hend⟩ := h.used
  refine ⟨⟨c::used,htook.append hused,?_,?_⟩,?_,Nat.succ_le_succ h.room,?_⟩
  · rw [List.filter_cons,hkept,if_pos rfl,hline]
  · rcases hend with hend | hend | ⟨d,hd,hend⟩
    · exact .inl (by rw [List.length_cons,hend])
    · refine .inr (.inl ?_)
      rw [List.getLast?_cons,hend]
      rfl
    · exact .inr (.inr ⟨d,List.mem_cons_of_mem c hd,hend⟩)
  · rw [h.echo,hecho,List.append_assoc]
    rfl
  · intro d hd
    cases line with
    | nil => cases hd
    | cons l ls =>
      rw [List.dropLast_cons_cons] at hd
      rcases List.mem_cons.mp hd with rfl | hd
      · exact hlf
      · exact h.single d hd

theorem fgetsLoop_spec (str n index : ℕ) (io : Io) (m : ℕ → UInt8) : ∃ io' line,
    fgetsLoop str n index io m = (index+line.length,io',patch line m (str+index)) ∧
      Reads n io io' line := by
  induction n generalizing index io m with
  | zero =>
    exact ⟨io,[],by rw [fgetsLoop,patch_nil]; rfl,⟨⟨[],⟨rfl,rfl,rfl⟩,rfl,.inl rfl⟩,by simp,le_rfl,by simp⟩⟩
  | succ n ih =>
    -- the byte has been taken, whatever comes of it
    have htook := Took.next io
    have hget : getchar io = ({ io with taken := io.taken+1 },io.input io.taken) := rfl
    rw [fgetsLoop,hget]
    generalize io.input io.taken = c at htook
    dsimp only
    by_cases hlf : c = lineFeed
    · rw [if_pos (Or.inr (Or.inr hlf)),if_pos hlf]
      refine ⟨putchar { io with taken := io.taken+1 } c,[c],by rw [patch_singleton]; rfl,
        ⟨⟨[c],htook _ rfl rfl,?_,?_⟩,rfl,by simp,by simp⟩⟩
      · rw [hlf]
        rfl
      · exact .inr (.inl (by rw [hlf]; rfl))
    · by_cases hstop : c = 0 ∨ c = carriageReturn
      · have hkept : Kept c = false := by
          rcases hstop with rfl | rfl <;> rfl
        rw [if_pos (by tauto),if_neg hlf]
        refine ⟨{ io with taken := io.taken+1 },[],by rw [patch_nil]; rfl,
          ⟨⟨[c],htook _ rfl rfl,?_,?_⟩,by simp,Nat.zero_le _,by simp⟩⟩
        · rw [List.filter_cons,hkept]
          rfl
        · exact .inr (.inr ⟨c,List.mem_singleton_self c,hkept⟩)
      · have hkept : Kept c = true := by
          rw [Kept,decide_eq_true_iff]
          tauto
        rw [if_neg (by tauto)]
        obtain ⟨io',line,heq,hreads⟩ := ih (index+1) (putchar { io with taken := io.taken+1 } c)
          (Function.update m (str+index) c)
        have hnext := htook (putchar { io with taken := io.taken+1 } c) rfl rfl
        refine ⟨io',c::line,?_,.cons hnext rfl hkept hlf hreads⟩
        rw [heq,patch_cons,List.length_cons,Nat.add_assoc,Nat.add_comm 1]
        rfl

/-- What `fgets` does: the part of a line that it reads is the string in its buffer, and it
writes nothing behind the buffer. -/
theorem fgets_spec (str : ℕ) {num : ℤ} (hnum : 0 < num) (io : Io) (m : ℕ → UInt8) : ∃ io' m' line,
    fgets (some str) num io m = (some str,io',m') ∧ stringAt m' str num.toNat = line ∧
      Reads (num.toNat-1) io io' line ∧ ∀ a, ¬ (str ≤ a ∧ a < str+num.toNat) → m' a = m a := by
  obtain ⟨io',line,heq,hreads⟩ := fgetsLoop_spec str (num-1).toNat 0 io m
  have hroom : (num-1).toNat = num.toNat-1 := by omega
  rw [hroom] at heq hreads
  have hlength := hreads.room
  obtain ⟨used,-,hline,-⟩ := hreads.used
  have hm : Function.update (patch line m str) (str+line.length) 0 = patch (line++[0]) m str := by
    rw [patch_append,patch_singleton]
  refine ⟨io',patch (line++[0]) m str,line,?_,?_,hreads,fun a ha => ?_⟩
  · rw [fgets,if_neg (by omega),hroom,heq,Nat.zero_add,Nat.add_zero]
    show (some str,io',Function.update (patch line m str) (str+line.length) 0) = _
    rw [hm]
  · obtain ⟨rest,hrest⟩ := Nat.exists_eq_add_of_le (show (line++[0]).length ≤ num.toNat by
      rw [List.length_append,List.length_singleton]
      omega)
    have hbytes := holds_patch (line++[0]) m str
    have hnonzero : ∀ c ∈ line, (c ≠ 0) = True := fun c hc => by
      rw [← hline,List.mem_filter,Kept,decide_eq_true_iff] at hc
      exact eq_true hc.2.1
    rw [Bytes.Holds] at hbytes
    rw [stringAt,hrest,bytesAt_add,hbytes,List.append_assoc,List.takeWhile_append_of_pos]
    · simp
    · intro c hc
      simp only [hnonzero c hc,decide_true]
  · rw [patch,if_neg]
    rw [List.length_append,List.length_singleton]
    omega

/-- Calls of `fgets` one after the other, each with its buffer: the strings that the program
finds in them, and what the calls leave. -/
def session : List (ℕ × ℤ) → Io → (ℕ → UInt8) → List (List UInt8) × Io × (ℕ → UInt8)
  | [], io, m => ([],io,m)
  | (str,num)::calls, io, m =>
    let r := fgets (some str) num io m
    let rest := session calls r.2.1 r.2.2
    (stringAt r.2.2 str num.toNat::rest.1,rest.2)

/-- Whatever the system calls give and whatever the sizes of the buffers, the strings put together
are the bytes that have been taken, without NULs and carriage returns; they are what was
echoed, a line ends only at the end of a string, and no byte outside of the buffers is
written. -/
theorem session_spec (calls : List (ℕ × ℤ)) (hcalls : ∀ c ∈ calls, 0 < c.2) (io : Io) (m : ℕ → UInt8) :
    (∃ used, Took io used (session calls io m).2.1 ∧ (session calls io m).1.flatten = used.filter Kept) ∧
    (session calls io m).2.1.output = io.output++(session calls io m).1.flatten ∧
    (∀ line ∈ (session calls io m).1, ∀ c ∈ line.dropLast, c ≠ lineFeed) ∧
    ∀ a, (∀ c ∈ calls, ¬ (c.1 ≤ a ∧ a < c.1+c.2.toNat)) → (session calls io m).2.2 a = m a := by
  induction calls generalizing io m with
  | nil => exact ⟨⟨[],⟨rfl,rfl,rfl⟩,rfl⟩,by simp [session],by simp [session],fun _ _ => rfl⟩
  | cons call calls ih =>
    obtain ⟨str,num⟩ := call
    obtain ⟨io',m',line,hcall,hstring,hreads,hrest⟩ :=
      fgets_spec str (hcalls (str,num) List.mem_cons_self) io m
    obtain ⟨⟨used',hused',hlines'⟩,houtput',hsingle',hmemory'⟩ :=
      ih (fun c hc => hcalls c (List.mem_cons_of_mem _ hc)) io' m'
    obtain ⟨used,hused,hline,-⟩ := hreads.used
    have hsession : session ((str,num)::calls) io m =
        (line::(session calls io' m').1,(session calls io' m').2) := by
      rw [session,hcall]
      dsimp only
      rw [hstring]
    rw [hsession]
    refine ⟨⟨used++used',hused.append hused',?_⟩,?_,?_,fun a ha => ?_⟩
    · rw [List.flatten_cons,hlines',List.filter_append,hline]
    · rw [houtput',hreads.echo,List.flatten_cons,List.append_assoc]
    · intro l hl
      rcases List.mem_cons.mp hl with rfl | hl
      · exact hreads.single
      · exact hsingle' l hl
    · rw [hmemory' a fun c hc => ha c (List.mem_cons_of_mem _ hc)]
      exact hrest a (ha (str,num) List.mem_cons_self)

/-- The system calls give a word and the end of its line, and nothing after that. -/
def typed : Io := ⟨fun k => [104,105,13,10].getD k 0,0,[]⟩

/-- A buffer of three takes two bytes; the carriage return ends the string after them. -/
theorem session_spec_two :
    (session [(100,3),(100,3)] typed fun _ => 7).1 = [[104,105],[]] ∧
      (session [(100,3),(100,3)] typed fun _ => 7).2.1.output = [104,105] :=
  ⟨by decide,(session_spec [(100,3),(100,3)] (by decide) typed fun _ => 7).2.1⟩

end LineInput
end ValiantCore
