import ValiantCore.Fat32Names
import ValiantCore.PaddedFields
import ValiantCore.Patches

/-! The strings that `fat32_8dot3_to_name` leaves in the buffer of its caller. What the copy
loops make of a name and an extension can be undone, so that no two pairs give one string. -/
namespace ValiantCore
namespace Fat32

open Bytes Patches PaddedFields

/-- The buffer, and the place in it that is written next. -/
structure Output where
  out : ℕ → UInt8
  j : ℕ

def Output.put (o : Output) (c : UInt8) : Output := ⟨Function.update o.out o.j c,o.j+1⟩

/-- Either copy loop: `i < n && j < limit && src[i] != ' '`. -/
def copyChars (src : List UInt8) (n limit i : ℕ) (o : Output) : Output :=
  if i < n ∧ o.j < limit ∧ src.getD i 0 ≠ 0x20 then copyChars src n limit (i+1) (o.put (src.getD i 0)) else o
termination_by n-i

/-- The buffer after the call. None of the three pointers is null; the length is a
`uint32_t`, and so are its two differences. -/
def fat328dot3ToName (name83 ext : List UInt8) (out : ℕ → UInt8) (outLen : UInt32) : ℕ → UInt8 :=
  if outLen = 0 then out
  else
    let o := copyChars name83 8 (outLen-1).toNat 0 ⟨out,0⟩
    let o := if ext.getD 0 0 ≠ 0x20 ∧ o.j < (outLen-2).toNat then
        copyChars ext 3 (outLen-1).toNat 0 (o.put 0x2E)
      else o
    Function.update o.out o.j 0

def HoldsString (m : ℕ → UInt8) (s : List UInt8) : Prop := Holds m 0 (s++[0]) ∧ 0 ∉ s

/-- A name and an extension as a directory entry holds them. -/
structure ShortName where
  name : List UInt8
  ext : List UInt8
  name_length : name.length = 8
  ext_length : ext.length = 3
  plain : ∀ c ∈ name++ext, c ≠ 0 ∧ c ≠ 0x2E
  name_padded : Padded 0x20 name
  ext_padded : Padded 0x20 ext
  begins : name.head? ≠ some 0x20
  deriving DecidableEq, Repr

def Output.write (o : Output) (cs : List UInt8) : Output := ⟨patch cs o.out o.j,o.j+cs.length⟩

theorem Output.put_eq_write (o : Output) (c : UInt8) : o.put c = o.write [c] := by
  rw [write,patch_singleton]
  rfl

theorem Output.write_write (o : Output) (xs ys : List UInt8) : (o.write xs).write ys = o.write (xs++ys) := by
  simp only [write,patch_append,List.length_append,Nat.add_assoc]

theorem Output.write_nil (o : Output) : o.write [] = o := by
  rw [write,patch_nil]
  rfl

theorem Output.terminate (o : Output) : Function.update o.out o.j 0 = (o.write [0]).out := by
  rw [write,patch_singleton]

theorem copyChars_eq {src : List UInt8} {n : ℕ} (hn : n ≤ src.length) (limit i : ℕ) (o : Output) :
    copyChars src n limit i o = o.write ((unpad 0x20 ((src.take n).drop i)).take (limit-o.j)) := by
  fun_induction copyChars src n limit i o with
  | case1 i o h ih =>
    obtain ⟨hi,hj,hc⟩ := h
    have hlt : i < (src.take n).length := by
      rw [List.length_take]
      omega
    have hrest : (src.take n).drop i = src.getD i 0::(src.take n).drop (i+1) := by
      rw [List.drop_eq_getElem_cons hlt,List.getElem_take,List.getD_eq_getElem _ _ (by omega)]
    have hroom : limit-o.j = limit-(o.put (src.getD i 0)).j+1 := by
      simp only [Output.put]
      omega
    rw [ih,hrest,unpad_cons,if_neg hc,hroom,List.take_succ_cons,Output.put_eq_write,Output.write_write]
    rfl
  | case2 i o h =>
    have hnone : (unpad 0x20 ((src.take n).drop i)).take (limit-o.j) = [] := by
      rcases Nat.lt_or_ge i n with hi | hi
      · rcases Nat.lt_or_ge o.j limit with hj | hj
        · have hc : src.getD i 0 = 0x20 := by
            by_contra hc
            exact h ⟨hi,hj,hc⟩
          have hlt : i < (src.take n).length := by
            rw [List.length_take]
            omega
          rw [List.drop_eq_getElem_cons hlt,List.getElem_take,← List.getD_eq_getElem src 0 (by omega),hc,
            unpad_cons,if_pos rfl,List.take_nil]
        · rw [Nat.sub_eq_zero_of_le hj,List.take_zero]
      · rw [List.drop_eq_nil_of_le (by rw [List.length_take]; omega),unpad_nil,List.take_nil]
    rw [hnone,Output.write_nil]

/-- The string that is made where there is room for `limit` characters. -/
def clip (limit : ℕ) (name83 ext : List UInt8) : List UInt8 :=
  let stem := (unpad 0x20 (name83.take 8)).take limit
  if ext.getD 0 0 ≠ 0x20 ∧ stem.length+1 < limit then
    stem++0x2E::(unpad 0x20 (ext.take 3)).take (limit-(stem.length+1))
  else stem

section Buffer
variable {name83 ext : List UInt8} (hname : 8 ≤ name83.length) (hext : 3 ≤ ext.length)

theorem clip_length_le (limit : ℕ) (name83 ext : List UInt8) : (clip limit name83 ext).length ≤ limit := by
  have hstem := List.length_take_le limit (unpad 0x20 (name83.take 8))
  unfold clip
  dsimp only
  split_ifs with hdot
  · have hpiece := List.length_take_le (limit-(((unpad 0x20 (name83.take 8)).take limit).length+1))
      (unpad 0x20 (ext.take 3))
    rw [List.length_append,List.length_cons]
    omega
  · exact hstem

include hname hext

theorem fat328dot3ToName_clip {outLen : UInt32} (hlen : 2 ≤ outLen.toNat) (out : ℕ → UInt8) :
    fat328dot3ToName name83 ext out outLen = patch (clip (outLen.toNat-1) name83 ext++[0]) out 0 := by
  have hsub1 : (outLen-1).toNat = outLen.toNat-1 :=
    UInt32.toNat_sub_of_le _ _ (UInt32.le_iff_toNat_le.mpr (Nat.le_of_succ_le hlen))
  have hsub2 : (outLen-2).toNat = outLen.toNat-2 :=
    UInt32.toNat_sub_of_le _ _ (UInt32.le_iff_toNat_le.mpr hlen)
  have hne : outLen ≠ 0 := by
    rintro rfl
    exact absurd hlen (by decide)
  let stem := (unpad 0x20 (name83.take 8)).take (outLen.toNat-1)
  have hstem : copyChars name83 8 (outLen-1).toNat 0 ⟨out,0⟩ = Output.write ⟨out,0⟩ stem := by
    rw [copyChars_eq hname,hsub1,List.drop_zero,Nat.sub_zero]
  have hj : (Output.write ⟨out,0⟩ stem).j = stem.length := Nat.zero_add _
  have hroom : stem.length < outLen.toNat-2 ↔ stem.length+1 < outLen.toNat-1 := by omega
  rw [fat328dot3ToName,if_neg hne]
  simp only [hstem,hj,hsub2,hroom,Output.terminate]
  have hclip : clip (outLen.toNat-1) name83 ext = if ext.getD 0 0 ≠ 0x20 ∧ stem.length+1 < outLen.toNat-1 then
      stem++0x2E::(unpad 0x20 (ext.take 3)).take (outLen.toNat-1-(stem.length+1)) else stem := rfl
  change _ = (Output.write ⟨out,0⟩ (clip (outLen.toNat-1) name83 ext++[0])).out
  rw [hclip]
  split_ifs with hdot
  · have hext' : copyChars ext 3 (outLen-1).toNat 0 (Output.write ⟨out,0⟩ (stem++[0x2E])) =
        Output.write ⟨out,0⟩ (stem++[0x2E]++(unpad 0x20 (ext.take 3)).take (outLen.toNat-1-(stem.length+1))) := by
      have hj' : (Output.write ⟨out,0⟩ (stem++[0x2E])).j = stem.length+1 := by
        rw [Output.write,List.length_append,List.length_singleton,Nat.zero_add]
      rw [copyChars_eq hext,hsub1,List.drop_zero,hj',Output.write_write]
    rw [Output.put_eq_write,Output.write_write,hext',Output.write_write,List.append_assoc stem,List.singleton_append]
  · rw [Output.write_write]

/-- The call writes behind the buffer just if it has a single place and there is an extension:
`out_len - 2` wraps, and the NUL stands behind the dot. -/
theorem stays_in_buffer_iff (outLen : UInt32) :
    (∀ out, ∀ a ≥ outLen.toNat, fat328dot3ToName name83 ext out outLen a = out a) ↔
      outLen ≠ 1 ∨ ext.getD 0 0 = 0x20 := by
  by_cases hone : outLen = 1
  · subst hone
    rw [or_iff_right (not_not_intro rfl)]
    have hnone : ∀ src n o, copyChars src n ((1:UInt32)-1).toNat 0 o = o := by
      intro src n o
      rw [copyChars,if_neg]
      rintro ⟨-,hj,-⟩
      exact Nat.not_lt_zero _ hj
    constructor
    · intro hstays
      by_contra hdot
      -- the dot takes the only place, whatever stands behind the buffer
      have hbehind := hstays (fun _ => 1) 1 le_rfl
      rw [fat328dot3ToName,if_neg (by decide)] at hbehind
      simp only [hnone,if_pos (show ext.getD 0 0 ≠ 0x20 ∧ 0 < ((1:UInt32)-2).toNat from ⟨hdot,by decide⟩)] at hbehind
      exact absurd hbehind (by decide)
    · intro hblank out a ha
      rw [fat328dot3ToName,if_neg (by decide)]
      simp only [hnone,hblank,ne_eq,not_true_eq_false,false_and,if_false]
      exact Function.update_of_ne (by rintro rfl; exact absurd ha (by decide)) _ _
  · refine iff_of_true (fun out a ha => ?_) (Or.inl hone)
    by_cases hzero : outLen = 0
    · rw [fat328dot3ToName,if_pos hzero]
    · have hlen : 2 ≤ outLen.toNat := by
        have h0 : outLen.toNat ≠ 0 := fun h => hzero (UInt32.toNat_inj.mp h)
        have h1 : outLen.toNat ≠ 1 := fun h => hone (UInt32.toNat_inj.mp h)
        omega
      have hclip := clip_length_le (outLen.toNat-1) name83 ext
      rw [fat328dot3ToName_clip hname hext hlen]
      refine patch_of_le ?_
      rw [List.length_append,List.length_singleton]
      omega

omit hname in
theorem clip_eq_name8dot3 {limit : ℕ} (hlimit : 12 ≤ limit) : clip limit name83 ext = name8dot3 name83 ext := by
  have hstem : (unpad 0x20 (name83.take 8)).length ≤ 8 := (unpad_length_le _).trans (List.length_take_le _ _)
  have hpiece : (unpad 0x20 (ext.take 3)).length ≤ 3 := (unpad_length_le _).trans (List.length_take_le _ _)
  cases ext with
  | nil => exact absurd hext (by decide)
  | cons c ext =>
    have hdot : ((c::ext).getD 0 0 ≠ 0x20 ∧ (unpad 0x20 (name83.take 8)).length+1 < limit) ↔
        (c::ext).head? ≠ some 0x20 := by
      rw [List.head?_cons,ne_eq,ne_eq,Option.some_inj]
      exact and_iff_left (by omega)
    have hwhole : (unpad 0x20 (name83.take 8)).take limit = unpad 0x20 (name83.take 8) :=
      List.take_of_length_le (by omega)
    have hrest : (unpad 0x20 ((c::ext).take 3)).take (limit-((unpad 0x20 (name83.take 8)).length+1)) =
        unpad 0x20 ((c::ext).take 3) := List.take_of_length_le (by omega)
    rw [clip]
    simp only [hwhole,hdot,hrest]
    rfl

end Buffer

/-- The pair that a string has been made of. -/
def toShortName (s : List UInt8) : List UInt8 × List UInt8 :=
  ((cut 0x2E s).1.rightpad 8 0x20,(cut 0x2E s).2.rightpad 3 0x20)

section Names
variable {n n' : ShortName}

theorem ShortName.eq_of_pair (h : (n.name,n.ext) = (n'.name,n'.ext)) : n = n' := by
  cases n
  cases n'
  obtain ⟨rfl,rfl⟩ := Prod.mk.inj h
  rfl

theorem ShortName.name8dot3_eq (n : ShortName) :
    name8dot3 n.name n.ext = join 0x2E (unpad 0x20 n.name) (unpad 0x20 n.ext) := by
  have hname : n.name.take 8 = n.name := List.take_of_length_le n.name_length.le
  have hext : n.ext.take 3 = n.ext := List.take_of_length_le n.ext_length.le
  have hempty : unpad 0x20 n.ext = [] ↔ n.ext.head? = some 0x20 := by
    have hlen := n.ext_length
    cases hcs : n.ext with
    | nil =>
      rw [hcs] at hlen
      exact absurd hlen (by decide)
    | cons c cs =>
      rw [unpad_cons,List.head?_cons,Option.some_inj]
      by_cases hc : c = 0x20
      · rw [if_pos hc]
        exact iff_of_true rfl hc
      · rw [if_neg hc]
        exact iff_of_false (List.cons_ne_nil _ _) hc
  rw [name8dot3,join,hname,hext]
  simp only [hempty,ne_eq,ite_not]
  rfl

theorem ShortName.toShortName_name8dot3 (n : ShortName) : toShortName (name8dot3 n.name n.ext) = (n.name,n.ext) := by
  have hdot : 0x2E ∉ unpad 0x20 n.name := by
    intro hmem
    exact (n.plain _ (List.mem_append_left _ (mem_of_mem_unpad hmem))).2 rfl
  have hname := rightpad_unpad n.name_padded
  have hext := rightpad_unpad n.ext_padded
  rw [n.name_length] at hname
  rw [n.ext_length] at hext
  rw [toShortName,n.name8dot3_eq,cut_join hdot,hname,hext]

theorem ShortName.zero_notMem (n : ShortName) : 0 ∉ name8dot3 n.name n.ext := by
  rw [n.name8dot3_eq]
  intro hmem
  rcases mem_join hmem with h | h | h
  · exact (n.plain 0 (List.mem_append_left _ (mem_of_mem_unpad h))).1 rfl
  · exact absurd h (by decide)
  · exact (n.plain 0 (List.mem_append_right _ (mem_of_mem_unpad h))).1 rfl

theorem ShortName.name8dot3_length (n : ShortName) : (name8dot3 n.name n.ext).length ≤ 12 := by
  have hstem : (unpad 0x20 n.name).length ≤ n.name.length := unpad_length_le _
  have hext : (unpad 0x20 n.ext).length ≤ n.ext.length := unpad_length_le _
  have hjoin : (join 0x2E (unpad 0x20 n.name) (unpad 0x20 n.ext)).length ≤ _ := join_length_le _ _
  rw [n.name_length] at hstem
  rw [n.ext_length] at hext
  rw [n.name8dot3_eq]
  omega

theorem ShortName.holdsString (n : ShortName) (out : ℕ → UInt8) :
    HoldsString (fat328dot3ToName n.name n.ext out 64) (name8dot3 n.name n.ext) := by
  rw [fat328dot3ToName_clip n.name_length.ge n.ext_length.ge (by decide),clip_eq_name8dot3 n.ext_length.ge (by decide)]
  exact ⟨holds_patch _ _ _,n.zero_notMem⟩

theorem name8dot3_injective (h : name8dot3 n.name n.ext = name8dot3 n'.name n'.ext) : n = n' := by
  have hpair := n.toShortName_name8dot3
  rw [h,n'.toShortName_name8dot3] at hpair
  exact (ShortName.eq_of_pair hpair).symm

end Names

theorem HoldsString.unique {m : ℕ → UInt8} {s s' : List UInt8} (h : HoldsString m s) (h' : HoldsString m s') :
    s = s' := by
  have hread : ∀ {t : List UInt8} {n : ℕ}, HoldsString m t → (bytesAt m 0 (t.length+1+n)).takeWhile (· ≠ 0) = t := by
    rintro t n ⟨hholds,hnonzero⟩
    rw [Holds,List.length_append,List.length_singleton] at hholds
    have hchars : ∀ c ∈ t, decide (c ≠ 0) = true := fun c hc => decide_eq_true (ne_of_mem_of_not_mem hc hnonzero)
    rw [bytesAt_add,hholds,List.append_assoc,List.takeWhile_append_of_pos hchars]
    simp
  have hs := hread (n := s'.length) h
  have hs' := hread (n := s.length) h'
  rw [show s'.length+1+s.length = s.length+1+s'.length by omega,hs] at hs'
  exact hs'

/-- A call on a well-formed name makes a string of 12 characters at most, and calls on
different names make different strings, whatever their buffers held. -/
theorem fat328dot3ToName_injective (n n' : ShortName) (out out' : ℕ → UInt8) :
    (∃ s, HoldsString (fat328dot3ToName n.name n.ext out 64) s ∧ s.length ≤ 12) ∧
      (n ≠ n' → ∀ s s', HoldsString (fat328dot3ToName n.name n.ext out 64) s →
        HoldsString (fat328dot3ToName n'.name n'.ext out' 64) s' → s ≠ s') := by
  refine ⟨⟨_,n.holdsString out,n.name8dot3_length⟩,?_⟩
  rintro hne s s' hs hs' rfl
  have hmade := hs.unique (n.holdsString out)
  have hmade' := hs'.unique (n'.holdsString out')
  exact hne (name8dot3_injective (hmade.symm.trans hmade'))

def kernelBin : ShortName :=
  ⟨[75,69,82,78,69,76,32,32],[66,73,78],rfl,rfl,by simp,by decide,by decide,by decide⟩

def kernelbiN : ShortName :=
  ⟨[75,69,82,78,69,76,66,73],[78,32,32],rfl,rfl,by simp,by decide,by decide,by decide⟩

theorem fat328dot3ToName_injective_demo :
    name8dot3 kernelBin.name kernelBin.ext ≠ name8dot3 kernelbiN.name kernelbiN.ext := by
  have hne : kernelBin ≠ kernelbiN := by decide
  exact (fat328dot3ToName_injective kernelBin kernelbiN (fun _ => 0xFF) fun _ => 0xFF).2 hne _ _
    (kernelBin.holdsString _) (kernelbiN.holdsString _)

theorem nameBuf_eq (sec : Sector) (i : ℕ) (out : ℕ → UInt8) :
    fat328dot3ToName (readDirEntry sec i).name (readDirEntry sec i).ext out 64 =
      patch (name8dot3 (readDirEntry sec i).name (readDirEntry sec i).ext++[0]) out 0 := by
  have hname : 8 ≤ (readDirEntry sec i).name.length := (bytesAt_length _ _ _).ge
  have hext : 3 ≤ (readDirEntry sec i).ext.length := (bytesAt_length _ _ _).ge
  rw [fat328dot3ToName_clip hname hext (by decide),clip_eq_name8dot3 hext (by decide)]

def DirEntry.Bears (e : DirEntry) (n : ShortName) : Prop := e.name = n.name ∧ e.ext = n.ext

theorem DirEntry.Bears.fileName {e : DirEntry} {n : ShortName} (h : e.Bears n) :
    e.fileName = name8dot3 n.name n.ext := by
  have hchars : ∀ c ∈ name8dot3 n.name n.ext, decide (c ≠ 0) = true :=
    fun c hc => decide_eq_true (ne_of_mem_of_not_mem hc n.zero_notMem)
  rw [DirEntry.fileName,h.1,h.2,List.takeWhile_eq_self_iff.mpr hchars]

section Directory
variable {s : State} {path : List UInt8}

theorem opened_entry (hinit : s.initialized = true) (hnul : 0 ∉ path) {fd : ℕ}
    (hslot : Slots.firstSlot maxFiles (fun i => !(s.files i).active) = some fd) {fuel : ℕ} {r : ℤ} (hr : 0 ≤ r)
    (hopen : (fat32Open fuel s (some path)).2.1 = .returned r) :
    ∃ e, Live s e ∧ e.fileName = path ∧ (fat32Open fuel s (some path)).1.files fd = openedFile e := by
  rcases openWalk_cases fuel s path with ⟨e,he,hlast,hstops,hscan⟩ | ⟨-,hnone,-⟩
  · obtain ⟨hlive,hname,-⟩ := (openStops_iff hnul hlast).mp hstops
    refine ⟨e,⟨hlast,hlive,fuel,he⟩,hname,?_⟩
    rw [fat32Open_eq path hinit hslot,hscan]
    simp [State.setFile]
  · obtain ⟨e,he,hlast,hstops⟩ := (fat32Open_found_iff hinit hslot fuel).mp ⟨r,hr,hopen⟩
    exact Bool.noConfusion (hstops.symm.trans (hnone e he hlast))

/-- In a directory of well-formed names that all differ, the path of a file opens that file. -/
theorem opens_own_file (hinit : s.initialized = true) {fd : ℕ}
    (hslot : Slots.firstSlot maxFiles (fun i => !(s.files i).active) = some fd)
    (hnames : ∀ e, Live s e → ∃ n : ShortName, e.Bears n)
    (hapart : ∀ e e', Live s e → Live s e' → e.name = e'.name → e.ext = e'.ext → e = e')
    {e : DirEntry} (he : Live s e) {fuel : ℕ} {r : ℤ} (hr : 0 ≤ r)
    (hopen : (fat32Open fuel s (some e.fileName)).2.1 = .returned r) :
    (fat32Open fuel s (some e.fileName)).1.files fd = openedFile e := by
  obtain ⟨n,hn⟩ := hnames e he
  have hnul : 0 ∉ e.fileName := by
    rw [hn.fileName]
    exact n.zero_notMem
  obtain ⟨e',he',hname,hfile⟩ := opened_entry hinit hnul hslot hr hopen
  obtain ⟨n',hn'⟩ := hnames e' he'
  rw [hn.fileName,hn'.fileName] at hname
  obtain rfl := name8dot3_injective hname
  rw [hfile,hapart e' e he' he (hn'.1.trans hn.1.symm) (hn'.2.trans hn.2.symm)]

end Directory

end Fat32
end ValiantCore
