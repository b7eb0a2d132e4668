import ValiantCore.Runs
import ValiantCore.Slots
import Mathlib.Data.Fintype.Card

/-! The 32-bit page tables of `memory/paging.c`. `map_page` writes through two levels;
the walk reads them back. What the walk then gives is exactly the history of calls only
for the pages on the diagonal, whose index in the table is that of the directory. -/
namespace ValiantCore
namespace Paging

/-- `addr_t` and `pte_t` of the 32-bit layout. -/
abbrev Word := BitVec 32

def addrMask : Word := 0xFFFFF000#32
def pagePresent : Word := 0x1#32

theorem and_lt_1024 (x : Word) : (x &&& 0x3FF#32).toNat < 1024 := by
  rw [BitVec.toNat_and]
  exact lt_of_le_of_lt Nat.and_le_right (by decide)

/-- `PT_INDEX`: the mask keeps the index inside a table. -/
def ptIndex (vaddr : Word) : Fin 1024 := ⟨((vaddr >>> 12) &&& 0x3FF#32).toNat,and_lt_1024 _⟩

def pdIndex (vaddr : Word) : Fin 1024 := ⟨((vaddr >>> 22) &&& 0x3FF#32).toNat,and_lt_1024 _⟩

/-- The words of the frames, by byte address. -/
abbrev Memory := Word → Word

def entryAddr (table : Word) (i : Fin 1024) : Word := table + BitVec.ofNat 32 (4*i)

/-- `kernel_page_directory`, which is apart from all frames, the memory its tables lie
in, and the number of frames asked for so far. -/
structure Pages where
  kernelPageDirectory : Fin 1024 → Word
  memory : Memory
  requests : ℕ

/-- The directory is static storage, so it is zero at first. -/
def boot (memory : Memory) : Pages := ⟨fun _ => 0#32,memory,0⟩

/-- `request_physical_page`, which is linked in from elsewhere: the frame it returns
for the `n`-th request and the memory it leaves behind. -/
abbrev Request := ℕ → Memory → Word × Memory

/-- Requests are answered with zeroed page-aligned frames that do not overlap. A full
directory has 1024 tables. -/
structure FreshFrames (request : Request) : Prop where
  aligned : ∀ n < 1024, ∀ m, (request n m).1 &&& addrMask = (request n m).1
  zeroed : ∀ n < 1024, ∀ m i, (request n m).2 (entryAddr (request n m).1 i) = 0#32
  disjoint : ∀ n < 1024, ∀ n' < 1024, ∀ m m', (request n m).1 = (request n' m').1 → n = n'
  untouched : ∀ n < 1024, ∀ m table i, table &&& addrMask = table → table ≠ (request n m).1 →
    (request n m).2 (entryAddr table i) = m (entryAddr table i)

/-- The first half of `map_page`: a directory entry that is not present gets a table. -/
def touchTable (request : Request) (s : Pages) (pdIdx : Fin 1024) (flags : Word) : Pages :=
  if s.kernelPageDirectory pdIdx &&& pagePresent = 0#32 then
    let r := request s.requests s.memory
    { kernelPageDirectory := Function.update s.kernelPageDirectory pdIdx (r.1 ||| flags ||| pagePresent)
      memory := r.2
      requests := s.requests+1 }
  else s

/-- `map_page`. The source computes `pt_idx` and then stores at `table[pd_idx]`. -/
def mapPage (request : Request) (s : Pages) (phys virt flags : Word) : Pages :=
  let pdIdx := pdIndex virt
  let s := touchTable request s pdIdx flags
  let table := s.kernelPageDirectory pdIdx &&& addrMask
  { s with memory :=
      Function.update s.memory (entryAddr table pdIdx) ((phys &&& addrMask) ||| flags ||| pagePresent) }

/-- A present entry holds a frame and, in its low twelve bits, flags. -/
def entry (pte : Word) : Option (Word × Word) :=
  if pte &&& pagePresent = 0#32 then none else some (pte &&& addrMask,pte &&& ~~~addrMask)

/-- The walk the processor makes for `virt`; `none` is "not present". -/
def walk (s : Pages) (virt : Word) : Option (Word × Word) :=
  let pde := s.kernelPageDirectory (pdIndex virt)
  if pde &&& pagePresent = 0#32 then none
  else entry (s.memory (entryAddr (pde &&& addrMask) (ptIndex virt)))

structure Call where
  phys : Word
  virt : Word
  flags : Word

def step (request : Request) (s : Pages) (c : Call) : Pages × Unit :=
  (mapPage request s c.phys c.virt c.flags,())

def after (request : Request) (memory : Memory) (calls : List Call) : Pages :=
  Runs.exec (step request) (boot memory) calls

def page (virt : Word) : Word := virt >>> 12

/-- What the calls have asked for: the last one whose address lies in the page decides. -/
def lastMapping (calls : List Call) (virt : Word) : Option (Word × Word) :=
  (calls.reverse.find? fun c => page c.virt = page virt).map fun c =>
    (c.phys &&& addrMask,c.flags ||| pagePresent)

/-- The tables are the map the calls describe, and the last call has changed the
translation of its own page only. -/
structure TablesAreMap (request : Request) (memory : Memory) (calls : List Call) : Prop where
  walk_eq : ∀ virt, walk (after request memory calls) virt = lastMapping calls virt
  others : ∀ pre c, calls = pre++[c] → ∀ virt, page virt ≠ page c.virt →
    walk (after request memory calls) virt = walk (after request memory pre) virt

theorem pagePresent_and_addrMask : pagePresent &&& addrMask = 0#32 := by decide

theorem or_pagePresent_and (x : Word) : (x ||| pagePresent) &&& pagePresent ≠ 0#32 := by
  intro h
  have hbit := congrArg (fun w : Word => w.getLsbD 0) h
  simp [pagePresent] at hbit

theorem frame_of_entry {frame flags : Word} (hframe : frame &&& addrMask = frame)
    (hflags : flags &&& addrMask = 0#32) : (frame ||| flags ||| pagePresent) &&& addrMask = frame := by
  rw [BitVec.and_or_distrib_right,BitVec.and_or_distrib_right,hframe,hflags,pagePresent_and_addrMask]
  simp

theorem flags_of_entry {frame flags : Word} (hframe : frame &&& addrMask = frame)
    (hflags : flags &&& addrMask = 0#32) :
    (frame ||| flags ||| pagePresent) &&& ~~~addrMask = flags ||| pagePresent := by
  have hlow : frame &&& ~~~addrMask = 0#32 := by
    rw [← hframe,BitVec.and_assoc,BitVec.and_not_self]
    simp
  have hkeep : flags &&& ~~~addrMask = flags := by
    have hsplit : flags &&& (addrMask ||| ~~~addrMask) = flags := by
      rw [BitVec.or_not_self]
      exact BitVec.and_allOnes
    rw [BitVec.and_or_distrib_left,hflags] at hsplit
    simpa using hsplit
  have hpresent : pagePresent &&& ~~~addrMask = pagePresent := by decide
  rw [BitVec.and_or_distrib_right,BitVec.and_or_distrib_right,hlow,hkeep,hpresent]
  simp

theorem and_addrMask_idem (x : Word) : x &&& addrMask &&& addrMask = x &&& addrMask := by
  rw [BitVec.and_assoc,BitVec.and_self]

theorem entry_pte {phys flags : Word} (hflags : flags &&& addrMask = 0#32) :
    entry ((phys &&& addrMask) ||| flags ||| pagePresent) =
      some (phys &&& addrMask,flags ||| pagePresent) := by
  rw [entry,if_neg (or_pagePresent_and _),frame_of_entry (and_addrMask_idem phys) hflags,
    flags_of_entry (and_addrMask_idem phys) hflags]

theorem aligned_mod {table : Word} (h : table &&& addrMask = table) : table.toNat % 4096 = 0 := by
  have hlow : table &&& 0xFFF#32 = 0#32 := by
    rw [← h,BitVec.and_assoc,show addrMask &&& 0xFFF#32 = 0#32 from by decide]
    simp
  have hnat := congrArg BitVec.toNat hlow
  rw [BitVec.toNat_and] at hnat
  have hmod := Nat.and_two_pow_sub_one_eq_mod table.toNat 12
  exact hmod.symm.trans hnat

theorem entryAddr_toNat {table : Word} (h : table &&& addrMask = table) (i : Fin 1024) :
    (entryAddr table i).toNat = table.toNat + 4*i := by
  have hmod := aligned_mod h
  have hlt := table.isLt
  have hi := i.isLt
  rw [entryAddr,BitVec.toNat_add,BitVec.toNat_ofNat]
  omega

theorem entryAddr_inj {table table' : Word} {i i' : Fin 1024} (h : table &&& addrMask = table)
    (h' : table' &&& addrMask = table') (heq : entryAddr table i = entryAddr table' i') :
    table = table' ∧ i = i' := by
  have hnat := congrArg BitVec.toNat heq
  rw [entryAddr_toNat h,entryAddr_toNat h'] at hnat
  have hmod := aligned_mod h
  have hmod' := aligned_mod h'
  have hi := i.isLt
  have hi' := i'.isLt
  exact ⟨BitVec.eq_of_toNat_eq (by omega),Fin.ext (by omega)⟩

theorem index_eq_iff (v w : Word) :
    (pdIndex v,ptIndex v) = (pdIndex w,ptIndex w) ↔ page v = page w := by
  have hpt : ∀ x : Word, (ptIndex x : ℕ) = x.toNat/4096%1024 := by
    intro x
    have hmod := Nat.and_two_pow_sub_one_eq_mod (x.toNat >>> 12) 10
    rw [Nat.shiftRight_eq_div_pow] at hmod
    simpa [ptIndex,BitVec.toNat_and,BitVec.toNat_ushiftRight,Nat.shiftRight_eq_div_pow] using hmod
  have hpd : ∀ x : Word, (pdIndex x : ℕ) = x.toNat/4096/1024 := by
    intro x
    have hmod := Nat.and_two_pow_sub_one_eq_mod (x.toNat >>> 22) 10
    rw [Nat.shiftRight_eq_div_pow] at hmod
    have hlt := x.isLt
    have hval : (pdIndex x : ℕ) = x.toNat/2^22%2^10 := by
      simpa [pdIndex,BitVec.toNat_and,BitVec.toNat_ushiftRight,Nat.shiftRight_eq_div_pow] using hmod
    omega
  have hpage : ∀ x : Word, (page x).toNat = x.toNat/4096 := by
    intro x
    simp [page,BitVec.toNat_ushiftRight,Nat.shiftRight_eq_div_pow]
  rw [Prod.mk.injEq,Fin.ext_iff,Fin.ext_iff,hpt,hpt,hpd,hpd,← BitVec.toNat_inj,hpage,hpage]
  omega

def tables (s : Pages) : TwoLevel (Fin 1024) (Fin 1024) Word (Word × Word) where
  dir d :=
    if s.kernelPageDirectory d &&& pagePresent = 0#32 then none
    else some (s.kernelPageDirectory d &&& addrMask)
  cell table i := entry (s.memory (entryAddr table i))

theorem walk_eq_lookup (s : Pages) (virt : Word) :
    walk s virt = (tables s).lookup (pdIndex virt,ptIndex virt) := by
  by_cases h : s.kernelPageDirectory (pdIndex virt) &&& pagePresent = 0#32 <;>
    simp [walk,TwoLevel.lookup,tables,h]

theorem dir_aligned {s : Pages} {d : Fin 1024} {f : Word} (h : (tables s).dir d = some f) :
    f &&& addrMask = f := by
  simp only [tables,Option.ite_none_left_eq_some,Option.some.injEq] at h
  rw [← h.2]
  exact and_addrMask_idem _

/-- The directory holds the frames granted so far, each in one place. -/
structure WellFormed (request : Request) (s : Pages) : Prop where
  separate : (tables s).Separate
  granted : ∀ d f, (tables s).dir d = some f → ∃ n < s.requests, ∃ m, f = (request n m).1
  count : (Finset.univ.filter fun d => (tables s).dir d ≠ none).card = s.requests

section Map
variable {request : Request} {s : Pages}

theorem wellFormed_boot (request : Request) (memory : Memory) : WellFormed request (boot memory) := by
  have hdir : ∀ d, (tables (boot memory)).dir d = none := fun d => by simp [tables,boot]
  refine ⟨?_,?_,?_⟩
  · intro d e f hd
    simp [hdir] at hd
  · intro d f hd
    simp [hdir] at hd
  · simp only [hdir,ne_eq,not_true_eq_false,Finset.filter_false,Finset.card_empty]
    rfl

def presentCount (s : Pages) : ℕ := (Finset.univ.filter fun d => (tables s).dir d ≠ none).card

theorem requests_lt (hcount : presentCount s = s.requests) {d : Fin 1024}
    (hd : (tables s).dir d = none) : s.requests < 1024 := by
  have hcard := Finset.card_lt_univ_of_notMem
    (show d ∉ Finset.univ.filter fun d => (tables s).dir d ≠ none by simp [hd])
  rwa [← presentCount,hcount,Fintype.card_fin] at hcard

theorem touchTable_count (hcount : presentCount s = s.requests) (d : Fin 1024) (flags : Word) :
    presentCount (touchTable request s d flags) = (touchTable request s d flags).requests := by
  by_cases hd : s.kernelPageDirectory d &&& pagePresent = 0#32
  · have hset : (Finset.univ.filter fun e => (tables (touchTable request s d flags)).dir e ≠ none) =
        insert d (Finset.univ.filter fun e => (tables s).dir e ≠ none) := by
      ext e
      by_cases he : e = d
      · simp [tables,touchTable,hd,he,or_pagePresent_and]
      · simp [tables,touchTable,hd,he]
    have hnone : d ∉ Finset.univ.filter fun e => (tables s).dir e ≠ none := by simp [tables,hd]
    rw [presentCount,hset,Finset.card_insert_of_notMem hnone,← presentCount,hcount]
    simp [touchTable,hd]
  · have hsame : touchTable request s d flags = s := by simp [touchTable,hd]
    simpa only [hsame] using hcount

/-- Giving an absent entry its table changes no translation. -/
theorem touchTable_spec (hreq : FreshFrames request) (hs : WellFormed request s) (d : Fin 1024)
    {flags : Word} (hflags : flags &&& addrMask = 0#32) :
    WellFormed request (touchTable request s d flags) ∧
    (tables (touchTable request s d flags)).lookup = (tables s).lookup ∧
    ∃ f, (tables (touchTable request s d flags)).dir d = some f := by
  by_cases hd : s.kernelPageDirectory d &&& pagePresent = 0#32
  · have hnone : (tables s).dir d = none := by simp [tables,hd]
    have hlt := requests_lt hs.count hnone
    obtain ⟨f,hf⟩ : ∃ f, f = (request s.requests s.memory).1 := ⟨_,rfl⟩
    have hal : f &&& addrMask = f := hf ▸ hreq.aligned _ hlt _
    have hdir : (tables (touchTable request s d flags)).dir =
        Function.update (tables s).dir d (some f) := by
      funext e
      by_cases he : e = d
      · subst he
        simp [tables,touchTable,hd,or_pagePresent_and,← hf,frame_of_entry hal hflags]
      · simp [tables,touchTable,hd,he]
    have hfresh : ∀ e, (tables s).dir e ≠ some f := by
      intro e he
      obtain ⟨n,hn,m,hfn⟩ := hs.granted e f he
      have := hreq.disjoint n (by omega) _ hlt m s.memory (hfn.symm.trans hf)
      omega
    refine ⟨⟨TwoLevel.separate_install hs.separate hdir hfresh,?_,?_⟩,
      TwoLevel.lookup_install hnone hdir ?_ ?_,f,by simp [hdir]⟩
    · intro e g he
      have hrequests : (touchTable request s d flags).requests = s.requests+1 := by simp [touchTable,hd]
      rw [hrequests]
      by_cases hed : e = d
      · obtain rfl : f = g := by simpa [hdir,hed] using he
        exact ⟨s.requests,by omega,s.memory,hf⟩
      · obtain ⟨n,hn,m,hg⟩ := hs.granted e g (by simpa [hdir,hed] using he)
        exact ⟨n,by omega,m,hg⟩
    · exact touchTable_count hs.count d flags
    · intro t
      simp [tables,touchTable,hd,hf,hreq.zeroed _ hlt,entry]
    · intro e g he t
      have hne : g ≠ (request s.requests s.memory).1 := fun h => hfresh e (by rw [he,h,hf])
      simp [tables,touchTable,hd,hreq.untouched _ hlt s.memory g t (dir_aligned he) hne]
  · have hsame : touchTable request s d flags = s := by simp [touchTable,hd]
    exact ⟨by rwa [hsame],by rw [hsame],_,by rw [hsame]; exact if_neg hd⟩

/-- What a call of `map_page` really does: it maps the page on the diagonal. -/
theorem mapPage_spec (hreq : FreshFrames request) (hs : WellFormed request s) {phys virt flags : Word}
    (hflags : flags &&& addrMask = 0#32) :
    WellFormed request (mapPage request s phys virt flags) ∧
    (tables (mapPage request s phys virt flags)).lookup = Function.update (tables s).lookup
      (pdIndex virt,pdIndex virt) (some (phys &&& addrMask,flags ||| pagePresent)) := by
  obtain ⟨hw,hlook,f,hf⟩ := touchTable_spec hreq hs (pdIndex virt) hflags
  have hdir : (tables (mapPage request s phys virt flags)).dir =
      (tables (touchTable request s (pdIndex virt) flags)).dir := rfl
  have htable : (touchTable request s (pdIndex virt) flags).kernelPageDirectory (pdIndex virt) &&&
      addrMask = f := by
    simp only [tables,Option.ite_none_left_eq_some,Option.some.injEq] at hf
    exact hf.2
  refine ⟨⟨?_,?_,?_⟩,?_⟩
  · intro d e g
    rw [hdir]
    exact hw.separate d e g
  · intro d g
    rw [hdir]
    exact hw.granted d g
  · rw [hdir]
    exact hw.count
  · rw [← hlook]
    refine TwoLevel.lookup_write hw.separate hf hdir ?_ ?_
    · simp [tables,mapPage,htable,entry_pte hflags]
    · intro e g u he hne
      have haddr : entryAddr g u ≠ entryAddr f (pdIndex virt) := by
        intro h
        obtain ⟨hg,hu⟩ := entryAddr_inj (dir_aligned he) (dir_aligned hf) h
        exact hne (by rw [hg,hu])
      simp [tables,mapPage,htable,Function.update_of_ne haddr]

theorem lastMapping_concat (calls : List Call) (c : Call) (virt : Word) :
    lastMapping (calls++[c]) virt =
      if page c.virt = page virt then some (c.phys &&& addrMask,c.flags ||| pagePresent)
      else lastMapping calls virt := by
  by_cases h : page c.virt = page virt <;> simp [lastMapping,h]

/-- The flags fit below the frame and the page lies on the diagonal. -/
def Diagonal (c : Call) : Prop := c.flags &&& addrMask = 0#32 ∧ ptIndex c.virt = pdIndex c.virt

instance : DecidablePred Diagonal := fun c => by unfold Diagonal; infer_instance

/-- What holds as long as every call is on the diagonal: no other page is mapped. -/
structure OnDiagonal (request : Request) (memory : Memory) (calls : List Call) : Prop where
  wellFormed : WellFormed request (after request memory calls)
  map : TablesAreMap request memory calls
  unmapped : ∀ virt, ptIndex virt ≠ pdIndex virt → lastMapping calls virt = none

theorem after_concat (request : Request) (memory : Memory) (calls : List Call) (c : Call) :
    after request memory (calls++[c]) =
      mapPage request (after request memory calls) c.phys c.virt c.flags := by
  rw [after,Runs.exec_concat]
  rfl

theorem walk_concat (hreq : FreshFrames request) {memory : Memory} {calls : List Call}
    (hs : WellFormed request (after request memory calls)) {c : Call}
    (hflags : c.flags &&& addrMask = 0#32) (virt : Word) :
    walk (after request memory (calls++[c])) virt =
      if (pdIndex virt,ptIndex virt) = (pdIndex c.virt,pdIndex c.virt) then
        some (c.phys &&& addrMask,c.flags ||| pagePresent)
      else walk (after request memory calls) virt := by
  rw [after_concat,walk_eq_lookup,(mapPage_spec hreq hs hflags).2,walk_eq_lookup,Function.update_apply]

theorem onDiagonal_concat (hreq : FreshFrames request) {memory : Memory} {calls : List Call} {c : Call}
    (h : OnDiagonal request memory calls) (hc : Diagonal c) :
    OnDiagonal request memory (calls++[c]) := by
  have hwalk : ∀ virt, walk (after request memory (calls++[c])) virt =
      if page c.virt = page virt then some (c.phys &&& addrMask,c.flags ||| pagePresent)
      else walk (after request memory calls) virt := by
    intro virt
    have hown : (pdIndex c.virt,pdIndex c.virt) = (pdIndex c.virt,ptIndex c.virt) := by rw [hc.2]
    have hpage : (pdIndex virt,ptIndex virt) = (pdIndex c.virt,pdIndex c.virt) ↔
        page c.virt = page virt := by rw [hown,index_eq_iff,eq_comm]
    rw [walk_concat hreq h.wellFormed hc.1]
    exact if_congr hpage rfl rfl
  refine ⟨?_,⟨?_,?_⟩,?_⟩
  · rw [after_concat]
    exact (mapPage_spec hreq h.wellFormed hc.1).1
  · intro virt
    rw [hwalk,lastMapping_concat,h.map.walk_eq]
  · intro pre d heq virt hne
    obtain ⟨rfl,hd⟩ := List.append_inj' heq rfl
    obtain rfl : c = d := by simpa using hd
    rw [hwalk,if_neg (Ne.symm hne)]
  · intro virt hvirt
    rw [lastMapping_concat,h.unmapped virt hvirt,if_neg]
    intro hpage
    have hindex := (index_eq_iff c.virt virt).mpr hpage
    exact hvirt (by rw [← (Prod.mk.inj hindex).2,← (Prod.mk.inj hindex).1,hc.2])

/-- Off the diagonal the page that was asked for stays unmapped, and flags that reach
into the frame come back without their upper bits. -/
theorem diagonal_of_tablesAreMap (hreq : FreshFrames request) {memory : Memory} {calls : List Call}
    {c : Call} (h : OnDiagonal request memory calls)
    (hmap : TablesAreMap request memory (calls++[c])) : Diagonal c := by
  have hown := hmap.walk_eq c.virt
  rw [lastMapping_concat,if_pos rfl] at hown
  have hflags : c.flags &&& addrMask = 0#32 := by
    -- whatever the walk returns as flags has its upper bits clear
    have hclear : ∀ s r, walk s c.virt = some r → r.2 &&& addrMask = 0#32 := by
      intro s r hr
      simp only [walk,entry,Option.ite_none_left_eq_some,Option.some.injEq] at hr
      rw [← hr.2.2,BitVec.and_assoc,BitVec.not_and_self]
      simp
    have hand := hclear _ _ hown
    rwa [BitVec.and_or_distrib_right,pagePresent_and_addrMask,BitVec.or_zero] at hand
  refine ⟨hflags,?_⟩
  by_contra hdiag
  rw [walk_concat hreq h.wellFormed hflags,h.map.walk_eq,h.unmapped _ hdiag] at hown
  simp [hdiag] at hown

/-- The page tables are a map all along a sequence of calls exactly when every call
has flags below the frame bits and an address whose two indices are equal. -/
theorem tables_map_iff (hreq : FreshFrames request) (memory : Memory) (calls : List Call) :
    Runs.Always (TablesAreMap request memory) calls ↔ ∀ c ∈ calls, Diagonal c := by
  rw [← Runs.everyStep_const]
  refine Runs.always_iff_everyStep (R := OnDiagonal request memory) ?_ ?_ ?_ ?_ calls
  · refine ⟨wellFormed_boot request memory,⟨?_,?_⟩,fun _ _ => rfl⟩
    · intro virt
      simp [after,walk,boot,lastMapping]
    · intro pre c h
      simp at h
  · exact fun pre c h hc => onDiagonal_concat hreq h hc
  · exact fun pre h => h.map
  · exact fun pre c h hmap => diagonal_of_tablesAreMap hreq h hmap

end Map

/-- An allocator that hands out zeroed frames from 1 MiB upwards. -/
def bumpRequest : Request := fun n m =>
  (BitVec.ofNat 32 (0x100000+4096*n),fun a =>
    if 0x100000+4096*n ≤ a.toNat ∧ a.toNat < 0x100000+4096*(n+1) then 0#32 else m a)

theorem bumpRequest_fresh : FreshFrames bumpRequest := by
  have hal : ∀ n < 1024, BitVec.ofNat 32 (0x100000+4096*n) &&& addrMask =
      BitVec.ofNat 32 (0x100000+4096*n) := by decide +kernel
  have hnat : ∀ n < 1024, (BitVec.ofNat 32 (0x100000+4096*n)).toNat = 0x100000+4096*n := by
    intro n hn
    rw [BitVec.toNat_ofNat]
    omega
  refine ⟨fun n hn m => hal n hn,?_,?_,?_⟩
  · intro n hn m i
    have haddr := entryAddr_toNat (hal n hn) i
    rw [hnat n hn] at haddr
    have hi := i.isLt
    exact if_pos ⟨by simp only [bumpRequest]; omega,by simp only [bumpRequest]; omega⟩
  · intro n hn n' hn' m m' h
    have heq := congrArg BitVec.toNat h
    simp only [bumpRequest] at heq
    rw [hnat n hn,hnat n' hn'] at heq
    omega
  · intro n hn m table i htable hne
    have haddr := entryAddr_toNat htable i
    have hmod := aligned_mod htable
    have hi := i.isLt
    refine if_neg fun h => hne (BitVec.eq_of_toNat_eq ?_)
    simp only [bumpRequest]
    rw [hnat n hn]
    omega

theorem diagonal_page_mapped :
    Runs.Always (TablesAreMap bumpRequest fun _ => 0#32) [⟨0x5000#32,0x401000#32,0x2#32⟩] :=
  (tables_map_iff bumpRequest_fresh (fun _ => 0#32) [⟨0x5000#32,0x401000#32,0x2#32⟩]).mpr (by decide)

/-- The first call a kernel would make for virtual page 1 leaves that page unmapped. -/
theorem page_one_unmapped :
    ¬ Runs.Always (TablesAreMap bumpRequest fun _ => 0#32) [⟨0x5000#32,0x1000#32,0x2#32⟩] := by
  intro h
  have hwalk := (h _ (List.prefix_refl _)).walk_eq 0x1000#32
  exact absurd hwalk (by decide +kernel)

end Paging
end ValiantCore
