import ValiantCore.Paging

/-! The rights of a page. The processor grants a right only if the directory entry and
the table entry both carry it, and one directory entry serves 1024 pages: `map_page` gives
it the flags of the first call that needs it, and leaves it as it is from then on. -/
namespace ValiantCore
namespace Paging

def pageRw : Word := 0x2#32
def pageUser : Word := 0x4#32

inductive Right
  | write | user
  deriving DecidableEq, Repr

def Right.bit : Right → Word
  | .write => pageRw
  | .user => pageUser

def Carries (word : Word) (right : Right) : Prop := word &&& right.bit ≠ 0#32

instance (word : Word) (right : Right) : Decidable (Carries word right) :=
  inferInstanceAs (Decidable (_ ≠ _))

/-- Both levels of the walk for `virt` grant the right. -/
def Granted (s : Pages) (virt : Word) (right : Right) : Prop :=
  Carries (s.kernelPageDirectory (pdIndex virt)) right ∧
    ∃ r, walk s virt = some r ∧ Carries r.2 right

def lastCall (calls : List Call) (virt : Word) : Option Call :=
  calls.reverse.find? fun c => page c.virt = page virt

/-- The first and the last call for a page of the 4 MiB that a directory entry stands for. -/
def firstOfRegion (calls : List Call) (d : Fin 1024) : Option Call :=
  calls.find? fun c => pdIndex c.virt = d

def lastOfRegion (calls : List Call) (d : Fin 1024) : Option Call :=
  calls.reverse.find? fun c => pdIndex c.virt = d

/-- What holds of each page whose last call has asked for a right. -/
def ForRights (calls : List Call) (P : Word → Right → Prop) : Prop :=
  ∀ virt c right, lastCall calls virt = some c → Carries c.flags right → P virt right

def InDirectory (request : Request) (memory : Memory) (calls : List Call) : Prop :=
  ForRights calls fun virt => Carries ((after request memory calls).kernelPageDirectory (pdIndex virt))

def Effective (request : Request) (memory : Memory) (calls : List Call) : Prop :=
  ForRights calls (Granted (after request memory calls))

/-- The first call of its region has asked for the right too. -/
def AskedFirst (calls : List Call) : Prop :=
  ForRights calls fun virt right => ∀ c, firstOfRegion calls (pdIndex virt) = some c → Carries c.flags right

/-- The page is on the diagonal, and the last call of its region has asked for the right. -/
def AskedLast (calls : List Call) : Prop :=
  ForRights calls fun virt right => ptIndex virt = pdIndex virt ∧
    ∀ c, lastOfRegion calls (pdIndex virt) = some c → Carries c.flags right

theorem carries_or (x y : Word) (right : Right) :
    Carries (x ||| y) right ↔ Carries x right ∨ Carries y right := by
  unfold Carries
  rw [BitVec.and_or_distrib_right,ne_eq,BitVec.or_eq_zero_iff,not_and_or]

theorem pagePresent_carries (right : Right) : ¬ Carries pagePresent right := by
  cases right <;> decide

theorem frame_carries {frame : Word} (h : frame &&& addrMask = frame) (right : Right) :
    ¬ Carries frame right := by
  have hbit : addrMask &&& right.bit = 0#32 := by cases right <;> decide
  rw [Carries,← h,BitVec.and_assoc,hbit,BitVec.and_zero]
  exact fun h => h rfl

/-- What a directory entry holds after the calls, by the first of them that needed it. -/
def EntryOf : Option Call → Word → Prop
  | none, pde => pde = 0#32
  | some c, pde => ∃ frame, frame &&& addrMask = frame ∧ pde = frame ||| c.flags ||| pagePresent

structure DirectoryOf (calls : List Call) (s : Pages) : Prop where
  count : presentCount s = s.requests
  entries : ∀ d, EntryOf (firstOfRegion calls d) (s.kernelPageDirectory d)

theorem EntryOf.present_iff {first : Option Call} {pde : Word} (h : EntryOf first pde) :
    pde &&& pagePresent = 0#32 ↔ first = none := by
  cases first with
  | none =>
    rw [show pde = 0#32 from h]
    simp
  | some c =>
    obtain ⟨frame,-,rfl⟩ := h
    simp [or_pagePresent_and]

theorem EntryOf.carries_iff {c : Call} {pde : Word} (h : EntryOf (some c) pde) (right : Right) :
    Carries pde right ↔ Carries c.flags right := by
  obtain ⟨frame,hframe,rfl⟩ := h
  simp [carries_or,frame_carries hframe,pagePresent_carries]

section Runs
variable {request : Request} {memory : Memory} {calls : List Call} {s : Pages}

theorem firstOfRegion_concat (calls : List Call) (c : Call) (d : Fin 1024) :
    firstOfRegion (calls++[c]) d =
      (firstOfRegion calls d).or (if pdIndex c.virt = d then some c else none) := by
  by_cases h : pdIndex c.virt = d
  · simp [firstOfRegion,List.find?_append,h]
  · simp [firstOfRegion,List.find?_append,h]

theorem directoryOf_boot (memory : Memory) : DirectoryOf [] (boot memory) :=
  ⟨(wellFormed_boot (fun _ m => (0#32,m)) memory).count,fun _ => rfl⟩

theorem directoryOf_step (hreq : FreshFrames request) (h : DirectoryOf calls s) (c : Call) :
    DirectoryOf (calls++[c]) (mapPage request s c.phys c.virt c.flags) := by
  refine ⟨touchTable_count h.count (pdIndex c.virt) c.flags,fun d => ?_⟩
  have hkept : (mapPage request s c.phys c.virt c.flags).kernelPageDirectory d =
      (touchTable request s (pdIndex c.virt) c.flags).kernelPageDirectory d := rfl
  have hold := h.entries d
  rw [hkept,firstOfRegion_concat]
  by_cases hd : s.kernelPageDirectory (pdIndex c.virt) &&& pagePresent = 0#32
  · have hnone := (h.entries (pdIndex c.virt)).present_iff.mp hd
    by_cases hsame : pdIndex c.virt = d
    · subst hsame
      have hlt : s.requests < 1024 := requests_lt h.count (d := pdIndex c.virt) (by simp [tables,hd])
      simp only [hnone,if_true,Option.none_or,touchTable,hd,Function.update_self]
      exact ⟨_,hreq.aligned _ hlt _,rfl⟩
    · simpa [touchTable,hd,hsame,Function.update_of_ne (Ne.symm hsame)] using hold
  · have hsome := mt (h.entries (pdIndex c.virt)).present_iff.mpr hd
    simp only [touchTable,if_neg hd]
    by_cases hsame : pdIndex c.virt = d
    · subst hsame
      obtain ⟨c₀,hc₀⟩ := Option.ne_none_iff_exists'.mp hsome
      rw [hc₀] at hold ⊢
      exact hold
    · simpa [hsame] using hold

theorem directoryOf_after (hreq : FreshFrames request) (memory : Memory) (calls : List Call) :
    DirectoryOf calls (after request memory calls) := by
  induction calls using List.reverseRecOn with
  | nil => exact directoryOf_boot memory
  | append_singleton calls c ih =>
    rw [after_concat]
    exact directoryOf_step hreq ih c

theorem regions_of_lastCall {virt : Word} {c : Call} (h : lastCall calls virt = some c) :
    (∃ c₀, firstOfRegion calls (pdIndex virt) = some c₀) ∧ ∃ c₁, lastOfRegion calls (pdIndex virt) = some c₁ := by
  have hmem : c ∈ calls := List.mem_reverse.mp (List.mem_of_find?_eq_some h)
  have hpage : page c.virt = page virt := by simpa using List.find?_some h
  have hregion : pdIndex c.virt = pdIndex virt := (Prod.mk.inj ((index_eq_iff c.virt virt).mpr hpage)).1
  constructor
  · rw [← Option.isSome_iff_exists,firstOfRegion,List.find?_isSome]
    exact ⟨c,hmem,by simpa using hregion⟩
  · rw [← Option.isSome_iff_exists,lastOfRegion,List.find?_isSome]
    exact ⟨c,List.mem_reverse.mpr hmem,by simpa using hregion⟩

theorem inDirectory_iff (hreq : FreshFrames request) (memory : Memory) (calls : List Call) :
    InDirectory request memory calls ↔ AskedFirst calls := by
  have hentries := (directoryOf_after hreq memory calls).entries
  constructor
  · intro h virt c right hlast hcarries c₀ hfirst
    have hentry := hentries (pdIndex virt)
    rw [hfirst] at hentry
    exact (hentry.carries_iff right).mp (h virt c right hlast hcarries)
  · intro h virt c right hlast hcarries
    obtain ⟨⟨c₀,hfirst⟩,-⟩ := regions_of_lastCall hlast
    have hentry := hentries (pdIndex virt)
    rw [hfirst] at hentry
    exact (hentry.carries_iff right).mpr (h virt c right hlast hcarries c₀ hfirst)

/-- With flags that fit below the frame, the walk finds the page on the diagonal of its
region only, and there what the last call for the region has written. -/
theorem walk_after (hreq : FreshFrames request) (memory : Memory) {calls : List Call}
    (hfit : ∀ c ∈ calls, c.flags &&& addrMask = 0#32) :
    WellFormed request (after request memory calls) ∧
    ∀ virt, walk (after request memory calls) virt =
      if ptIndex virt = pdIndex virt then
        (lastOfRegion calls (pdIndex virt)).map fun c => (c.phys &&& addrMask,c.flags ||| pagePresent)
      else none := by
  induction calls using List.reverseRecOn with
  | nil => exact ⟨wellFormed_boot request memory,fun virt => by simp [after,walk,boot,lastOfRegion]⟩
  | append_singleton calls c ih =>
    obtain ⟨hwell,hwalk⟩ := ih fun c' hc' => hfit c' (List.mem_append_left [c] hc')
    have hflags : c.flags &&& addrMask = 0#32 := hfit c (by simp)
    constructor
    · rw [after_concat]
      exact (mapPage_spec hreq hwell hflags).1
    · intro virt
      rw [walk_concat hreq hwell hflags,hwalk]
      by_cases hregion : pdIndex c.virt = pdIndex virt
      · by_cases hdiag : ptIndex virt = pdIndex virt
        · simp [lastOfRegion,hregion,hdiag]
        · simp [hregion,hdiag]
      · simp [lastOfRegion,hregion,Ne.symm hregion]

theorem effective_iff (hreq : FreshFrames request) (memory : Memory) {calls : List Call}
    (hfit : ∀ c ∈ calls, c.flags &&& addrMask = 0#32) :
    Effective request memory calls ↔ AskedFirst calls ∧ AskedLast calls := by
  have hwalk := (walk_after hreq memory hfit).2
  have htable : ∀ virt right, (∃ r, walk (after request memory calls) virt = some r ∧ Carries r.2 right) ↔
      ptIndex virt = pdIndex virt ∧ ∃ c, lastOfRegion calls (pdIndex virt) = some c ∧ Carries c.flags right := by
    intro virt right
    rw [hwalk virt]
    by_cases hdiag : ptIndex virt = pdIndex virt
    · simp [hdiag,carries_or,pagePresent_carries]
    · simp [hdiag]
  rw [← inDirectory_iff hreq memory]
  constructor
  · intro h
    refine ⟨fun virt c right hlast hcarries => (h virt c right hlast hcarries).1,?_⟩
    intro virt c right hlast hcarries
    obtain ⟨hdiag,c₁,hregion,hright⟩ := (htable virt right).mp (h virt c right hlast hcarries).2
    refine ⟨hdiag,fun c₂ hc₂ => ?_⟩
    rw [Option.some.inj (hc₂.symm.trans hregion)]
    exact hright
  · rintro ⟨hdir,hlastOf⟩ virt c right hlast hcarries
    obtain ⟨hdiag,hright⟩ := hlastOf virt c right hlast hcarries
    obtain ⟨-,c₁,hregion⟩ := regions_of_lastCall hlast
    exact ⟨hdir virt c right hlast hcarries,
      (htable virt right).mpr ⟨hdiag,c₁,hregion,hright c₁ hregion⟩⟩

/-- After every sequence of calls, the directory entry of each page carries the rights that
the last call for the page has asked for, just if the first call for its region has asked
for them. With flags that fit below the frame the page then has these rights just if,
besides, it is on the diagonal and the last call for its region has asked for them. -/
theorem mapped_rights_iff (hreq : FreshFrames request) (memory : Memory) (calls : List Call) :
    (InDirectory request memory calls ↔ AskedFirst calls) ∧
    ((∀ c ∈ calls, c.flags &&& addrMask = 0#32) →
      (Effective request memory calls ↔ AskedFirst calls ∧ AskedLast calls)) :=
  ⟨inDirectory_iff hreq memory calls,effective_iff hreq memory⟩

end Runs

/-- One page, writable from the first call of its region on. -/
def writableFirst : List Call := [⟨0x5000#32,0x401000#32,0x2#32⟩,⟨0x6000#32,0x401000#32,0x0#32⟩]

/-- Two pages of one region, of which the first is not writable and the second is. -/
def writableSecond : List Call := [⟨0x5000#32,0x400000#32,0x0#32⟩,⟨0x6000#32,0x401000#32,0x2#32⟩]

theorem mapped_rights_demo :
    (InDirectory bumpRequest (fun _ => 0#32) writableFirst ↔ AskedFirst writableFirst) ∧
    (Effective bumpRequest (fun _ => 0#32) writableFirst ↔ AskedFirst writableFirst ∧ AskedLast writableFirst) := by
  obtain ⟨hdir,heff⟩ := mapped_rights_iff bumpRequest_fresh (fun _ => 0#32) writableFirst
  exact ⟨hdir,heff (by decide)⟩

/-- The second page does not get its right. -/
theorem second_page_not_writable : ¬ InDirectory bumpRequest (fun _ => 0#32) writableSecond := by
  intro h
  have hcarries := h 0x401000#32 ⟨0x6000#32,0x401000#32,0x2#32⟩ .write (by rfl) (by decide)
  exact absurd hcarries (by decide +kernel)

end Paging
end ValiantCore
