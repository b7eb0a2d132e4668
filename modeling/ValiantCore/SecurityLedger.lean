import ValiantCore.SecurityEngine
import Mathlib.Order.MinMax

/-! What the security engine has counted in every state a run of calls can reach, and
when it halts the machine. -/
namespace ValiantCore
namespace SecurityEngine

open Halting

/-- The levels of the threats registered since the last reset, the last one first. -/
def sinceReset : List Entry → List ThreatLevel
  | [] => []
  | .threat _ _ level::log => level::sinceReset log
  | .reset::_ => []
  | .hw _::log => sinceReset log

def highest (levels : List ThreatLevel) : ℕ := levels.foldr (fun level m => max m level.asU32) 0

/-- The counter and the level say what was registered since the last reset. -/
structure Ledger (s : Engine) : Prop where
  faultCount_eq : s.faultCount = (sinceReset s.log).length
  threatLevel_eq : s.threatLevel = highest (sinceReset s.log)

/-- The ledger while the machine runs. `L` is a reason for the lockdown to be in force. -/
structure Kept (L : Prop) (s : Engine) : Prop extends Ledger s where
  faultCount_lt : s.faultCount < maxFaults
  omega_of_lockdown : s.lockdown = 1 → s.threatLevel = ThreatLevel.omega.asU32
  lockdown_of : L → s.lockdown = 1

/-- The ledger when `hw_emergency_halt` is reached. -/
structure HaltedFull (s : Engine) : Prop extends Ledger s where
  faultCount_eq_max : s.faultCount = maxFaults

/-- A threat may be registered: if the lockdown is in force, the level becomes the highest
or is so already. -/
structure Registrable (L : Prop) (level : ThreatLevel) (s : Engine) : Prop extends Ledger s where
  faultCount_lt : s.faultCount < maxFaults
  omega_of_lockdown : s.lockdown = 1 → level = .omega ∨ s.threatLevel = ThreatLevel.omega.asU32
  lockdown_of : L → s.lockdown = 1

theorem ThreatLevel.asU32_le (level : ThreatLevel) : level.asU32 ≤ ThreatLevel.omega.asU32 := by
  cases level <;> decide

theorem highest_le (levels : List ThreatLevel) : highest levels ≤ ThreatLevel.omega.asU32 := by
  induction levels with
  | nil => exact Nat.zero_le _
  | cons level levels ih => exact max_le ih level.asU32_le

section Registering
variable {L : Prop} {s : Engine} {event : SecurityEvent} {addr : ℕ} {level : ThreatLevel}

/-- The engine after a threat: entered, and told to the chip. -/
def Engine.threatened (s : Engine) (event : SecurityEvent) (addr : ℕ) (level : ThreatLevel) : Engine :=
  (s.addFault event addr level).ask (.securityChipAlert event.asU32 addr level.asU32)

theorem registerThreat_apply (event : SecurityEvent) (addr : ℕ) (level : ThreatLevel) (s : Engine) :
    registerThreat event addr level s =
      if u32 (s.faultCount+1) ≥ maxFaults then .error (s.threatened event addr level)
      else .ok ((),s.threatened event addr level) := by
  rw [registerThreat,modifyGet_bind,hw,modifyGet_bind]
  split_ifs
  · exact halt_apply _
  · exact pure_apply _ _

theorem u32_fault (h : s.faultCount < maxFaults) : u32 (s.faultCount+1) = s.faultCount+1 := by
  apply u32_succ
  unfold maxFaults at h
  omega

theorem Ledger.threatened (h : Ledger s) (hlt : s.faultCount < maxFaults) :
    Ledger (s.threatened event addr level) := by
  constructor
  · have hcount : (s.threatened event addr level).faultCount = s.faultCount+1 := u32_fault hlt
    rw [hcount,h.faultCount_eq]
    rfl
  · simp only [Engine.threatened,Engine.ask,Engine.addFault,sinceReset,highest,List.foldr_cons,
      h.threatLevel_eq]

theorem Registrable.threatened_omega (h : Registrable L level s) (hlock : s.lockdown = 1) :
    (s.threatened event addr level).threatLevel = ThreatLevel.omega.asU32 := by
  have hle : s.threatLevel ≤ ThreatLevel.omega.asU32 := by
    rw [h.threatLevel_eq]
    exact highest_le _
  cases h.omega_of_lockdown hlock with
  | inl hlevel =>
    subst hlevel
    exact max_eq_right hle
  | inr hlevel =>
    simp only [Engine.threatened,Engine.ask,Engine.addFault,hlevel]
    exact max_eq_left level.asU32_le

theorem registerThreat_triple (event : SecurityEvent) (addr : ℕ) (level : ThreatLevel) :
    Triple (Registrable L level) (registerThreat event addr level) (fun _ => Kept L) HaltedFull := by
  intro s hs
  have hlt := hs.faultCount_lt
  have hcount : (s.threatened event addr level).faultCount = s.faultCount+1 := u32_fault hlt
  rw [registerThreat_apply,u32_fault hlt]
  split_ifs with hfull
  · exact ⟨hs.toLedger.threatened hlt,by omega⟩
  · exact ⟨hs.toLedger.threatened hlt,by omega,hs.threatened_omega,hs.lockdown_of⟩

end Registering

section Keeps
variable {L : Prop}

theorem keeps_registerThreat (event : SecurityEvent) (addr : ℕ) (level : ThreatLevel) :
    Keeps (Kept L) HaltedFull (registerThreat event addr level) := by
  apply triple_weaken (registerThreat_triple event addr level)
  · exact fun s hs => ⟨hs.toLedger,hs.faultCount_lt,fun h => .inr (hs.omega_of_lockdown h),hs.lockdown_of⟩
  · exact fun _ _ h => h

/-- What the ledger is about. -/
def Engine.counted (s : Engine) : ℕ × ℕ × ℕ × List ThreatLevel :=
  (s.faultCount,s.threatLevel,s.lockdown,sinceReset s.log)

theorem Kept.frame {s s' : Engine} (h : Kept L s) (heq : s'.counted = s.counted) : Kept L s' := by
  simp only [Engine.counted,Prod.mk.injEq] at heq
  obtain ⟨hcount,hlevel,hlock,hlog⟩ := heq
  constructor
  · constructor
    · rw [hcount,hlog,h.faultCount_eq]
    · rw [hlevel,hlog,h.threatLevel_eq]
  · rw [hcount]
    exact h.faultCount_lt
  · rw [hlock,hlevel]
    exact h.omega_of_lockdown
  · rw [hlock]
    exact h.lockdown_of

theorem keeps_asking {A : Type} {f : Engine → A × Engine} (h : ∀ s, (f s).2.counted = s.counted) :
    Keeps (Kept L) HaltedFull (modifyGet f) := keeps_modifyGet fun s hs => hs.frame (h s)

theorem keeps_setting {f : Engine → Engine} (h : ∀ s, (f s).counted = s.counted) :
    Keeps (Kept L) HaltedFull (modify f) := keeps_modify fun s hs => hs.frame (h s)

theorem keeps_hw (call : HwCall) : Keeps (Kept L) HaltedFull (hw call) := keeps_asking fun _ => rfl

theorem keeps_hwFullSystemScan : Keeps (Kept L) HaltedFull hwFullSystemScan :=
  keeps_asking fun _ => rfl

theorem keeps_hwChipStatus : Keeps (Kept L) HaltedFull hwChipStatus := keeps_asking fun _ => rfl

theorem keeps_setting_then {A : Type} {f : Engine → Engine} {x : HaltM Engine A}
    (hx : Keeps (Kept L) HaltedFull x) (h : ∀ s, (f s).counted = s.counted) :
    Keeps (Kept L) HaltedFull (do modify f; x) := keeps_seq (keeps_setting h) hx

theorem keeps_hw_then {A : Type} (call : HwCall) {x : HaltM Engine A} (hx : Keeps (Kept L) HaltedFull x) :
    Keeps (Kept L) HaltedFull (do let _ ← hw call; x) := keeps_bind (keeps_hw call) fun _ => hx

theorem keeps_initiateLockdown : Keeps (Kept L) HaltedFull initiateLockdown := by
  have hset : Triple (Kept L) (modify fun s => { s with lockdown := 1 })
      (fun _ => Registrable L .omega) HaltedFull :=
    triple_modify fun s hs =>
      ⟨⟨hs.faultCount_eq,hs.threatLevel_eq⟩,hs.faultCount_lt,fun _ => .inl rfl,fun _ => rfl⟩
  apply triple_bind hset
  intro _
  apply triple_bind (registerThreat_triple _ _ _)
  intro _
  exact keeps_hw_then _ (keeps_pure ())

theorem keeps_attemptSelfRepair (event : SecurityEvent) (addr : ℕ) :
    Keeps (Kept L) HaltedFull (attemptSelfRepair event addr) := keeps_hw_then _ (keeps_pure ())

theorem keeps_triggerHardwareResponse (event : SecurityEvent) (addr : ℕ) :
    Keeps (Kept L) HaltedFull (triggerHardwareResponse event addr) := by
  apply keeps_bind keeps_hwChipStatus
  intro status
  refine keeps_setting_then ?_ fun _ => rfl
  cases event with
  | virusDetected => exact keeps_hw_then _ (keeps_hw_then _ (keeps_pure ()))
  | rootkitPattern => exact keeps_hw_then _ (keeps_hw_then _ (keeps_pure ()))
  | _ => exact keeps_hw_then _ (keeps_pure ())

theorem keeps_respond (event : SecurityEvent) (addr : ℕ) (level : ThreatLevel) (result : ℤ) :
    Keeps (Kept L) HaltedFull (do
      registerThreat event addr level
      triggerHardwareResponse event addr
      pure result) :=
  keeps_seq (keeps_registerThreat _ _ _)
    (keeps_seq (keeps_triggerHardwareResponse _ _) (keeps_pure result))

theorem keeps_repair (event : SecurityEvent) (addr : ℕ) (level : ThreatLevel) (result : ℤ) :
    Keeps (Kept L) HaltedFull (do
      registerThreat event addr level
      attemptSelfRepair event addr
      pure result) :=
  keeps_seq (keeps_registerThreat _ _ _)
    (keeps_seq (keeps_attemptSelfRepair _ _) (keeps_pure result))

theorem keeps_refuse (event : SecurityEvent) (addr : ℕ) (level : ThreatLevel) (result : ℤ) :
    Keeps (Kept L) HaltedFull (do
      registerThreat event addr level
      pure result) := keeps_seq (keeps_registerThreat _ _ _) (keeps_pure result)

theorem keeps_securityCheckMemory (w : AddrT) (addr size : ℕ) :
    Keeps (Kept L) HaltedFull (securityCheckMemory w addr size) := by
  apply keeps_ite (keeps_repair _ _ _ _)
  apply keeps_ite (keeps_refuse _ _ _ _)
  cases w with
  | u64 =>
    apply keeps_ite (keeps_respond _ _ _ _)
    apply keeps_ite (keeps_respond _ _ _ _)
    exact keeps_ite (keeps_refuse _ _ _ _) (keeps_pure 0)
  | u32 =>
    apply keeps_ite (keeps_respond _ _ _ _)
    exact keeps_ite (keeps_respond _ _ _ _) (keeps_pure 0)

theorem keeps_securityCheckStack (canary : ℕ) :
    Keeps (Kept L) HaltedFull (securityCheckStack canary) := by
  apply keeps_ite
  · apply keeps_seq (keeps_registerThreat _ _ _)
    apply keeps_seq (keeps_triggerHardwareResponse _ _)
    exact keeps_seq (keeps_attemptSelfRepair _ _) (keeps_pure _)
  · exact keeps_pure 0

theorem keeps_monitorSystemIntegrity : Keeps (Kept L) HaltedFull monitorSystemIntegrity := by
  apply keeps_bind keeps_get
  intro s
  apply keeps_ite
  · apply keeps_seq (keeps_registerThreat _ _ _)
    apply keeps_bind (keeps_hw _)
    intro restore
    apply keeps_ite
    · refine keeps_setting_then ?_ fun _ => rfl
      exact keeps_seq (keeps_registerThreat _ _ _) (keeps_pure _)
    · exact keeps_seq (keeps_triggerHardwareResponse _ _) (keeps_pure _)
  · apply keeps_bind (keeps_hw _)
    intro hwCheck
    apply keeps_ite
    · apply keeps_seq (keeps_registerThreat _ _ _)
      exact keeps_hw_then _ (keeps_pure _)
    · exact keeps_pure 0

theorem keeps_securityScanBuffer (w : AddrT) (byte : ℕ → UInt8) (buf len : ℕ) :
    Keeps (Kept L) HaltedFull (securityScanBuffer w byte buf len) := by
  apply keeps_ite (keeps_pure _)
  refine keeps_setting_then ?_ fun _ => rfl
  apply keeps_ite
  · apply keeps_seq (keeps_registerThreat _ _ _)
    apply keeps_bind (keeps_hw _)
    intro destroy
    apply keeps_ite
    · exact keeps_hw_then _ (keeps_pure _)
    · exact keeps_seq keeps_initiateLockdown (keeps_pure _)
  · exact keeps_ite (keeps_respond _ _ _ _) (keeps_pure 0)

theorem keeps_securityVerifyDriver (driverAddr checksum : ℕ) :
    Keeps (Kept L) HaltedFull (securityVerifyDriver driverAddr checksum) := by
  apply keeps_ite (keeps_pure _)
  apply keeps_bind (keeps_hw _)
  intro result
  apply keeps_ite
  · apply keeps_seq (keeps_registerThreat _ _ _)
    apply keeps_bind (keeps_hw _)
    intro restore
    apply keeps_ite
    · exact keeps_refuse _ _ _ _
    · exact keeps_hw_then _ (keeps_pure _)
  · exact keeps_pure 0

theorem keeps_securityFullScan : Keeps (Kept L) HaltedFull securityFullScan := by
  apply keeps_bind keeps_hwFullSystemScan
  intro r
  exact keeps_ite (keeps_repair _ _ _ _) (keeps_pure 0)

theorem keeps_securityPanicKeepalive : Keeps (Kept L) HaltedFull securityPanicKeepalive := by
  refine keeps_setting_then ?_ fun _ => rfl
  apply keeps_hw_then
  apply keeps_bind keeps_hwFullSystemScan
  intro r
  exact keeps_hw _

theorem keeps_securityReset : Keeps (Kept False) HaltedFull securityReset :=
  keeps_modify fun _ _ => ⟨⟨rfl,rfl⟩,by simp [maxFaults],by simp,False.elim⟩

theorem keeps_perform (w : AddrT) {call : Call} (hcall : call ≠ .reset) :
    Keeps (Kept L) HaltedFull (perform w call) := by
  cases call with
  | checkMemory addr size => exact keeps_securityCheckMemory w addr size
  | checkStack canary => exact keeps_securityCheckStack canary
  | monitorSystemIntegrity => exact keeps_monitorSystemIntegrity
  | scanBuffer byte buf len => exact keeps_securityScanBuffer w byte buf len
  | verifyDriver driverAddr checksum => exact keeps_securityVerifyDriver driverAddr checksum
  | fullScan => exact keeps_securityFullScan
  | panicKeepalive => exact keeps_securityPanicKeepalive
  | getThreatLevel => exact keeps_bind keeps_get fun _ => keeps_pure _
  | isPanicActive => exact keeps_bind keeps_get fun _ => keeps_pure _
  | isLockdown => exact keeps_bind keeps_get fun _ => keeps_pure _
  | reset => exact absurd rfl hcall

theorem keeps_perform_any (w : AddrT) (call : Call) :
    Keeps (Kept False) HaltedFull (perform w call) := by
  by_cases hcall : call = .reset
  · subst hcall
    exact keeps_seq keeps_securityReset (keeps_pure 0)
  · exact keeps_perform w hcall

end Keeps

theorem kept_boot (hardware : Hardware) : Kept False (boot hardware) :=
  ⟨⟨rfl,rfl⟩,by simp [boot,maxFaults],by simp [boot],False.elim⟩

/-- At every call boundary the ledger is kept: the counter is the number of threats
registered since the last reset and below its maximum, the level is the highest of them,
and a lockdown means the highest level and lasts until the next reset. The registration
that brings the counter to its maximum halts the machine, and nothing else does. -/
theorem engine_ledger (w : AddrT) (hardware : Hardware) (calls : List Call) :
    match runCalls (perform w) calls (boot hardware) with
    | .ok s =>
      s.faultCount = (sinceReset s.log).length ∧ s.faultCount < maxFaults ∧
      s.threatLevel = highest (sinceReset s.log) ∧
      (s.lockdown = 1 → s.threatLevel = ThreatLevel.omega.asU32 ∧
        ∀ (more : List Call) (s' : Engine), .reset ∉ more →
          runCalls (perform w) more s = .ok s' → s'.lockdown = 1) ∧
      ∀ (event : SecurityEvent) (addr : ℕ) (level : ThreatLevel),
        (s.faultCount+1 = maxFaults ↔ ∃ s', registerThreat event addr level s = .error s')
    | .error s => (sinceReset s.log).length = maxFaults := by
  have hrun := runCalls_keeps (perform w) calls (fun call _ => keeps_perform_any w call)
    (kept_boot hardware)
  cases hres : runCalls (perform w) calls (boot hardware) with
  | error s =>
    rw [hres] at hrun
    exact hrun.faultCount_eq.symm.trans hrun.faultCount_eq_max
  | ok s =>
    rw [hres] at hrun
    refine ⟨hrun.faultCount_eq,hrun.faultCount_lt,hrun.threatLevel_eq,?_,?_⟩
    · intro hlock
      refine ⟨hrun.omega_of_lockdown hlock,?_⟩
      intro more s' hmore hs'
      have hkept : Kept True s :=
        ⟨hrun.toLedger,hrun.faultCount_lt,hrun.omega_of_lockdown,fun _ => hlock⟩
      have hlater := runCalls_keeps (perform w) more
        (fun call hcall => keeps_perform w fun h => hmore (h ▸ hcall)) hkept
      rw [hs'] at hlater
      exact hlater.lockdown_of trivial
    · intro event addr level
      have hlt := hrun.faultCount_lt
      rw [registerThreat_apply,u32_fault hlt]
      split_ifs with hfull
      · exact ⟨fun _ => ⟨_,rfl⟩,fun _ => by omega⟩
      · simp only [exists_false,iff_false]
        omega

end SecurityEngine
end ValiantCore
