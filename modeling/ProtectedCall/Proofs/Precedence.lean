import ProtectedCall.Proofs.Resolution

/-!
# What resolution comes to

A call of a registered method is resolved, or it is refused for one cause. Several causes may be
there at once; they count in a fixed order.

* `Setting.fault?`, `Method.poolFault?`: what is wrong with a pool setting, and with the first one
  of a command that is wrong (`PoolOverlay.ofSettings?_eq_error_iff`).
* `Resolver.RefusesCycle`, `Resolver.RefusesMissing`: the refusals that depend on the policy.
* `Plan.Describes`: the plan of a call, field by field.
* `Resolver.plan_outcome`: which error a call is refused with, when it is resolved, and to what.
-/

namespace ProtectedCall

open Decimal

variable {ι β : Type}

/-- What is told of the errors of a step tells when there is none. -/
private theorem eq_none_of_ok {α : Type} {x : Except CallError α} {fault : Option CallError} {a : α}
    (h : ∀ e, x = .error e ↔ fault = some e) (hx : x = .ok a) : fault = none := by
  cases hf : fault with
  | none => rfl
  | some e =>
    rw [(h e).mpr hf] at hx
    cases hx

/-! ## Pool settings -/

/-- What is wrong with a pool setting, if anything is. -/
def Setting.fault? (s : Setting) : Option CallError :=
  match PoolField.ofName? s.name with
  | none => some (.unsupportedSetting s.name)
  | some _ =>
    match readInt32 s.value with
    | .error fault => some (.invalidSetting s.name s.value fault)
    | .ok _ => none

/-- What is wrong with the first pool setting that is not right. -/
def Method.poolFault? (m : Method β) : Option CallError :=
  m.command.bind fun decl => decl.poolSettings.findSome? Setting.fault?

/-- A setting is not right for its name, or else for its value. -/
theorem Setting.shape_of_fault? {s : Setting} {e : CallError} (h : s.fault? = some e) :
    e = .unsupportedSetting s.name ∨ ∃ fault, e = .invalidSetting s.name s.value fault := by
  unfold fault? at h
  split at h
  · exact .inl (Option.some.inj h).symm
  · split at h
    · exact .inr ⟨_, (Option.some.inj h).symm⟩
    · cases h

/-- Only the declaration of a command has pool settings, and the error names one of them. -/
theorem Method.shape_of_poolFault? {m : Method β} {e : CallError} (h : m.poolFault? = some e) :
    ∃ decl, m.command = some decl ∧ ∃ s ∈ decl.poolSettings,
      e = .unsupportedSetting s.name ∨ ∃ fault, e = .invalidSetting s.name s.value fault := by
  obtain ⟨decl, hd, hf⟩ := Option.bind_eq_some_iff.mp h
  obtain ⟨s, hs, hf⟩ := List.exists_of_findSome?_eq_some hf
  exact ⟨decl, hd, s, hs, Setting.shape_of_fault? hf⟩

namespace PoolOverlay

/-- A setting is refused for what is wrong with it, whatever has been overridden before. -/
theorem addSetting_eq_error_iff {o : PoolOverlay} {s : Setting} {e : CallError} :
    o.addSetting s = .error e ↔ s.fault? = some e := by
  unfold addSetting Setting.fault?
  cases PoolField.ofName? s.name with
  | none => simp
  | some field => cases readInt32 s.value <;> simp

theorem foldlM_eq_error_iff {o : PoolOverlay} {settings : List Setting} {e : CallError} :
    settings.foldlM addSetting o = .error e ↔ settings.findSome? Setting.fault? = some e := by
  induction settings generalizing o with
  | nil => simp [pure, Except.pure]
  | cons s settings ih =>
    rw [List.foldlM_cons, List.findSome?_cons]
    cases hs : o.addSetting s with
    | error e' =>
      rw [addSetting_eq_error_iff.mp hs]
      simp [bind, Except.bind]
    | ok o' =>
      rw [eq_none_of_ok (fun e => addSetting_eq_error_iff) hs]
      exact ih

/-- Settings are refused for what is wrong with the first one that is not right. -/
theorem ofSettings?_eq_error_iff {settings : List Setting} {e : CallError} :
    ofSettings? settings = .error e ↔ settings.findSome? Setting.fault? = some e := by
  rw [← @foldlM_eq_error_iff empty]
  unfold ofSettings?
  cases settings with
  | nil => simp [pure, Except.pure]
  | cons s settings =>
    rw [if_neg (by simp), ofSettings]
    cases (s :: settings).foldlM addSetting empty <;> simp [Except.map]

/-- There is no overlay exactly where no setting is declared. -/
theorem ofSettings?_eq_ok_iff {settings : List Setting} {pool : Option PoolOverlay} :
    ofSettings? settings = .ok pool ↔
      match pool with
      | none => settings = []
      | some o => settings ≠ [] ∧ ofSettings settings = .ok o := by
  unfold ofSettings?
  cases settings with
  | nil => cases pool <;> simp
  | cons s settings =>
    rw [if_neg (by simp)]
    cases ofSettings (s :: settings) <;> cases pool <;> simp [Except.map]

end PoolOverlay

/-! ## Refusals -/

namespace Resolver

/-- A cycle is recorded for the method, and cycles are refused. -/
def RefusesCycle (r : Resolver β) (m : Method β) : Prop :=
  r.policy.detectCycles ∧ m.cycle? ≠ none

/-- The method declares a fallback that is not registered, and those are refused. -/
def RefusesMissing (r : Resolver β) (m : Method β) : Prop :=
  r.policy.missingFallback = .fail ∧ m.fallbackName ≠ "" ∧
    r.registry.find? (m.signature.sibling m.fallbackName) = none

variable {r : Resolver β} {m : Method β} {e : CallError}

theorem checkCycle_eq_error_iff :
    r.checkCycle m = .error e ↔
      r.policy.detectCycles ∧ ∃ keys, m.cycle? = some keys ∧ e = .cyclicFallback keys := by
  unfold checkCycle
  cases r.policy.detectCycles with
  | false => simp
  | true => cases m.cycle? <;> simp [eq_comm]

theorem not_refusesCycle_iff : ¬ r.RefusesCycle m ↔ r.checkCycle m = .ok () := by
  rw [checkCycle_eq_ok_iff, RefusesCycle]
  tauto

theorem missing?_eq_some_iff {registrations : List (Registration β)}
    (frozen : Registry.freeze registrations = .ok r.registry) (hm : m ∈ r.registry.methods) :
    r.missing? m = some e ↔ r.RefusesMissing m ∧
      e = .noSuchFallback m.owner m.fallbackName m.signature.params
        (FallbackLink.overloads registrations m.owner m.fallbackName) := by
  unfold missing? RefusesMissing
  rw [Registry.fallback_of_mem frozen hm]
  by_cases hn : m.fallbackName = ""
  · simp [hn]
  · have he : m.fallbackName.isEmpty = false := by simpa using hn
    cases hf : r.registry.find? (m.signature.sibling m.fallbackName) with
    | some f => simp [he]
    | none => cases r.policy.missingFallback <;> simp [he, hn, eq_comm]

/-- An obstacle is a wrong pool setting, or else a missing fallback. -/
theorem obstacle?_eq_some_iff :
    r.obstacle? m = some e ↔ m.isCommand ∧
      (m.poolFault? = some e ∨ m.poolFault? = none ∧ r.missing? m = some e) := by
  unfold obstacle? Method.poolFault? Method.isCommand
  cases m.command with
  | none => simp
  | some decl =>
    simp only [Option.bind_some]
    cases hpool : PoolOverlay.ofSettings? decl.poolSettings with
    | error e' => simp [PoolOverlay.ofSettings?_eq_error_iff.mp hpool]
    | ok pool =>
      simp [eq_none_of_ok (fun e => PoolOverlay.ofSettings?_eq_error_iff) hpool]

theorem missing?_eq_none_iff {registrations : List (Registration β)}
    (frozen : Registry.freeze registrations = .ok r.registry) (hm : m ∈ r.registry.methods) :
    r.missing? m = none ↔ ¬ r.RefusesMissing m := by
  simp [Option.eq_none_iff_forall_ne_some, missing?_eq_some_iff frozen hm]

theorem obstacle?_eq_none_iff (hc : m.isCommand) :
    r.obstacle? m = none ↔ m.poolFault? = none ∧ r.missing? m = none := by
  cases hf : m.poolFault? with
  | some e => simp [obstacle?_eq_some_iff.mpr ⟨hc, .inl hf⟩]
  | none =>
    have heq : r.obstacle? m = r.missing? m :=
      Option.ext fun e => by simp [obstacle?_eq_some_iff, hf, hc]
    simp [heq]

end Resolver

/-! ## Outcomes -/

/-- The plan of a call of a command says what is declared, and where nothing is declared what the
call has as its defaults. Its actions have the target and the arguments of the call. -/
structure Plan.Describes (p : Plan ι β) (r : Resolver β) (inv : Invocation ι β) (batch : Batch)
    (decl : CommandDecl) : Prop where
  groupKey : p.identity.groupKey = if decl.groupKey = "" then inv.groupKey else decl.groupKey
  commandKey :
    p.identity.commandKey = if decl.commandKey = "" then inv.commandKey else decl.commandKey
  poolKey : p.identity.poolKey = decl.poolKey
  effectivePoolKey :
    p.identity.effectivePoolKey =
      if decl.poolKey = "" then p.identity.commandKey else decl.poolKey
  pool :
    match p.identity.pool with
    | none => decl.poolSettings = []
    | some o => decl.poolSettings ≠ [] ∧ PoolOverlay.ofSettings decl.poolSettings = .ok o
  options : p.options = .ofSettings decl.options
  ignoredErrors : p.ignoredErrors = decl.ignoredErrors
  mode : p.mode = inv.mode
  command : p.actions.command = .direct ⟨inv.target, inv.method, inv.args⟩
  fallback :
    p.actions.fallback =
      (if decl.fallbackName = "" then none
        else r.registry.find? (inv.method.signature.sibling decl.fallbackName)).map fun f =>
          if f.isCommand then .deferred ⟨r.policy, inv.ofFallback f, batch⟩
          else .direct ⟨inv.target, f, inv.args⟩
  cacheKey : p.actions.cacheKey = inv.cacheKeyMethod.map fun c => .direct ⟨inv.target, c, inv.args⟩

theorem Registry.next?_eq {registrations : List (Registration β)} {registry : Registry β}
    (frozen : freeze registrations = .ok registry) {m : Method β} (hm : m ∈ registry.methods) :
    registry.next? m =
      if m.fallbackName = "" then none
      else registry.find? (m.signature.sibling m.fallbackName) := by
  rw [next?, fallback_of_mem frozen hm]
  by_cases hn : m.fallbackName = ""
  · simp [hn]
  · cases hf : registry.find? (m.signature.sibling m.fallbackName) <;> simp [hn]

namespace Resolver

variable {registrations : List (Registration β)} {r : Resolver β} {inv : Invocation ι β}
variable {batch : Batch} {p : Plan ι β}

theorem describes_of_plan (frozen : Registry.freeze registrations = .ok r.registry)
    (sound : inv.Sound r.registry) (h : r.plan inv batch = .ok p) :
    ∃ decl, inv.method.command = some decl ∧ p.Describes r inv batch decl := by
  obtain ⟨decl, pool, hd, -, hpool, -, rfl⟩ := (plan_eq_ok_iff frozen sound).mp h
  have hname := Registration.fallbackName_of_command hd
  refine ⟨decl, hd, ?_⟩
  constructor
  case groupKey => exact declaredOr_eq _ _
  case commandKey => exact declaredOr_eq _ _
  case effectivePoolKey => exact declaredOr_eq _ _
  case pool => exact PoolOverlay.ofSettings?_eq_ok_iff.mp hpool
  case fallback =>
    rw [← hname, ← Registry.next?_eq frozen sound.registered]
    rfl
  all_goals rfl

/-- What resolution comes to. A method that is no command is refused for that. A command is refused
for the cycle that is recorded for it, if cycles are refused; or else for its first pool setting
that is not right; or else for its missing fallback, if those are refused. There is no other error,
above all none about the call of the fallback, and without one of them the call is resolved to the
plan that describes it. -/
theorem plan_outcome {registrations : List (Registration β)} {registry : Registry β}
    {policy : Policy} {draft : Invocation.Draft ι β} {inv : Invocation ι β}
    (frozen : Registry.freeze registrations = .ok registry) (captured : draft.build = .ok inv)
    (registered : inv.method ∈ registry.methods) (batch : Batch) :
    (∀ e, Resolver.plan ⟨registry, policy⟩ inv batch = .error e ↔
      inv.method.isCommand = false ∧ e = .missingDeclaration inv.method.signature ∨
      inv.method.isCommand ∧
        (policy.detectCycles ∧
            (∃ keys, inv.method.cycle? = some keys ∧ e = .cyclicFallback keys) ∨
          ¬ RefusesCycle ⟨registry, policy⟩ inv.method ∧
            (inv.method.poolFault? = some e ∨
              inv.method.poolFault? = none ∧ RefusesMissing ⟨registry, policy⟩ inv.method ∧
                e = .noSuchFallback inv.method.owner inv.method.fallbackName
                  inv.method.signature.params
                  (FallbackLink.overloads registrations inv.method.owner
                    inv.method.fallbackName)))) ∧
    (∀ fault, Resolver.plan ⟨registry, policy⟩ inv batch ≠ .error (.invalidInvocation fault)) ∧
    ((∃ p, Resolver.plan ⟨registry, policy⟩ inv batch = .ok p) ↔
      inv.method.isCommand ∧ ¬ RefusesCycle ⟨registry, policy⟩ inv.method ∧
        inv.method.poolFault? = none ∧ ¬ RefusesMissing ⟨registry, policy⟩ inv.method) ∧
    ∀ p, Resolver.plan ⟨registry, policy⟩ inv batch = .ok p →
      ∃ decl, inv.method.command = some decl ∧ p.Describes ⟨registry, policy⟩ inv batch decl := by
  have sound := Invocation.Sound.of_build captured registered
  have hmissing := fun e =>
    @missing?_eq_some_iff _ ⟨registry, policy⟩ inv.method e _ frozen registered
  have herror (e : CallError) :=
    @plan_eq_error_iff _ _ ⟨registry, policy⟩ inv batch e _ frozen sound
  -- The steps of resolution, each with the condition under which it refuses the call.
  simp only [checkCycle_eq_error_iff, ← not_refusesCycle_iff, obstacle?_eq_some_iff, hmissing]
    at herror
  refine ⟨fun e => ?_, fun fault h => ?_, ?_, fun p hp => describes_of_plan frozen sound hp⟩
  · rw [herror]
    cases inv.method.isCommand <;> simp
  · rcases (herror _).mp h with ⟨-, he⟩ | ⟨-, -, keys, -, he⟩ | ⟨-, -, he | ⟨-, -, he⟩⟩
    · cases he
    · cases he
    · obtain ⟨decl, -, s, -, he | ⟨fault, he⟩⟩ := Method.shape_of_poolFault? he <;> cases he
    · cases he
  · rw [not_refusesCycle_iff, ← missing?_eq_none_iff frozen registered]
    constructor
    · rintro ⟨p, hp⟩
      obtain ⟨hc, hcyc, hobs, -⟩ := of_plan_eq_ok frozen sound hp
      exact ⟨hc, hcyc, (obstacle?_eq_none_iff hc).mp hobs⟩
    · rintro ⟨hc, hcyc, hobs⟩
      obtain ⟨p, hp, -⟩ := exists_plan frozen sound hc hcyc ((obstacle?_eq_none_iff hc).mpr hobs)
      exact ⟨p, hp⟩

end Resolver

/-! ## A stall -/

namespace Stall

/-- One command, with two wrong pool settings and a fallback that is not registered. -/
def registrations : List (Registration Unit) :=
  [{ signature := ⟨"Stall", "sell", []⟩, body := (),
     command := some {
      fallbackName := "lend",
      poolSettings := [⟨"coreSize", "4"⟩, ⟨"maxQueueSize", "x"⟩, ⟨"bogus", "1"⟩] } }]

/-- The registry of the stall. -/
def registry : Registry Unit := .linked registrations

/-- A call of that command. -/
def draft : Invocation.Draft Unit Unit :=
  { target := some ⟨"Stall", 0, ()⟩, method := registry.methods.head (List.cons_ne_nil _ _),
    groupKey := some "Stall" }

theorem freeze_registrations : Registry.freeze registrations = .ok registry :=
  Registry.freeze_of_nodup (by decide)

theorem plan_outcome_stall :
    ∃ inv, Registry.freeze registrations = .ok registry ∧ draft.build = .ok inv ∧
      inv.method ∈ registry.methods ∧
      Resolver.plan ⟨registry, {}⟩ inv default =
        .error (.invalidSetting "maxQueueSize" "x" .invalidDigit) := by
  have outcome := @Resolver.plan_outcome _ _ registrations registry {} draft _ freeze_registrations
    rfl List.mem_cons_self default
  refine ⟨_, freeze_registrations, rfl, List.mem_cons_self, (outcome.1 _).mpr ?_⟩
  refine .inr ⟨rfl, .inr ⟨?_, .inl ?_⟩⟩
  · rintro ⟨-, hcycle⟩
    exact hcycle rfl
  · decide +kernel

end Stall

end ProtectedCall
