import ProtectedCall.Execution
import ProtectedCall.Proofs.Chain
import ProtectedCall.Proofs.Fit

/-!
# Resolution of sound calls

A call is sound if its method is registered and fits it (`Invocation.Sound`). Captured calls are
sound, and so are the calls of their fallbacks. For sound calls on a frozen registry the outcome of
resolution depends on the method alone, and the actions of a plan can be written down:

* `Resolver.obstacle?`: what keeps a command from being resolved, cycles apart. It is a wrong pool
  setting or a missing fallback (`Resolver.isObstacle_of_obstacle?`).
* `Resolver.actionsOf`: the actions that a sound call is resolved to.
* `Resolver.plan_eq_ok_iff`, `Resolver.plan_eq_error_iff`: resolution in terms of the two.
* `Shop`: a small registry and a call, for examples.
-/

namespace ProtectedCall

variable {ι β : Type}

/-! ## Sound calls -/

/-- A call of a registered method that fits it, as does the cache-key method. -/
structure Invocation.Sound (registry : Registry β) (inv : Invocation ι β) : Prop where
  registered : inv.method ∈ registry.methods
  fits : inv.method.Fits inv.target inv.args
  cacheKey : ∀ c, inv.cacheKeyMethod = some c → c.Fits inv.target inv.args

/-- The call of a fallback, as it is captured for another call. -/
def Invocation.ofFallback (inv : Invocation ι β) (f : Method β) : Invocation ι β where
  target := inv.target
  method := f
  args := inv.args
  collapser := inv.collapser
  groupKey := keyOr (some inv.groupKey) inv.target.shortTypeName
  commandKey := f.name
  collapserKey := keyOr (some inv.collapserKey) f.name
  cacheKeyMethod := none
  mode := .ofShape f.returns

namespace Invocation

variable {registry : Registry β} {inv : Invocation ι β}

theorem Sound.of_build {d : Draft ι β} (h : d.build = .ok inv)
    (hm : inv.method ∈ registry.methods) : inv.Sound registry := by
  obtain ⟨target, method, -, -, hf, hc, rfl⟩ := Draft.build_eq_ok_iff.mp h
  exact ⟨hm, hf, hc⟩

/-- A fallback that fits a call is captured for it. -/
theorem build_fallbackDraft {f : Method β} (h : f.Fits inv.target inv.args) :
    (inv.fallbackDraft f).build = .ok (inv.ofFallback f) := by
  refine Draft.build_eq_ok_iff.mpr ⟨inv.target, f, rfl, rfl, h, ?_, ?_⟩
  · rintro c ⟨⟩
  · have hk : keyOr (some f.name) f.name = f.name := by simp [keyOr, declaredOr]
    simp only [ofFallback, fallbackDraft, Draft.withTarget, Draft.withMethod, Draft.withArgs,
      Draft.withCollapser, Draft.withGroupKey, Draft.withCommandKey, Draft.withCollapserKey, hk,
      Option.getD_some, Option.getD_none]

section Frozen

variable {registrations : List (Registration β)} {f : Method β}

/-- The fallback of a sound call fits that call. -/
theorem Sound.next?_fits (frozen : Registry.freeze registrations = .ok registry)
    (sound : inv.Sound registry) (h : registry.next? inv.method = some f) :
    f.Fits inv.target inv.args := by
  obtain ⟨-, ho, hp⟩ := Registry.next?_shape frozen sound.registered h
  exact sound.fits.congr ho hp

theorem Sound.ofFallback (frozen : Registry.freeze registrations = .ok registry)
    (sound : inv.Sound registry) (h : registry.next? inv.method = some f) :
    (inv.ofFallback f).Sound registry := by
  have hfits := sound.next?_fits frozen h
  exact ⟨(Registry.next?_shape frozen sound.registered h).1, hfits, by rintro c ⟨⟩⟩

end Frozen

/-- Other arguments are only checked against the method, so there must be no cache-key method. -/
theorem Sound.replace (sound : inv.Sound registry) (hn : inv.cacheKeyMethod = none)
    {args : List Value} (h : inv.method.signature.checkArgs args = .ok ()) :
    ({ inv with args } : Invocation ι β).Sound registry where
  registered := sound.registered
  fits := sound.fits.replace h
  cacheKey := by
    intro c hc
    rw [hn] at hc
    cases hc

end Invocation

/-! ## Obstacles -/

/-- The error is that of a pool setting or of a missing fallback. -/
def CallError.isObstacle : CallError → Bool
  | .unsupportedSetting _ => true
  | .invalidSetting _ _ _ => true
  | .noSuchFallback _ _ _ _ => true
  | _ => false

namespace PoolOverlay

theorem isObstacle_of_addSetting {o : PoolOverlay} {s : Setting} {e : CallError}
    (h : o.addSetting s = .error e) : e.isObstacle := by
  unfold addSetting at h
  split at h
  · cases h
    rfl
  · split at h
    · cases h
      rfl
    · cases h

theorem isObstacle_of_foldlM {o : PoolOverlay} {settings : List Setting} {e : CallError}
    (h : settings.foldlM addSetting o = .error e) : e.isObstacle := by
  induction settings generalizing o with
  | nil => cases h
  | cons s settings ih =>
    rw [List.foldlM_cons] at h
    cases hs : o.addSetting s with
    | error e' =>
      rw [hs] at h
      cases h
      exact isObstacle_of_addSetting hs
    | ok o' =>
      rw [hs] at h
      exact ih h

theorem isObstacle_of_ofSettings? {settings : List Setting} {e : CallError}
    (h : ofSettings? settings = .error e) : e.isObstacle := by
  unfold ofSettings? at h
  split at h
  · cases h
  · cases hs : ofSettings settings with
    | error e' =>
      rw [hs] at h
      cases h
      exact isObstacle_of_foldlM hs
    | ok o =>
      rw [hs] at h
      cases h

end PoolOverlay

namespace Resolver

/-! ## What resolution gives -/

/-- The error of a missing fallback, unless the policy ignores it. -/
def missing? (r : Resolver β) (m : Method β) : Option CallError :=
  match r.registry.fallback m, r.policy.missingFallback with
  | .error e, .fail => some e
  | _, _ => none

/-- What keeps a command from being resolved, cycles apart: a wrong pool setting, or else a missing
fallback. -/
def obstacle? (r : Resolver β) (m : Method β) : Option CallError :=
  match m.command with
  | none => none
  | some decl =>
    match PoolOverlay.ofSettings? decl.poolSettings with
    | .error e => some e
    | .ok _ => r.missing? m

/-- The action of a fallback that fits. -/
def fallbackOf (r : Resolver β) (inv : Invocation ι β) (batch : Batch) (f : Method β) :
    Action ι β :=
  if f.isCommand then .deferred ⟨r.policy, inv.ofFallback f, batch⟩
  else .direct ⟨inv.target, f, inv.args⟩

/-- The actions of a sound call. -/
def actionsOf (r : Resolver β) (inv : Invocation ι β) (batch : Batch) : ActionSet ι β where
  command := .direct ⟨inv.target, inv.method, inv.args⟩
  fallback := (r.registry.next? inv.method).map (r.fallbackOf inv batch)
  cacheKey := inv.cacheKeyMethod.map fun m => .direct ⟨inv.target, m, inv.args⟩

variable {r : Resolver β} {inv : Invocation ι β} {batch : Batch} {p : Plan ι β} {e : CallError}

theorem checkCycle_eq_ok_iff {m : Method β} :
    r.checkCycle m = .ok () ↔ (r.policy.detectCycles → m.cycle? = none) := by
  unfold checkCycle
  cases hd : r.policy.detectCycles with
  | false => simp
  | true => cases hc : m.cycle? <;> simp

theorem checkCycle_eq_error {m : Method β} (h : r.checkCycle m = .error e) :
    ∃ keys, m.cycle? = some keys ∧ e = .cyclicFallback keys := by
  unfold checkCycle at h
  split at h
  · rename_i keys _ hc
    exact ⟨keys, hc, (Except.error.inj h).symm⟩
  · cases h

section Frozen

variable {registrations : List (Registration β)}

theorem fallbackAction_eq (frozen : Registry.freeze registrations = .ok r.registry)
    (sound : inv.Sound r.registry) :
    r.fallbackAction inv batch =
      match r.missing? inv.method with
      | some e => .error e
      | none => .ok ((r.registry.next? inv.method).map (r.fallbackOf inv batch)) := by
  -- The fallback takes what the method takes, so it is always captured.
  have hfit {f : Method β} (h : r.registry.next? inv.method = some f) :
      r.actionOfFallback inv batch f = .ok (r.fallbackOf inv batch f) := by
    unfold actionOfFallback fallbackOf
    rw [Invocation.build_fallbackDraft (sound.next?_fits frozen h)]
    split <;> rfl
  unfold fallbackAction missing?
  cases hr : r.registry.fallback inv.method with
  | ok fallback =>
    cases fallback with
    | none => simp [Registry.next?, hr]
    | some f =>
      have hn : r.registry.next? inv.method = some f := by simp [Registry.next?, hr]
      simp [hn, hfit hn, Except.map]
  | error err =>
    have hn : r.registry.next? inv.method = none := by simp [Registry.next?, hr]
    obtain ⟨owner, name, params, available, rfl⟩ :=
      Registry.noSuchFallback_of_error frozen sound.registered hr
    cases r.policy.missingFallback <;> simp [hn]

/-- The sound calls that are resolved, and to which plan. -/
theorem plan_eq_ok_iff (frozen : Registry.freeze registrations = .ok r.registry)
    (sound : inv.Sound r.registry) :
    r.plan inv batch = .ok p ↔ ∃ decl pool, inv.command = some decl ∧
      r.checkCycle inv.method = .ok () ∧ PoolOverlay.ofSettings? decl.poolSettings = .ok pool ∧
      r.missing? inv.method = none ∧
      p = {
        identity := {
          groupKey := declaredOr decl.groupKey inv.groupKey
          commandKey := declaredOr decl.commandKey inv.commandKey
          poolKey := decl.poolKey
          pool }
        actions := r.actionsOf inv batch
        options := .ofSettings decl.options
        ignoredErrors := decl.ignoredErrors
        mode := inv.mode } := by
  unfold plan
  cases hd : inv.command with
  | none => simp
  | some decl =>
    simp only [bind_eq_ok_iff, actions, fallbackAction_eq frozen sound]
    constructor
    · rintro ⟨⟨⟩, hcyc, pool, hpool, acts, hacts, hp⟩
      obtain ⟨fallback, hf, ha⟩ := hacts
      cases hm : r.missing? inv.method with
      | some e =>
        rw [hm] at hf
        cases hf
      | none =>
        rw [hm] at hf
        cases hf
        cases ha
        exact ⟨decl, pool, rfl, hcyc, hpool, rfl, (Except.ok.inj hp).symm⟩
    · rintro ⟨decl', pool, ⟨⟩, hcyc, hpool, hm, rfl⟩
      rw [hm]
      exact ⟨(), hcyc, pool, hpool, _, ⟨_, rfl, rfl⟩, rfl⟩

/-- The sound calls that are not resolved, and why: the method is not a command, or a cycle is
recorded, or there is an obstacle. -/
theorem plan_eq_error_iff (frozen : Registry.freeze registrations = .ok r.registry)
    (sound : inv.Sound r.registry) :
    r.plan inv batch = .error e ↔
      inv.method.isCommand = false ∧ e = .missingDeclaration inv.method.signature ∨
      inv.method.isCommand ∧ r.checkCycle inv.method = .error e ∨
      r.checkCycle inv.method = .ok () ∧ r.obstacle? inv.method = some e := by
  have hd : inv.command = inv.method.command := rfl
  unfold plan obstacle?
  rw [hd]
  cases hc : inv.method.command with
  | none => simp [Method.isCommand, hc, eq_comm]
  | some decl =>
    cases hcyc : r.checkCycle inv.method with
    | error e' => simp [Method.isCommand, hc, bind, Except.bind]
    | ok u =>
      cases hpool : PoolOverlay.ofSettings? decl.poolSettings with
      | error e' => simp [Method.isCommand, hc, bind, Except.bind, hpool]
      | ok pool =>
        simp only [actions, fallbackAction_eq frozen sound]
        cases hm : r.missing? inv.method with
        | some e' => simp [Method.isCommand, hc, bind, Except.bind, hpool]
        | none => simp [Method.isCommand, hc, bind, Except.bind, pure, Except.pure, hpool]

/-- A call that is resolved is one of a command without a cycle that is refused, and without an
obstacle. -/
theorem of_plan_eq_ok (frozen : Registry.freeze registrations = .ok r.registry)
    (sound : inv.Sound r.registry) (h : r.plan inv batch = .ok p) :
    inv.method.isCommand ∧ r.checkCycle inv.method = .ok () ∧ r.obstacle? inv.method = none ∧
      p.actions = r.actionsOf inv batch := by
  obtain ⟨decl, pool, hd, hcyc, hpool, hm, rfl⟩ := (plan_eq_ok_iff frozen sound).mp h
  have hd : inv.method.command = some decl := hd
  refine ⟨by simp [Method.isCommand, hd], hcyc, ?_, rfl⟩
  simp only [obstacle?, hd, hpool, hm]

/-- A sound call of a command is resolved if neither a cycle nor an obstacle keeps it from that. -/
theorem exists_plan (frozen : Registry.freeze registrations = .ok r.registry)
    (sound : inv.Sound r.registry) (hc : inv.method.isCommand)
    (hcyc : r.checkCycle inv.method = .ok ()) (clear : r.obstacle? inv.method = none) :
    ∃ p, r.plan inv batch = .ok p ∧ p.actions = r.actionsOf inv batch := by
  cases hp : r.plan inv batch with
  | error e =>
    rcases (plan_eq_error_iff frozen sound).mp hp with ⟨hn, -⟩ | ⟨-, he⟩ | ⟨-, he⟩
    · rw [hc] at hn
      cases hn
    · rw [hcyc] at he
      cases he
    · rw [clear] at he
      cases he
  | ok p => exact ⟨p, rfl, (of_plan_eq_ok frozen sound hp).2.2.2⟩

end Frozen

/-! ## Actions -/

theorem mem_actionsOf_iff {a : Action ι β} :
    a ∈ (r.actionsOf inv batch).toList ↔ a = .direct ⟨inv.target, inv.method, inv.args⟩ ∨
      (∃ f, r.registry.next? inv.method = some f ∧ r.fallbackOf inv batch f = a) ∨
      ∃ c, inv.cacheKeyMethod = some c ∧ .direct ⟨inv.target, c, inv.args⟩ = a := by
  simp [ActionSet.toList, actionsOf]

/-- The only action that is deferred is that of a fallback that is a command. -/
theorem deferred_mem_actionsOf_iff {d : DeferredCommand ι β} :
    .deferred d ∈ (r.actionsOf inv batch).toList ↔
      ∃ f, r.registry.nextCommand? inv.method = some f ∧
        d = ⟨r.policy, inv.ofFallback f, batch⟩ := by
  rw [mem_actionsOf_iff]
  constructor
  · rintro (h | ⟨f, hf, ha⟩ | ⟨c, -, hc⟩)
    · cases h
    · unfold fallbackOf at ha
      split at ha
      · rename_i hcmd
        cases ha
        exact ⟨f, Registry.nextCommand?_eq_some_iff.mpr ⟨hf, hcmd⟩, rfl⟩
      · cases ha
    · cases hc
  · rintro ⟨f, hf, rfl⟩
    obtain ⟨hf, hcmd⟩ := Registry.nextCommand?_eq_some_iff.mp hf
    refine .inr (.inl ⟨f, hf, ?_⟩)
    rw [fallbackOf, if_pos hcmd]

/-! ## Errors -/

/-- Only commands have obstacles. -/
theorem isCommand_of_obstacle? {m : Method β} (h : r.obstacle? m = some e) : m.isCommand := by
  unfold obstacle? at h
  cases hc : m.command with
  | none => simp [hc] at h
  | some decl => simp [Method.isCommand, hc]

theorem isObstacle_of_missing? {registrations : List (Registration β)}
    (frozen : Registry.freeze registrations = .ok r.registry) {m : Method β}
    (hm : m ∈ r.registry.methods) (h : r.missing? m = some e) : e.isObstacle := by
  unfold missing? at h
  split at h
  · rename_i hr _
    obtain ⟨owner, name, params, available, rfl⟩ := Registry.noSuchFallback_of_error frozen hm hr
    cases h
    rfl
  · cases h

theorem isObstacle_of_obstacle? {registrations : List (Registration β)}
    (frozen : Registry.freeze registrations = .ok r.registry) {m : Method β}
    (hm : m ∈ r.registry.methods) (h : r.obstacle? m = some e) : e.isObstacle := by
  unfold obstacle? at h
  split at h
  · cases h
  · split at h
    · rename_i hpool
      cases h
      exact PoolOverlay.isObstacle_of_ofSettings? hpool
    · exact isObstacle_of_missing? frozen hm h

/-- A sound call is refused for want of a declaration, for a cycle or for an obstacle. -/
theorem shape_of_plan_eq_error {registrations : List (Registration β)}
    (frozen : Registry.freeze registrations = .ok r.registry) (sound : inv.Sound r.registry)
    (h : r.plan inv batch = .error e) :
    e.isObstacle ∨ (∃ s, e = .missingDeclaration s) ∨ ∃ keys, e = .cyclicFallback keys := by
  rcases (plan_eq_error_iff frozen sound).mp h with ⟨-, he⟩ | ⟨-, he⟩ | ⟨-, he⟩
  · exact .inr (.inl ⟨_, he⟩)
  · obtain ⟨keys, -, he⟩ := checkCycle_eq_error he
    exact .inr (.inr ⟨keys, he⟩)
  · exact .inl (isObstacle_of_obstacle? frozen sound.registered he)

end Resolver

/-! ## A shop -/

namespace Shop

/-- A command, a command as its fallback and a plain method behind that. -/
def registrations : List (Registration String) :=
  [("pay", some { fallbackName := "retry" }), ("retry", some { fallbackName := "note" }),
    ("note", none)].map
    fun (name, command) => { signature := ⟨"Shop", name, [.integer]⟩, command, body := name }

/-- The registry of the shop. -/
def registry : Registry String :=
  ⟨registrations.map fun r => { r with link := FallbackLink.of registrations r }⟩

theorem freeze_eq : Registry.freeze registrations = .ok registry :=
  Registry.freeze_eq_ok_iff.mpr ⟨by decide, rfl⟩

/-- A call of the first command. -/
def payment : Invocation Unit String where
  target := ⟨"Shop", 0, ()⟩
  method := registry.methods.head (List.cons_ne_nil _ _)
  args := [.integer 5]
  collapser := none
  groupKey := "Shop"
  commandKey := "pay"
  collapserKey := "pay"
  cacheKeyMethod := none
  mode := .synchronous

/-- What is supplied for that call. -/
def draft : Invocation.Draft Unit String :=
  { target := payment.target, method := payment.method, args := payment.args, groupKey := "Shop" }

theorem build_draft : draft.build = .ok payment := rfl

theorem payment_mem : payment.method ∈ registry.methods := List.mem_cons_self

theorem payment_resolved : ∃ plan, Resolver.plan ⟨registry, {}⟩ payment default = .ok plan := by
  have sound := Invocation.Sound.of_build build_draft payment_mem
  refine ⟨_, (Resolver.plan_eq_ok_iff freeze_eq sound).mpr ⟨_, none, rfl, ?_, rfl, ?_, rfl⟩⟩
  · exact Resolver.checkCycle_eq_ok_iff.mpr fun _ => by decide +kernel
  · decide +kernel

end Shop

end ProtectedCall
