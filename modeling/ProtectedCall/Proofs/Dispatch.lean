import ProtectedCall.Proofs.Descent

/-!
# Actions are well typed

The checks in front of a body never refuse an action that resolution gave. What such an action calls
fits (`Action.Sound`), and so does all that is resolved below it. Leaving the checks out changes no
run (`Runtime.performBare`), as long as the engine keeps to the actions of its plan
(`Engine.Confined`).

* `Resolver.sound_of_mem_actionsOf`, `DeferredCommand.sound_of_plan`: resolution of sound calls
  gives sound actions.
* `Action.Sound.perform_eq`: sound actions run without the checks as they do with them.
* `DeferredCommand.reached_actions_fit`: the whole for everything that can be reached from a call.
-/

namespace ProtectedCall

variable {m : Type → Type} {ι β : Type}

/-! ## Sound actions -/

namespace Action

/-- The method that the action calls, or the one of the command that is deferred. -/
def method : Action ι β → Method β
  | .direct call => call.method
  | .deferred d => d.invocation.method

/-- The target of the call. -/
def target : Action ι β → Target ι
  | .direct call => call.target
  | .deferred d => d.invocation.target

/-- A direct call fits; a deferred command is a sound call without a cache key. -/
def Sound (registry : Registry β) : Action ι β → Prop
  | .direct call => call.method.Fits call.target call.args
  | .deferred d => d.invocation.Sound registry ∧ d.invocation.cacheKeyMethod = none

theorem Sound.fits {registry : Registry β} {a : Action ι β} (h : a.Sound registry) :
    a.method.Fits a.target a.args := by
  cases a with
  | direct call => exact h
  | deferred d => exact h.1.fits

end Action

section Frozen

variable {registrations : List (Registration β)} {registry : Registry β}

theorem Resolver.sound_of_mem_actionsOf {r : Resolver β} {inv : Invocation ι β} {batch : Batch}
    (frozen : Registry.freeze registrations = .ok r.registry) (sound : inv.Sound r.registry)
    {a : Action ι β} (ha : a ∈ (r.actionsOf inv batch).toList) : a.Sound r.registry := by
  rcases mem_actionsOf_iff.mp ha with rfl | ⟨f, hf, rfl⟩ | ⟨c, hc, rfl⟩
  · exact sound.fits
  · unfold fallbackOf
    split
    · exact ⟨sound.ofFallback frozen hf, rfl⟩
    · exact sound.next?_fits frozen hf
  · exact sound.cacheKey c hc

/-- A deferred command is resolved for its call with some arguments, which that call takes. -/
theorem DeferredCommand.exists_args_of_plan {d : DeferredCommand ι β}
    (sound : (Action.deferred d).Sound registry) {given : Option (List Value)} {p : Plan ι β}
    (h : d.plan registry given = .ok p) :
    ∃ args, ({ d.invocation with args } : Invocation ι β).Sound registry ∧
      Resolver.plan ⟨registry, d.policy⟩ { d.invocation with args } d.batch = .ok p := by
  obtain ⟨hs, hn⟩ := sound
  cases given with
  | none => exact ⟨d.invocation.args, hs, h⟩
  | some args =>
    obtain ⟨call, hcall, h⟩ := bind_eq_ok_iff.mp h
    obtain ⟨hargs, rfl⟩ := Invocation.withArgs_eq_ok_iff.mp hcall
    exact ⟨args, hs.replace hn hargs, h⟩

/-- A deferred command is resolved for a sound call of its method, whatever arguments it was
executed with. -/
theorem DeferredCommand.exists_call_of_plan
    (frozen : Registry.freeze registrations = .ok registry) {d : DeferredCommand ι β}
    (sound : (Action.deferred d).Sound registry) {args : Option (List Value)} {p : Plan ι β}
    (h : d.plan registry args = .ok p) :
    ∃ call : Invocation ι β, call.Sound registry ∧ call.method = d.invocation.method ∧
      p.actions = Resolver.actionsOf ⟨registry, d.policy⟩ call d.batch := by
  obtain ⟨args, hs, h⟩ := exists_args_of_plan sound h
  exact ⟨_, hs, rfl, (Resolver.of_plan_eq_ok frozen hs h).2.2.2⟩

/-- The actions of a deferred command are sound, whatever arguments it was executed with. -/
theorem DeferredCommand.sound_of_plan (frozen : Registry.freeze registrations = .ok registry)
    {d : DeferredCommand ι β} (sound : (Action.deferred d).Sound registry)
    {args : Option (List Value)} {p : Plan ι β} (h : d.plan registry args = .ok p)
    {a : Action ι β} (ha : a ∈ p.actions.toList) : a.Sound registry := by
  obtain ⟨call, hs, -, hactions⟩ := exists_call_of_plan frozen sound h
  rw [hactions] at ha
  exact Resolver.sound_of_mem_actionsOf frozen hs ha

end Frozen

/-! ## Runs without the checks -/

/-- Runs the body of a direct call without the checks of `Method.dispatch`. Other arguments are
checked before. -/
def DirectCall.performBare [Monad m] (body : β → ι → List Value → m Outcome)
    (call : DirectCall ι β) : Option (List Value) → m Outcome
  | none => body call.method.body call.target.state call.args
  | some args =>
    match call.method.signature.checkArgs args with
    | .error e => pure (.error e)
    | .ok () => body call.method.body call.target.state args

/-- Executes an action as `Runtime.perform` does, with bodies run without the checks. -/
def Runtime.performBare [Monad m] (rt : Runtime m ι β) (registry : Registry β) :
    Nat → Execute m ι β
  | _, .direct call, args => OptionT.lift (call.performBare rt.body args)
  | 0, .deferred _, _ => failure
  | depth + 1, .deferred d, args =>
    match d.plan registry args with
    | .error e => pure (.error e)
    | .ok plan => rt.engine (rt.performBare registry depth) plan d.batch

/-- An engine that executes no other actions than those of its plan. -/
def Engine.Confined (engine : Engine m ι β) : Prop :=
  ∀ (execute₁ execute₂ : Execute m ι β) (plan : Plan ι β) (batch : Batch),
    (∀ a ∈ plan.actions.toList, execute₁ a = execute₂ a) →
      engine execute₁ plan batch = engine execute₂ plan batch

namespace Engine

theorem primary_confined : (primary : Engine m ι β).Confined := by
  intro execute₁ execute₂ plan batch h
  rw [primary, h _ List.mem_cons_self]
  rfl

theorem collapsed_confined : (collapsed : Engine m ι β).Confined := by
  intro execute₁ execute₂ plan batch h
  rw [collapsed, h _ List.mem_cons_self]
  rfl

theorem failover_confined [Monad m] : (failover : Engine m ι β).Confined := by
  intro execute₁ execute₂ plan batch h
  unfold failover
  rw [h _ List.mem_cons_self]
  congr 1
  funext outcome
  cases outcome with
  | ok v => rfl
  | error e =>
    cases hf : plan.actions.fallback with
    | none => rfl
    | some a => exact congrFun (h a (by simp [ActionSet.toList, hf])) none

end Engine

/-- A direct call that fits is not refused. -/
theorem DirectCall.perform_eq [Monad m] {body : β → ι → List Value → m Outcome}
    {call : DirectCall ι β} (h : call.method.Fits call.target call.args)
    (args : Option (List Value)) : call.perform body args = call.performBare body args := by
  cases args with
  | none =>
    rw [perform, Method.invoke, h.dispatch]
    rfl
  | some args =>
    rw [perform, performBare]
    cases hargs : call.method.signature.checkArgs args with
    | error e => rfl
    | ok u =>
      rw [Method.invoke, (h.replace hargs).dispatch]

/-- Sound actions run without the checks as they do with them. -/
theorem Action.Sound.perform_eq [Monad m] {registrations : List (Registration β)}
    {registry : Registry β} (frozen : Registry.freeze registrations = .ok registry)
    {rt : Runtime m ι β} (confined : rt.engine.Confined) {a : Action ι β}
    (sound : a.Sound registry) (depth : Nat) (args : Option (List Value)) :
    rt.perform registry depth a args = rt.performBare registry depth a args := by
  -- By induction on the depth: a sound command's plan has sound actions, and no others are run.
  induction depth generalizing a args with
  | zero =>
    cases a with
    | direct call => rw [Runtime.perform, Runtime.performBare, DirectCall.perform_eq sound]
    | deferred d => rfl
  | succ depth ih =>
    cases a with
    | direct call => rw [Runtime.perform, Runtime.performBare, DirectCall.perform_eq sound]
    | deferred d =>
      rw [Runtime.perform, Runtime.performBare]
      cases hp : d.plan registry args with
      | error e => rfl
      | ok plan =>
        refine confined _ _ plan d.batch fun a ha => ?_
        funext args
        exact ih (DeferredCommand.sound_of_plan frozen sound hp ha) args

namespace DeferredCommand

/-- Every action that resolution gives is well typed to run. Let a deferred command be reached from
a captured call by any number of steps, the call itself included. Then no fallback is refused when
it is captured, resolution reports no fault of a captured or an executed call, and the actions of
the plan fit: with the captured arguments and with all that pass the check, no method refuses to
run, and neither does any that is run further down. -/
theorem reached_actions_fit {registrations : List (Registration β)} {registry : Registry β}
    {policy : Policy} {draft : Invocation.Draft ι β} {inv : Invocation ι β} {batch : Batch}
    {d : DeferredCommand ι β} (frozen : Registry.freeze registrations = .ok registry)
    (captured : draft.build = .ok inv) (registered : inv.method ∈ registry.methods)
    (reached : Relation.ReflTransGen (Yields registry) ⟨policy, inv, batch⟩ d) :
    (∀ f, registry.fallback d.invocation.method = .ok (some f) →
      ∃ nested, (d.invocation.fallbackDraft f).build = .ok nested) ∧
    (∀ e, d.plan registry none = .error e →
      (∀ fault, e ≠ .invalidInvocation fault) ∧ ∀ fault, e ≠ .execution fault) ∧
    ∀ p, d.plan registry none = .ok p → ∀ a ∈ p.actions.toList,
      a.method.Fits a.target a.args ∧
      (∀ args, args = a.args ∨ a.method.signature.checkArgs args = .ok () →
        a.method.dispatch a.target args = .ok a.target.state) ∧
      ∀ {m : Type → Type} [Monad m] (rt : Runtime m ι β), rt.engine.Confined →
        ∀ depth args, rt.perform registry depth a args = rt.performBare registry depth a args := by
  have sound : d.invocation.Sound registry :=
    sound_of_reached frozen (Invocation.Sound.of_build captured registered) reached
  -- Every step down has kept soundness, and all three parts follow from it.
  refine ⟨fun f hf => ?_, fun e he => ?_, fun p hp a ha => ?_⟩
  · have hn : registry.next? d.invocation.method = some f := by
      rw [Registry.next?, hf]
    exact ⟨_, Invocation.build_fallbackDraft (sound.next?_fits frozen hn)⟩
  · have hkind := Resolver.shape_of_plan_eq_error frozen sound he
    constructor
    · rintro fault rfl
      simp [CallError.isObstacle] at hkind
    · rintro fault rfl
      simp [CallError.isObstacle] at hkind
  · have hsound : a.Sound registry := by
      rw [(Resolver.of_plan_eq_ok frozen sound hp).2.2.2] at ha
      exact Resolver.sound_of_mem_actionsOf frozen sound ha
    refine ⟨hsound.fits, fun args hargs => ?_, fun rt confined => ?_⟩
    · rcases hargs with rfl | hargs
      · exact hsound.fits.dispatch
      · exact (hsound.fits.replace hargs).dispatch
    · exact hsound.perform_eq frozen confined

theorem reached_actions_fit_shop :
    ∃ plan, Registry.freeze Shop.registrations = .ok Shop.registry ∧
      Shop.draft.build = .ok Shop.payment ∧
      Shop.payment.method ∈ Shop.registry.methods ∧
      Relation.ReflTransGen (Yields Shop.registry) ⟨{}, Shop.payment, default⟩ Shop.retry ∧
      Shop.retry.plan Shop.registry none = .ok plan ∧ plan.actions.toList.length = 2 ∧
      ∀ a ∈ plan.actions.toList, a.method.Fits a.target a.args ∧
        ∀ (body : String → Unit → List Value → Id Outcome) depth args,
          Runtime.perform ⟨body, Engine.failover⟩ Shop.registry depth a args =
            Runtime.performBare ⟨body, Engine.failover⟩ Shop.registry depth a args := by
  have sound := Invocation.Sound.of_build Shop.build_draft Shop.payment_mem
  have reached := Relation.ReflTransGen.single Shop.payment_yields
  have spec := reached_actions_fit Shop.freeze_eq Shop.build_draft Shop.payment_mem reached
  have cycle : Shop.retry.invocation.method.cycle? = none := by decide +kernel
  have resolved := (@Resolver.plan_eq_ok_iff _ _ ⟨Shop.registry, {}⟩ Shop.retry.invocation default
    _ _ Shop.freeze_eq (Shop.payment_yields.sound Shop.freeze_eq sound)).mpr
    ⟨_, none, rfl, Resolver.checkCycle_eq_ok_iff.mpr fun _ => cycle, rfl, by decide +kernel, rfl⟩
  refine ⟨_, Shop.freeze_eq, rfl, Shop.payment_mem, reached, resolved, by decide +kernel,
    fun a ha => ?_⟩
  obtain ⟨fits, -, bare⟩ := spec.2.2 _ resolved a ha
  exact ⟨fits, fun body => bare ⟨body, Engine.failover⟩ Engine.failover_confined⟩

end DeferredCommand

end ProtectedCall
