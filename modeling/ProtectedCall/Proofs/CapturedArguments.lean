import ProtectedCall.Proofs.Inheritance
import ProtectedCall.Proofs.Observed

/-!
# Captured arguments

An action is executed with the arguments that it captured, or with others, which are checked first.
What was captured always passes that check, so it makes no difference whether it is passed on.

* `Resolver.PlansBelow`: the plans that can come up once a call is resolved.
* `DeferredCommand.plan_args`, `Action.Sound.perform_args`: a sound action that is executed with its
  own arguments.
* `Engine.explicit`: an engine that never leaves the arguments out. `Action.Sound.perform_explicit`:
  at no depth does a run tell the two engines apart.
* `Resolver.own_arguments_immaterial`: the whole for every action below a captured call.
-/

namespace ProtectedCall

variable {m : Type → Type} {ι β : Type}

/-! ## Plans below a call -/

/-- The plans that can come up once a call is resolved: its own plan, and the plans of the deferred
commands that are reached, each executed as it was captured or with other arguments. -/
inductive Resolver.PlansBelow (r : Resolver β) (inv : Invocation ι β) (batch : Batch) :
    Plan ι β → Prop where
  | own {p : Plan ι β} (resolved : r.plan inv batch = .ok p) : PlansBelow r inv batch p
  | nested {args : List Value} {d : DeferredCommand ι β} {given : Option (List Value)}
      {p : Plan ι β} (reached : DeferredCommand.Reached r inv batch args d)
      (resolved : d.plan r.registry given = .ok p) : PlansBelow r inv batch p

/-- Every deferred command that is reached from a call is sound. -/
theorem DeferredCommand.Reached.action_sound {registrations : List (Registration β)}
    {r : Resolver β} {inv : Invocation ι β} {batch : Batch} {args : List Value}
    {d : DeferredCommand ι β} (frozen : Registry.freeze registrations = .ok r.registry)
    (sound : inv.Sound r.registry) (settled : inv.Settled) (reached : Reached r inv batch args d) :
    (Action.deferred d).Sound r.registry := by
  obtain ⟨inherits, hs, -⟩ := reached.inherits frozen sound settled
  exact ⟨hs, inherits.cacheKeyMethod⟩

/-- All actions of the plans below a call are sound. -/
theorem Resolver.PlansBelow.sound {registrations : List (Registration β)} {r : Resolver β}
    {inv : Invocation ι β} {batch : Batch} {p : Plan ι β}
    (frozen : Registry.freeze registrations = .ok r.registry) (sound : inv.Sound r.registry)
    (settled : inv.Settled) (below : r.PlansBelow inv batch p) {a : Action ι β}
    (ha : a ∈ p.actions.toList) : a.Sound r.registry := by
  cases below with
  | own resolved =>
    rw [(of_plan_eq_ok frozen sound resolved).2.2.2] at ha
    exact sound_of_mem_actionsOf frozen sound ha
  | nested reached resolved =>
    have command := reached.action_sound frozen sound settled
    exact DeferredCommand.sound_of_plan frozen command resolved ha

/-! ## One action -/

/-- A deferred command that fits is resolved to the same with its own arguments. -/
theorem DeferredCommand.plan_args {registry : Registry β} {d : DeferredCommand ι β}
    (fits : d.invocation.method.Fits d.invocation.target d.invocation.args) :
    d.plan registry (some d.invocation.args) = d.plan registry none := by
  have own : d.invocation.withArgs d.invocation.args = .ok d.invocation :=
    Invocation.withArgs_eq_ok_iff.mpr ⟨fits.checkArgs, rfl⟩
  show (d.invocation.withArgs d.invocation.args >>= _) = _
  rw [own]
  rfl

/-- Executing a sound action with its own arguments is executing it as it was captured. -/
theorem Action.Sound.perform_args [Monad m] {registry : Registry β} {a : Action ι β}
    (sound : a.Sound registry) (rt : Runtime m ι β) (depth : Nat) :
    rt.perform registry depth a (some a.args) = rt.perform registry depth a none := by
  cases a with
  | direct call =>
    have hargs : call.method.signature.checkArgs call.args = .ok () := sound.fits.checkArgs
    simp only [Runtime.perform, DirectCall.perform, args, hargs]
  | deferred d =>
    cases depth with
    | zero => rfl
    | succ depth =>
      have hplan : d.plan registry (some d.invocation.args) = d.plan registry none :=
        DeferredCommand.plan_args sound.fits
      simp only [Runtime.perform, args, hplan]

/-! ## Whole runs -/

/-- The same engine, except that it never leaves the arguments of an action out. -/
def Engine.explicit (engine : Engine m ι β) : Engine m ι β := fun execute plan batch =>
  engine (fun a given => execute a (some (given.getD a.args))) plan batch

/-- The same runtime, with such an engine. -/
def Runtime.explicit (rt : Runtime m ι β) : Runtime m ι β := ⟨rt.body, rt.engine.explicit⟩

/-- Sound actions run the same whether or not the engine leaves captured arguments out, in this run
and in all runs below it. -/
theorem Action.Sound.perform_explicit [Monad m] {registrations : List (Registration β)}
    {registry : Registry β} (frozen : Registry.freeze registrations = .ok registry)
    {rt : Runtime m ι β} (confined : rt.engine.Confined) {a : Action ι β}
    (sound : a.Sound registry) (depth : Nat) (given : Option (List Value)) :
    rt.explicit.perform registry depth a given = rt.perform registry depth a given := by
  induction depth generalizing a given with
  | zero => cases a <;> rfl
  | succ depth ih =>
    cases a with
    | direct call => rfl
    | deferred d =>
      rw [Runtime.perform, Runtime.perform]
      cases hp : d.plan registry given with
      | error e => rfl
      | ok plan =>
        refine confined _ _ plan d.batch fun a ha => ?_
        -- A sound action that is executed without arguments is run with those that it captured.
        have hs := DeferredCommand.sound_of_plan frozen sound hp ha
        funext given
        rw [ih hs]
        cases given with
        | none => exact hs.perform_args rt depth
        | some args => rfl

/-- It makes no difference whether the arguments that an action captured are passed on. This holds
for every action of the plan of a captured call, and for every action of every plan below it: with
the arguments that it captured, the action does what it does without any, to the same outcome. So an
engine that keeps to the actions of its plans may pass them on at every depth of a run. As bodies
and the engine are arbitrary effects, the calls of bodies, the plans and the batches are the same,
one after the other. -/
theorem Resolver.own_arguments_immaterial {registrations : List (Registration β)}
    {registry : Registry β} {policy : Policy} {draft : Invocation.Draft ι β}
    {inv : Invocation ι β} (frozen : Registry.freeze registrations = .ok registry)
    (captured : draft.build = .ok inv) (registered : inv.method ∈ registry.methods)
    (batch : Batch) :
    ∀ p, PlansBelow ⟨registry, policy⟩ inv batch p → ∀ a ∈ p.actions.toList,
      ∀ {m : Type → Type} [Monad m] (rt : Runtime m ι β) (depth : Nat),
        rt.perform registry depth a (some a.args) = rt.perform registry depth a none ∧
        (rt.engine.Confined → ∀ given,
          rt.explicit.perform registry depth a given = rt.perform registry depth a given) := by
  intro p below a ha m _ rt depth
  have sound := below.sound frozen (.of_build captured registered) (.of_build captured) ha
  exact ⟨sound.perform_args rt depth, fun confined given =>
    sound.perform_explicit frozen confined depth given⟩

/-- The fallback of the fallback, behind one that was executed with another argument. -/
theorem Kiosk.own_arguments_immaterial_kiosk :
    Registry.freeze registrations = .ok registry ∧ draft.build = .ok call ∧
      call.method ∈ registry.methods ∧
      ∃ p, Resolver.PlansBelow ⟨registry, {}⟩ call default p ∧
        .deferred queue ∈ p.actions.toList ∧
        ∀ (body : Unit → Unit → List Value → StateM Nat Outcome) depth,
          (Runtime.observed body Engine.failover).perform registry depth (.deferred queue)
              (some [.integer 7]) =
            (Runtime.observed body Engine.failover).perform registry depth (.deferred queue)
              none := by
  obtain ⟨p, hp, mem⟩ := retry_resolved
  have below : Resolver.PlansBelow ⟨registry, {}⟩ call default p := .nested retry_reached hp
  refine ⟨freeze_registrations, rfl, call_mem, p, below, mem, fun body depth => ?_⟩
  exact (Resolver.own_arguments_immaterial freeze_registrations build_draft call_mem default p
    below _ mem (.observed body Engine.failover) depth).1

end ProtectedCall
