import ProtectedCall.Proofs.Dispatch
import ProtectedCall.Proofs.Replacement

/-!
# What fallbacks inherit

An engine may execute the actions of the plans that it is handed, as often as it likes and with
arguments of its own. Whatever it does, the deferred commands that it comes across belong to one
call and one batch.

* `DeferredCommand.Reached`: the deferred commands that can be reached from a call, each with the
  arguments that were substituted last on the way there.
* `DeferredCommand.Inherits`: what a deferred command has from the call, what from its own method.
* `DeferredCommand.Inherits.first`, `DeferredCommand.Inherits.next`: the first deferred command
  inherits from the call, and a later one if the one before does.
* `DeferredCommand.perform_eq_of_agree`: an engine is handed no plans but those of reached commands.
* `DeferredCommand.reached_inherits`: the whole for every captured call.
-/

namespace ProtectedCall

variable {ι β : Type}

namespace DeferredCommand

/-- The deferred commands that can be reached from a call, each with the arguments that were
substituted last on the way there, or else with those of the call. -/
inductive Reached (r : Resolver β) (inv : Invocation ι β) (batch : Batch) :
    List Value → DeferredCommand ι β → Prop where
  | first {p : Plan ι β} {d : DeferredCommand ι β} (resolved : r.plan inv batch = .ok p)
      (mem : .deferred d ∈ p.actions.toList) : Reached r inv batch inv.args d
  | captured {args : List Value} {d next : DeferredCommand ι β} {p : Plan ι β}
      (reached : Reached r inv batch args d) (resolved : d.plan r.registry none = .ok p)
      (mem : .deferred next ∈ p.actions.toList) : Reached r inv batch args next
  | substituted {args others : List Value} {d next : DeferredCommand ι β} {p : Plan ι β}
      (reached : Reached r inv batch args d) (resolved : d.plan r.registry (some others) = .ok p)
      (mem : .deferred next ∈ p.actions.toList) : Reached r inv batch others next

/-- What a deferred command has from a call, given the arguments that were substituted last: target,
default group key, collapser and batch, and the default collapser key unless that is empty. Its
default command key, its declaration and its mode are those of its own method. -/
structure Inherits (registrations : List (Registration β)) (inv : Invocation ι β) (batch : Batch)
    (args : List Value) (d : DeferredCommand ι β) : Prop where
  target : d.invocation.target = inv.target
  groupKey : d.invocation.groupKey = inv.groupKey
  collapserKey : d.invocation.collapserKey =
    if inv.collapserKey = "" then inv.method.fallbackName else inv.collapserKey
  collapser : d.invocation.collapser = inv.collapser
  cacheKeyMethod : d.invocation.cacheKeyMethod = none
  commandKey : d.invocation.commandKey = d.invocation.method.name
  declared : ∃ f, Registration.lookup registrations d.invocation.method.signature = some f ∧
    d.invocation.command = f.command ∧ d.invocation.mode = .ofShape f.returns
  args : d.invocation.args = args
  batch : d.batch = batch

section Frozen

variable {registrations : List (Registration β)} {registry : Registry β} {r : Resolver β}
variable {inv : Invocation ι β} {batch : Batch} {args others : List Value}
variable {d e : DeferredCommand ι β} {f : Method β}

/-- The declaration and the mode of a fallback's call are those that the fallback is registered
with. -/
theorem declared_ofFallback (frozen : Registry.freeze registrations = .ok registry)
    (hf : f ∈ registry.methods) :
    ∃ g, Registration.lookup registrations f.signature = some g ∧
      (inv.ofFallback f).command = g.command ∧ (inv.ofFallback f).mode = .ofShape g.returns :=
  ⟨f.toRegistration, Registry.lookup_of_mem frozen hf, rfl, rfl⟩

/-- The fallback of a call inherits from the call. -/
theorem Inherits.first (frozen : Registry.freeze registrations = .ok registry)
    (settled : inv.Settled) (hm : inv.method ∈ registry.methods)
    (next : registry.nextCommand? inv.method = some f) (policy : Policy) :
    Inherits registrations inv batch inv.args ⟨policy, inv.ofFallback f, batch⟩ := by
  have hnext := (Registry.nextCommand?_eq_some_iff.mp next).1
  have hf := (Registry.next?_shape frozen hm hnext).1
  have hname := (Registry.name_of_next? frozen hm hnext).1
  constructor
  case groupKey => exact settled.groupKey
  case collapserKey =>
    show declaredOr inv.collapserKey f.name = _
    rw [declaredOr_eq, hname]
  case declared => exact declared_ofFallback frozen hf
  all_goals rfl

/-- The fallback of a command that inherits from a call inherits from it as well. -/
theorem Inherits.next (frozen : Registry.freeze registrations = .ok registry)
    (settled : inv.Settled) (named : inv.method.fallbackName ≠ "")
    (h : Inherits registrations inv batch args d) (hm : d.invocation.method ∈ registry.methods)
    (next : registry.nextCommand? d.invocation.method = some f) (policy : Policy) :
    Inherits registrations inv batch others
      ⟨policy, ({ d.invocation with args := others } : Invocation ι β).ofFallback f, d.batch⟩ := by
  have hf := (Registry.next?_shape frozen hm (Registry.nextCommand?_eq_some_iff.mp next).1).1
  constructor
  case target => exact h.target
  case groupKey =>
    show declaredOr d.invocation.groupKey d.invocation.target.shortTypeName = inv.groupKey
    rw [h.groupKey, h.target, settled.groupKey]
  case collapserKey =>
    show declaredOr d.invocation.collapserKey f.name = _
    -- The key of the command before is not empty, so the name of `f` does not count.
    rw [h.collapserKey, declaredOr_eq]
    split <;> simp_all
  case collapser => exact h.collapser
  case declared => exact declared_ofFallback frozen hf
  case batch => exact h.batch
  all_goals rfl

/-- What a command that inherits from a call is resolved to with other arguments defers to commands
that inherit from it as well. -/
theorem Inherits.of_mem (frozen : Registry.freeze registrations = .ok r.registry)
    (settled : inv.Settled) (named : inv.method.fallbackName ≠ "")
    (h : Inherits registrations inv batch args d)
    (sound : ({ d.invocation with args := others } : Invocation ι β).Sound r.registry)
    {p : Plan ι β}
    (resolved : DeferredCommand.plan r.registry
      ⟨d.policy, { d.invocation with args := others }, d.batch⟩ none = .ok p)
    (mem : .deferred e ∈ p.actions.toList) :
    Inherits registrations inv batch others e ∧ e.invocation.Sound r.registry := by
  obtain ⟨f, hf, rfl⟩ := (deferred_mem_iff frozen sound resolved).mp mem
  have hn := (Registry.nextCommand?_eq_some_iff.mp hf).1
  exact ⟨h.next frozen settled named sound.registered hf _, sound.ofFallback frozen hn⟩

/-- Every deferred command that is reached inherits from the call, and its own call is sound. -/
theorem Reached.inherits (frozen : Registry.freeze registrations = .ok r.registry)
    (sound : inv.Sound r.registry) (settled : inv.Settled) (reached : Reached r inv batch args d) :
    Inherits registrations inv batch args d ∧ d.invocation.Sound r.registry ∧
      inv.method.fallbackName ≠ "" := by
  -- The name of the declared fallback is carried along for the default collapser key.
  induction reached with
  | @first p d resolved mem =>
    have resolved : DeferredCommand.plan r.registry ⟨r.policy, inv, batch⟩ none = .ok p := resolved
    obtain ⟨f, hf, rfl⟩ := (deferred_mem_iff frozen sound resolved).mp mem
    have hn := (Registry.nextCommand?_eq_some_iff.mp hf).1
    exact ⟨.first frozen settled sound.registered hf _, sound.ofFallback frozen hn,
      (Registry.name_of_next? frozen sound.registered hn).2⟩
  | captured _ resolved mem ih =>
    obtain ⟨h, hs, named⟩ := ih
    have hargs := h.args
    subst hargs
    have hnext := h.of_mem frozen settled named hs resolved mem
    exact ⟨hnext.1, hnext.2, named⟩
  | @substituted args others d next p _ resolved mem ih =>
    obtain ⟨h, hs, named⟩ := ih
    obtain ⟨inv', hinv, resolved⟩ := bind_eq_ok_iff.mp resolved
    obtain ⟨hargs, rfl⟩ := Invocation.withArgs_eq_ok_iff.mp hinv
    have hs' := hs.replace h.cacheKeyMethod hargs
    have hnext := h.of_mem frozen settled named hs' resolved mem
    exact ⟨hnext.1, hnext.2, named⟩

end Frozen

/-! ## Runs -/

/-- Executing a reached command hands the engine no batch but the given one, and no plan but those
whose deferred commands are reached: what the engine does with others does not matter. -/
theorem perform_eq_of_agree {m : Type → Type} [Monad m] {r : Resolver β} {inv : Invocation ι β}
    {batch : Batch} {body : β → ι → List Value → m Outcome} {engine₁ engine₂ : Engine m ι β}
    (confined : engine₁.Confined)
    (same : ∀ args d, Reached r inv batch args d → d.batch = batch)
    (agree : ∀ execute p,
      (∀ d, .deferred d ∈ p.actions.toList → ∃ args, Reached r inv batch args d) →
      engine₁ execute p batch = engine₂ execute p batch)
    {args : List Value} {d : DeferredCommand ι β} (reached : Reached r inv batch args d)
    (depth : Nat) (given : Option (List Value)) :
    Runtime.perform ⟨body, engine₁⟩ r.registry depth (.deferred d) given =
      Runtime.perform ⟨body, engine₂⟩ r.registry depth (.deferred d) given := by
  induction depth generalizing args d given with
  | zero => rfl
  | succ depth ih =>
    rw [Runtime.perform, Runtime.perform, same args d reached]
    cases hp : d.plan r.registry given with
    | error e => rfl
    | ok p =>
      have hreached {next : DeferredCommand ι β} (mem : .deferred next ∈ p.actions.toList) :
          ∃ args, Reached r inv batch args next := by
        cases given with
        | none => exact ⟨_, .captured reached hp mem⟩
        | some others => exact ⟨_, .substituted reached hp mem⟩
      -- By induction, both engines run what is below alike, and that is all that they see of it.
      have hactions : ∀ a ∈ p.actions.toList,
          Runtime.perform ⟨body, engine₁⟩ r.registry depth a =
            Runtime.perform ⟨body, engine₂⟩ r.registry depth a := by
        intro a ha
        funext given
        cases a with
        | direct call => cases depth <;> rfl
        | deferred next =>
          obtain ⟨args, hnext⟩ := hreached ha
          exact ih hnext given
      show engine₁ _ p batch = engine₂ _ p batch
      rw [confined _ _ p batch hactions]
      exact agree _ p fun next mem => hreached mem

/-- What is inherited along a chain of fallbacks. Every deferred command that is reached from a
captured call, at any depth and with any arguments substituted on the way, has its target, its
default group key, its collapser and its batch from the call. So it has its default collapser key,
unless that of the call is empty; then it is the name of the fallback that the call's method
declares. It has no cache-key method; its default command key, its declaration and its mode are
those of its own method, and its arguments are those that were substituted last. An engine that
keeps to the actions of its plans is handed plans of such commands only, and all of them with that
batch. -/
theorem reached_inherits {registrations : List (Registration β)} {registry : Registry β}
    {policy : Policy} {draft : Invocation.Draft ι β} {inv : Invocation ι β}
    (frozen : Registry.freeze registrations = .ok registry) (captured : draft.build = .ok inv)
    (registered : inv.method ∈ registry.methods) (batch : Batch) :
    (∀ args d, Reached ⟨registry, policy⟩ inv batch args d →
      Inherits registrations inv batch args d) ∧
    ∀ {m : Type → Type} [Monad m] (body : β → ι → List Value → m Outcome)
      (engine₁ engine₂ : Engine m ι β), engine₁.Confined →
      (∀ execute p, (∀ d, .deferred d ∈ p.actions.toList →
          ∃ args, Reached ⟨registry, policy⟩ inv batch args d) →
        engine₁ execute p batch = engine₂ execute p batch) →
      ∀ args d, Reached ⟨registry, policy⟩ inv batch args d → ∀ depth given,
        Runtime.perform ⟨body, engine₁⟩ registry depth (.deferred d) given =
          Runtime.perform ⟨body, engine₂⟩ registry depth (.deferred d) given := by
  have sound := Invocation.Sound.of_build captured registered
  have settled := Invocation.Settled.of_build captured
  have inherits (args : List Value) (d : DeferredCommand ι β)
      (h : Reached ⟨registry, policy⟩ inv batch args d) :
      Inherits registrations inv batch args d := (h.inherits frozen sound settled).1
  refine ⟨inherits, fun body engine₁ engine₂ confined agree args d reached => ?_⟩
  exact perform_eq_of_agree confined (fun args d h => (inherits args d h).batch) agree reached

end DeferredCommand

/-! ## A kiosk -/

namespace Kiosk

open DeferredCommand

/-- A command with an empty name, and two more commands, each the fallback of the one before. -/
def registrations : List (Registration Unit) :=
  [("", "retry"), ("retry", "queue"), ("queue", "")].map fun (name, fallbackName) =>
    { signature := ⟨"Kiosk", name, [.integer]⟩, command := some { fallbackName }, body := () }

/-- The registry of the kiosk. -/
def registry : Registry Unit := .linked registrations

theorem freeze_registrations : Registry.freeze registrations = .ok registry :=
  Registry.freeze_of_nodup (by decide)

/-- A method of the kiosk. -/
def method (i : Fin 3) : Method Unit := registry.methods.get i

/-- A call of the first command. -/
def call : Invocation Unit Unit where
  target := ⟨"Kiosk", 0, ()⟩
  method := method 0
  args := [.integer 5]
  collapser := none
  groupKey := "Kiosk"
  commandKey := ""
  collapserKey := ""
  cacheKeyMethod := none
  mode := .synchronous

/-- What is supplied for that call. -/
def draft : Invocation.Draft Unit Unit :=
  { target := call.target, method := call.method, args := call.args, groupKey := "Kiosk" }

/-- Its fallback as it is captured. -/
def retry : DeferredCommand Unit Unit := ⟨{}, call.ofFallback (method 1), default⟩

/-- The fallback of the fallback, behind one that was executed with another argument. -/
def queue : DeferredCommand Unit Unit :=
  ⟨{},
    ({ retry.invocation with args := [.integer 7] } : Invocation Unit Unit).ofFallback (method 2),
    default⟩

theorem build_draft : draft.build = .ok call := rfl

theorem call_mem : call.method ∈ registry.methods := List.mem_cons_self

/-- Nothing keeps a sound call of the kiosk from being resolved. -/
theorem resolved {inv : Invocation Unit Unit} (sound : inv.Sound registry) :
    ∃ p, Resolver.plan ⟨registry, {}⟩ inv default = .ok p ∧
      p.actions = Resolver.actionsOf ⟨registry, {}⟩ inv default := by
  have clear : ∀ m ∈ registry.methods, m.isCommand ∧ m.cycle? = none ∧
      Resolver.obstacle? ⟨registry, {}⟩ m = none := by
    decide +kernel
  obtain ⟨hc, hcycle, hobstacle⟩ := clear _ sound.registered
  exact Resolver.exists_plan freeze_registrations sound hc
    (Resolver.checkCycle_eq_ok_iff.mpr fun _ => hcycle) hobstacle

theorem next_command (i : Fin 2) :
    registry.nextCommand? (method i.castSucc) = some (method i.succ) := by
  revert i
  decide +kernel

theorem call_sound : call.Sound registry := .of_build build_draft call_mem

theorem retry_reached : Reached ⟨registry, {}⟩ call default call.args retry := by
  obtain ⟨p, hp, hactions⟩ := resolved call_sound
  refine .first hp ?_
  rw [hactions]
  exact Resolver.deferred_mem_actionsOf_iff.mpr ⟨_, next_command 0, rfl⟩

/-- Executed with another argument, the fallback defers to its own fallback with that argument. -/
theorem retry_resolved :
    ∃ p, retry.plan registry (some [.integer 7]) = .ok p ∧ .deferred queue ∈ p.actions.toList := by
  have hnext := (Registry.nextCommand?_eq_some_iff.mp (next_command 0)).1
  have sound := (call_sound.ofFallback freeze_registrations hnext).replace rfl
    (show (method 1).signature.checkArgs [.integer 7] = .ok () from rfl)
  obtain ⟨p, hp, hactions⟩ := resolved sound
  refine ⟨p, hp, ?_⟩
  rw [hactions]
  exact Resolver.deferred_mem_actionsOf_iff.mpr ⟨_, next_command 1, rfl⟩

theorem queue_reached : Reached ⟨registry, {}⟩ call default [.integer 7] queue := by
  obtain ⟨p, hp, mem⟩ := retry_resolved
  exact .substituted retry_reached hp mem

theorem reached_inherits_kiosk :
    Registry.freeze registrations = .ok registry ∧ draft.build = .ok call ∧
      call.method ∈ registry.methods ∧
      Reached ⟨registry, {}⟩ call default [.integer 7] queue ∧
      Inherits registrations call default [.integer 7] queue :=
  ⟨freeze_registrations, rfl, call_mem, queue_reached,
    (reached_inherits freeze_registrations build_draft call_mem default).1 _ _ queue_reached⟩

/-- The default collapser key is lost where it is the empty name of the call's method: the fallback
takes the empty key for one that was not supplied. -/
theorem collapserKey_not_inherited :
    Registry.freeze registrations = .ok registry ∧ draft.build = .ok call ∧
      call.method ∈ registry.methods ∧
      Reached ⟨registry, {}⟩ call default call.args retry ∧
      retry.invocation.collapserKey = "retry" ∧ call.collapserKey = "" :=
  ⟨freeze_registrations, rfl, call_mem, retry_reached, by decide, rfl⟩

end Kiosk

end ProtectedCall
