import ProtectedCall.Proofs.AssignedKeys
import ProtectedCall.Proofs.SubstituteArguments

/-!
# Keys of nested commands

The key of a nested command is computed three times: for the name of its deferred action, for its
plan when it is resolved, and for the walk that looks for cycles when the registry is frozen. All
three are the key that the command is registered with, because a nested call has the name of its
method as its default key.

* `DeferredCommand.Reached.name_eq_key`, `DeferredCommand.Reached.commandKey_eq_name`: the three
  keys of a command that is reached from a call.
* `Resolver.PlansAt`: the plans behind some number of deferred commands.
  `Resolver.PlansAt.chain`: such a plan is that of the command as many fallbacks away.
* `Resolver.nested_keys_agree`: the whole for every captured call. Where a cycle is recorded, the
  deferred commands are named as it says, one after another.
-/

namespace ProtectedCall

variable {ι β : Type}

section Frozen

variable {registrations : List (Registration β)} {r : Resolver β} {inv : Invocation ι β}
variable {batch : Batch}

/-! ## One command -/

namespace DeferredCommand

variable {args : List Value} {d : DeferredCommand ι β}

/-- A deferred command is resolved to the plan that describes its call, whatever arguments it was
executed with. -/
theorem describes_of_plan (frozen : Registry.freeze registrations = .ok r.registry)
    (sound : (Action.deferred d).Sound r.registry) {given : Option (List Value)} {p : Plan ι β}
    (resolved : d.plan r.registry given = .ok p) :
    ∃ args decl, d.invocation.method.command = some decl ∧
      p.Describes ⟨r.registry, d.policy⟩ { d.invocation with args } d.batch decl := by
  obtain ⟨args, hs, h⟩ := exists_args_of_plan sound resolved
  obtain ⟨decl, command, describes⟩ :=
    Resolver.describes_of_plan (r := ⟨r.registry, d.policy⟩) frozen hs h
  exact ⟨args, decl, command, describes⟩

/-- A reached command goes by the key that its method is registered with. -/
theorem Reached.name_eq_key (frozen : Registry.freeze registrations = .ok r.registry)
    (sound : inv.Sound r.registry) (settled : inv.Settled) (reached : Reached r inv batch args d) :
    ∃ f, Registration.lookup registrations d.invocation.method.signature = some f ∧
      f.key = d.name := by
  obtain ⟨inherits, hs, -⟩ := reached.inherits frozen sound settled
  exact ⟨_, Registry.lookup_of_mem frozen hs.registered,
    (DeferredCommand.name_eq_key inherits.commandKey).symm⟩

/-- It is resolved to plans with that key. -/
theorem Reached.commandKey_eq_name (frozen : Registry.freeze registrations = .ok r.registry)
    (sound : inv.Sound r.registry) (settled : inv.Settled) (reached : Reached r inv batch args d)
    {given : Option (List Value)} {p : Plan ι β} (resolved : d.plan r.registry given = .ok p) :
    p.identity.commandKey = d.name := by
  have action := reached.action_sound frozen sound settled
  obtain ⟨_, decl, command, describes⟩ := describes_of_plan frozen action resolved
  have hcommand : d.invocation.command = some decl := command
  rw [describes.commandKey, name, hcommand]
  exact (declaredOr_eq _ _).symm

end DeferredCommand

/-! ## One command after another -/

namespace Resolver

/-- The plans behind `n` deferred commands: a call is resolved, then a deferred command of its plan,
then one of that plan, and so on. Each is executed as it was captured or with other arguments. -/
inductive PlansAt (r : Resolver β) (inv : Invocation ι β) (batch : Batch) :
    Nat → Plan ι β → Prop where
  | own {p : Plan ι β} (resolved : r.plan inv batch = .ok p) : PlansAt r inv batch 0 p
  | nested {n : Nat} {p q : Plan ι β} {d : DeferredCommand ι β} {given : Option (List Value)}
      (above : PlansAt r inv batch n p) (mem : .deferred d ∈ p.actions.toList)
      (resolved : d.plan r.registry given = .ok q) : PlansAt r inv batch (n + 1) q

/-- A plan behind `n` deferred commands is that of a sound call of the command that is `n` fallbacks
away. -/
theorem PlansAt.chain (frozen : Registry.freeze registrations = .ok r.registry)
    (sound : inv.Sound r.registry) {n : Nat} {p : Plan ι β} (h : r.PlansAt inv batch n p) :
    ∃ (policy : Policy) (call : Invocation ι β) (batch : Batch), call.Sound r.registry ∧
      r.registry.chain inv.method n = some call.method ∧
      p.actions = actionsOf ⟨r.registry, policy⟩ call batch := by
  -- The policy and the batch are those of the deferred command; the chain does not depend on them.
  induction h with
  | own resolved =>
    exact ⟨r.policy, inv, batch, sound, rfl, (of_plan_eq_ok frozen sound resolved).2.2.2⟩
  | nested _ mem resolved ih =>
    obtain ⟨policy, call, batch, hcall, hchain, hactions⟩ := ih
    rw [hactions] at mem
    obtain ⟨f, hf, rfl⟩ := deferred_mem_actionsOf_iff.mp mem
    have hn := (Registry.nextCommand?_eq_some_iff.mp hf).1
    obtain ⟨next, hnext, hmethod, hactions⟩ := DeferredCommand.exists_call_of_plan frozen
      (show (Action.deferred _).Sound r.registry from ⟨hcall.ofFallback frozen hn, rfl⟩) resolved
    refine ⟨_, next, _, hnext, ?_, hactions⟩
    rw [Registry.chain, Registry.steps, ← Registry.chain, hchain, hmethod]
    exact hf

/-- As far as a recorded cycle goes, the next command has the key that is recorded for it. -/
theorem key_of_cycle? (frozen : Registry.freeze registrations = .ok r.registry) {m f : Method β}
    (hm : m ∈ r.registry.methods) {keys : List String} (recorded : m.cycle? = some keys) {n : Nat}
    (hf : r.registry.chain m n = some f) (more : n + 1 < keys.length) :
    ∃ next, r.registry.nextCommand? f = some next ∧ keys[n + 1]? = some next.key := by
  -- The recorded keys are those of the chain, so the chain goes on as long as they do.
  have spec := Registry.cycle?_spec frozen hm
  rw [recorded] at spec
  obtain ⟨last, -, hkeys⟩ := spec
  have hlen : keys.length = last + 1 := by simpa using congrArg List.length hkeys
  have hat : r.registry.keyAt m (n + 1) = some keys[n + 1] := by
    have hget := congrArg (fun all : List (Option String) => all[n + 1]?) hkeys
    rw [List.getElem?_map, List.getElem?_map, List.getElem?_range (by omega),
      List.getElem?_eq_getElem more] at hget
    exact (Option.some.inj hget).symm
  rw [Registry.keyAt, Registry.chain, Registry.steps, ← Registry.chain, hf] at hat
  obtain ⟨next, hnext, hkey⟩ := Option.map_eq_some_iff.mp hat
  exact ⟨next, hnext, by rw [List.getElem?_eq_getElem more, hkey]⟩

/-- The keys of nested commands agree. Let a deferred command be reached from a captured call, at
any depth and with any arguments substituted on the way. Then its name is the key of the
registration of its method, which is the one that the walk for cycles visits, and whatever arguments
it is executed with, it is resolved to plans with that command key. Now let a cycle be recorded for
the method of the call. Then, as far as the cycle goes, the `n`-th plan, where there is one, defers
to one command, and that command is named as the cycle says. -/
theorem nested_keys_agree {registry : Registry β} {policy : Policy}
    {draft : Invocation.Draft ι β} (frozen : Registry.freeze registrations = .ok registry)
    (captured : draft.build = .ok inv) (registered : inv.method ∈ registry.methods)
    (batch : Batch) :
    (∀ args d, DeferredCommand.Reached ⟨registry, policy⟩ inv batch args d →
      (∃ f, Registration.lookup registrations d.invocation.method.signature = some f ∧
        f.key = d.name) ∧
      ∀ given p, d.plan registry given = .ok p → p.identity.commandKey = d.name) ∧
    ∀ keys, inv.method.cycle? = some keys → ∀ n p, PlansAt ⟨registry, policy⟩ inv batch n p →
      n + 1 < keys.length →
      ∃ d, p.actions.fallback = some (.deferred d) ∧ keys[n + 1]? = some d.name ∧
        ∀ e, .deferred e ∈ p.actions.toList → e = d := by
  have sound := Invocation.Sound.of_build captured registered
  have settled := Invocation.Settled.of_build captured
  refine ⟨fun args d reached => ⟨?_, fun given p resolved => ?_⟩, fun keys recorded n p hp more => ?_⟩
  · exact reached.name_eq_key frozen sound settled
  · exact reached.commandKey_eq_name frozen sound settled resolved
  -- The `n`-th plan is that of the `n`-th command of the chain, as is the key in the cycle.
  · obtain ⟨policy, call, batch, -, hchain, hactions⟩ := hp.chain frozen sound
    obtain ⟨f, hf, hkey⟩ :=
      key_of_cycle? (r := ⟨registry, policy⟩) frozen registered recorded hchain more
    have mem : .deferred ⟨policy, call.ofFallback f, batch⟩ ∈
        (actionsOf ⟨registry, policy⟩ call batch).toList :=
      deferred_mem_actionsOf_iff.mpr ⟨f, hf, rfl⟩
    refine ⟨⟨policy, call.ofFallback f, batch⟩, ?_, ?_, fun e he => ?_⟩
    · rw [hactions, fallback_of_deferred_mem mem]
    · rw [hkey, DeferredCommand.name_eq_key rfl]
      rfl
    · rw [hactions] at he
      obtain ⟨g, hg, rfl⟩ := deferred_mem_actionsOf_iff.mp he
      obtain rfl : f = g := Option.some.inj (hf.symm.trans hg)
      rfl

end Resolver

end Frozen

/-! ## Around the circle -/

namespace Circle

/-- Cycles are not refused. -/
def unchecked : Resolver Unit := ⟨registry, { detectCycles := false }⟩

/-- A call of the first command that has another default key. -/
def renamed : Invocation Unit Unit := { call with commandKey := "till" }

theorem build_renamed : ({ draft with commandKey := "till" } : Invocation.Draft Unit Unit).build =
    .ok renamed := rfl

/-- Nothing keeps a sound call of the circle from being resolved then. -/
theorem resolved {inv : Invocation Unit Unit} (sound : inv.Sound registry) :
    ∃ p, unchecked.plan inv default = .ok p ∧ p.actions = unchecked.actionsOf inv default := by
  have clear : ∀ m ∈ registry.methods, m.isCommand ∧ unchecked.obstacle? m = none := by
    decide +kernel
  obtain ⟨hc, hobstacle⟩ := clear _ sound.registered
  exact Resolver.exists_plan freeze_circle sound hc
    (Resolver.checkCycle_eq_ok_iff.mpr fun on => absurd on Bool.false_ne_true) hobstacle

/-- The commands behind the call are named as the cycle says, though the call itself is not. -/
theorem nested_keys_agree_circle :
    Registry.freeze Registry.circle = .ok registry ∧
      ({ draft with commandKey := "till" } : Invocation.Draft Unit Unit).build = .ok renamed ∧
      renamed.method ∈ registry.methods ∧
      renamed.method.cycle? = some ["pay", "retry", "retry"] ∧
      ∃ p d q e, unchecked.PlansAt renamed default 0 p ∧ p.identity.commandKey = "till" ∧
        p.actions.fallback = some (.deferred d) ∧ d.name = "retry" ∧
        unchecked.PlansAt renamed default 1 q ∧ q.identity.commandKey = "retry" ∧
        q.actions.fallback = some (.deferred e) ∧ e.name = "retry" := by
  have registered : renamed.method ∈ registry.methods := List.mem_cons_self
  have recorded : renamed.method.cycle? = some ["pay", "retry", "retry"] := by decide +kernel
  have sound : renamed.Sound registry := .of_build build_renamed registered
  obtain ⟨agree, named⟩ := @Resolver.nested_keys_agree _ _ _ renamed registry
    { detectCycles := false } _ freeze_circle build_renamed registered default
  obtain ⟨p, hp, hactions⟩ := resolved sound
  have key : p.identity.commandKey = "till" := by
    obtain ⟨decl, ⟨⟩, describes⟩ := Resolver.describes_of_plan freeze_circle sound hp
    exact describes.commandKey
  obtain ⟨d, hd, hname, -⟩ := named _ recorded 0 p (.own hp) (by decide)
  have mem : .deferred d ∈ p.actions.toList := by simp [ActionSet.toList, hd]
  have reached : DeferredCommand.Reached unchecked renamed default _ d := .first hp mem
  have behind : ∃ q, d.plan registry none = .ok q := by
    have action := mem
    rw [hactions] at action
    obtain ⟨f, hf, rfl⟩ := Resolver.deferred_mem_actionsOf_iff.mp action
    have hnext := (Registry.nextCommand?_eq_some_iff.mp hf).1
    obtain ⟨q, hq, -⟩ := resolved (sound.ofFallback freeze_circle hnext)
    exact ⟨q, hq⟩
  obtain ⟨q, hq⟩ := behind
  have nested : unchecked.PlansAt renamed default 1 q := .nested (.own hp) mem hq
  obtain ⟨e, he, hnext, -⟩ := named _ recorded 1 q nested (by decide)
  have retry : d.name = "retry" := (Option.some.inj hname).symm
  exact ⟨freeze_circle, build_renamed, registered, recorded, p, d, q, e, .own hp, key, hd, retry,
    nested, ((agree _ d reached).2 none q hq).trans retry, he, (Option.some.inj hnext).symm⟩

end Circle

end ProtectedCall
