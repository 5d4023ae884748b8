import Mathlib.Logic.Relation
import ProtectedCall.Proofs.Cycle
import ProtectedCall.Proofs.Resolution

/-!
# Descent through deferred commands

A deferred command is resolved when it is executed, and its plan may hold another deferred command.
`DeferredCommand.Yields` is one step down, `DeferredCommand.yields_iff` says where it leads: to the
next command of the chain of fallbacks, with the same target, policy and batch.

* `DeferredCommand.Yields.sound`: a step leads from sound calls to sound calls, so every number of
  steps does (`DeferredCommand.sound_of_reached`).
* `DeferredCommand.chain_of_path`: a path of steps runs along the chain of fallbacks.
* `DeferredCommand.nested_never_cyclic`: below a call that is resolved no chain is found cyclic, and
  paths are shorter than the number of commands with the owner and the parameters of the method.
-/

namespace ProtectedCall

variable {ι β : Type}

namespace Resolver

variable {registrations : List (Registration β)} {r : Resolver β} {inv : Invocation ι β}

/-- Where no key comes back, no cycle is refused. -/
theorem checkCycle_of_fresh (frozen : Registry.freeze registrations = .ok r.registry)
    {m : Method β} (hm : m ∈ r.registry.methods) (fresh : ∀ n, ¬ r.registry.Repeats m n) :
    r.checkCycle m = .ok () :=
  checkCycle_eq_ok_iff.mpr fun _ => (Registry.cycle?_eq_none_iff frozen hm).mpr fresh

/-- Where no key comes back, the error of an obstacle is that of resolution. -/
theorem plan_eq_error_of_fresh (frozen : Registry.freeze registrations = .ok r.registry)
    (sound : inv.Sound r.registry) (fresh : ∀ n, ¬ r.registry.Repeats inv.method n) {e : CallError}
    (h : r.obstacle? inv.method = some e) (batch : Batch) : r.plan inv batch = .error e :=
  (plan_eq_error_iff frozen sound).mpr
    (.inr (.inr ⟨checkCycle_of_fresh frozen sound.registered fresh, h⟩))

/-- From a call that is resolved with cycle detection on no key comes back. -/
theorem fresh_of_plan_eq_ok (frozen : Registry.freeze registrations = .ok r.registry)
    (detecting : r.policy.detectCycles) (sound : inv.Sound r.registry) {batch : Batch}
    {p : Plan ι β} (h : r.plan inv batch = .ok p) : ∀ n, ¬ r.registry.Repeats inv.method n := by
  obtain ⟨-, hcyc, -, -⟩ := of_plan_eq_ok frozen sound h
  exact (Registry.cycle?_eq_none_iff frozen sound.registered).mp
    (checkCycle_eq_ok_iff.mp hcyc detecting)

end Resolver

namespace DeferredCommand

/-- One step down: a command is resolved, and one of the actions of its plan is deferred again. It
is executed as it was captured, or with other arguments that pass its check. -/
inductive Yields (registry : Registry β) (d : DeferredCommand ι β) :
    DeferredCommand ι β → Prop where
  | captured {p : Plan ι β} {next : DeferredCommand ι β} (resolved : d.plan registry none = .ok p)
      (mem : .deferred next ∈ p.actions.toList) : Yields registry d next
  | replaced {p : Plan ι β} {next : DeferredCommand ι β} {args : List Value}
      {inv : Invocation ι β} (resolved : d.plan registry none = .ok p)
      (mem : .deferred next ∈ p.actions.toList)
      (accepted : next.invocation.withArgs args = .ok inv) :
      Yields registry d { next with invocation := inv }

section Frozen

variable {registrations : List (Registration β)} {registry : Registry β}
variable {d e : DeferredCommand ι β}

/-- The plan of a deferred command holds another one exactly if the fallback is a command. -/
theorem deferred_mem_iff (frozen : Registry.freeze registrations = .ok registry)
    (sound : d.invocation.Sound registry) {p : Plan ι β} (resolved : d.plan registry none = .ok p) :
    .deferred e ∈ p.actions.toList ↔
      ∃ f, registry.nextCommand? d.invocation.method = some f ∧
        e = ⟨d.policy, d.invocation.ofFallback f, d.batch⟩ := by
  obtain ⟨-, -, -, hactions⟩ := Resolver.of_plan_eq_ok frozen sound resolved
  rw [hactions]
  exact Resolver.deferred_mem_actionsOf_iff

/-- Where a step leads. -/
theorem yields_iff (frozen : Registry.freeze registrations = .ok registry)
    (sound : d.invocation.Sound registry) :
    d.Yields registry e ↔ (∃ p, d.plan registry none = .ok p) ∧
      ∃ f args, registry.nextCommand? d.invocation.method = some f ∧
        f.signature.checkArgs args = .ok () ∧
        e = ⟨d.policy, { d.invocation.ofFallback f with args }, d.batch⟩ := by
  constructor
  · intro h
    cases h with
    | captured resolved mem =>
      obtain ⟨f, hf, rfl⟩ := (deferred_mem_iff frozen sound resolved).mp mem
      have hn := (Registry.nextCommand?_eq_some_iff.mp hf).1
      exact ⟨⟨_, resolved⟩, f, _, hf, (sound.next?_fits frozen hn).checkArgs, rfl⟩
    | replaced resolved mem accepted =>
      obtain ⟨f, hf, rfl⟩ := (deferred_mem_iff frozen sound resolved).mp mem
      obtain ⟨hargs, rfl⟩ := Invocation.withArgs_eq_ok_iff.mp accepted
      exact ⟨⟨_, resolved⟩, f, _, hf, hargs, rfl⟩
  · rintro ⟨⟨p, resolved⟩, f, args, hf, hargs, rfl⟩
    -- Replacing covers both kinds of steps: the captured arguments pass the check as well.
    have mem := (deferred_mem_iff frozen sound resolved).mpr ⟨f, hf, rfl⟩
    have accepted := Invocation.withArgs_eq_ok_iff.mpr
      ⟨show (d.invocation.ofFallback f).method.signature.checkArgs args = .ok () from hargs, rfl⟩
    have step := Yields.replaced resolved mem accepted
    exact step

/-- A step leads from a sound call to a sound one. -/
theorem Yields.sound (frozen : Registry.freeze registrations = .ok registry)
    (sound : d.invocation.Sound registry) (step : d.Yields registry e) :
    e.invocation.Sound registry := by
  obtain ⟨-, f, args, hf, hargs, rfl⟩ := (yields_iff frozen sound).mp step
  have hn := (Registry.nextCommand?_eq_some_iff.mp hf).1
  exact (sound.ofFallback frozen hn).replace rfl hargs

/-- Any number of steps leads from a sound call to sound ones. -/
theorem sound_of_reached (frozen : Registry.freeze registrations = .ok registry)
    (sound : d.invocation.Sound registry)
    (reached : Relation.ReflTransGen (Yields registry) d e) : e.invocation.Sound registry := by
  induction reached with
  | refl => exact sound
  | tail _ step ih => exact step.sound frozen ih

/-- A path of steps runs along the chain of fallbacks. -/
theorem chain_of_path (frozen : Registry.freeze registrations = .ok registry)
    {ds : List (DeferredCommand ι β)} (sound : d.invocation.Sound registry)
    (path : List.IsChain (Yields registry) (d :: ds)) :
    (registry.chain d.invocation.method ds.length).isSome ∧
      ∀ e ∈ ds, e.invocation.Sound registry ∧
        ∃ i, registry.chain d.invocation.method i = some e.invocation.method := by
  induction ds generalizing d with
  | nil => exact ⟨rfl, by simp⟩
  | cons next ds ih =>
    obtain ⟨step, rest⟩ := List.isChain_cons_cons.mp path
    have hsound := step.sound frozen sound
    obtain ⟨hlen, hmem⟩ := ih hsound rest
    obtain ⟨-, f, args, hf, -, rfl⟩ := (yields_iff frozen sound).mp step
    refine ⟨?_, fun e he => ?_⟩
    · rw [List.length_cons, Registry.chain_succ hf]
      exact hlen
    · rcases List.mem_cons.mp he with rfl | he
      · exact ⟨hsound, 1, Registry.chain_succ hf 0⟩
      · obtain ⟨hs, i, hi⟩ := hmem e he
        exact ⟨hs, i + 1, (Registry.chain_succ hf i).trans hi⟩

/-- Where no key comes back, resolution does not report a cycle. -/
theorem not_cyclic_of_fresh (frozen : Registry.freeze registrations = .ok registry)
    (sound : d.invocation.Sound registry)
    (fresh : ∀ n, ¬ registry.Repeats d.invocation.method n) (keys : List String) :
    d.plan registry none ≠ .error (.cyclicFallback keys) := by
  intro h
  rcases (Resolver.plan_eq_error_iff frozen sound).mp h with ⟨-, he⟩ | ⟨-, he⟩ | ⟨-, he⟩
  · cases he
  · rw [Resolver.checkCycle_of_fresh frozen sound.registered fresh] at he
    cases he
  · have := Resolver.isObstacle_of_obstacle? frozen sound.registered he
    cases this

end Frozen

end DeferredCommand

/-- The fallback of the first command of the shop, executed with another argument. -/
def Shop.retry : DeferredCommand Unit String where
  policy := {}
  invocation :=
    { payment.ofFallback (registry.methods.tail.head (List.cons_ne_nil _ _)) with
      args := [.integer 7] }
  batch := default

theorem Shop.payment_yields : DeferredCommand.Yields registry ⟨{}, payment, default⟩ retry := by
  have sound := Invocation.Sound.of_build build_draft payment_mem
  have next : registry.nextCommand? payment.method =
      some (registry.methods.tail.head (List.cons_ne_nil _ _)) := by
    decide +kernel
  exact (DeferredCommand.yields_iff freeze_eq sound).mpr
    ⟨payment_resolved, _, [.integer 7], next, rfl, rfl⟩

namespace DeferredCommand

/-- An accepted command never turns out to be cyclic later. Below a call that is resolved with cycle
detection, no deferred command is refused for a cycle, at any depth and with any arguments that pass
its check. A path down has fewer deferred commands than there are commands with the owner and the
parameters of the method. -/
theorem nested_never_cyclic {registrations : List (Registration β)} {registry : Registry β}
    {policy : Policy} {draft : Invocation.Draft ι β} {inv : Invocation ι β} {batch : Batch}
    {plan : Plan ι β} {ds : List (DeferredCommand ι β)}
    (frozen : Registry.freeze registrations = .ok registry) (detecting : policy.detectCycles)
    (captured : draft.build = .ok inv) (registered : inv.method ∈ registry.methods)
    (resolved : Resolver.plan ⟨registry, policy⟩ inv batch = .ok plan)
    (path : List.IsChain (Yields registry) (⟨policy, inv, batch⟩ :: ds)) :
    (∀ d ∈ ds, ∀ keys, d.plan registry none ≠ .error (.cyclicFallback keys)) ∧
      ds.length < (registry.peers inv.method).length := by
  have sound := Invocation.Sound.of_build captured registered
  have hcmd := (Resolver.of_plan_eq_ok frozen sound resolved).1
  have fresh := Resolver.fresh_of_plan_eq_ok frozen detecting sound resolved
  obtain ⟨hlen, hmem⟩ := chain_of_path frozen sound path
  constructor
  · intro d hds
    obtain ⟨hsound, i, hi⟩ := hmem d hds
    -- A key that comes back further down comes back from the first command on as well.
    exact not_cyclic_of_fresh frozen hsound fun n hn => fresh _ (Registry.Repeats.of_add hi hn)
  · obtain ⟨f, hf⟩ := Option.isSome_iff_exists.mp hlen
    exact Registry.lt_peers_of_chain frozen registered hcmd fresh hf

theorem nested_never_cyclic_shop :
    ∃ plan, Registry.freeze Shop.registrations = .ok Shop.registry ∧
      Shop.draft.build = .ok Shop.payment ∧
      Shop.payment.method ∈ Shop.registry.methods ∧
      Resolver.plan ⟨Shop.registry, {}⟩ Shop.payment default = .ok plan ∧
      List.IsChain (Yields Shop.registry) [⟨{}, Shop.payment, default⟩, Shop.retry] ∧
      (∀ keys, Shop.retry.plan Shop.registry none ≠ .error (.cyclicFallback keys)) ∧
      1 < (Shop.registry.peers Shop.payment.method).length := by
  obtain ⟨plan, resolved⟩ := Shop.payment_resolved
  have path := List.IsChain.cons_cons Shop.payment_yields (.singleton _)
  obtain ⟨never, short⟩ :=
    nested_never_cyclic Shop.freeze_eq rfl Shop.build_draft Shop.payment_mem resolved path
  exact ⟨plan, Shop.freeze_eq, rfl, Shop.payment_mem, resolved, path,
    fun keys => never _ List.mem_cons_self keys, short⟩

end DeferredCommand

end ProtectedCall
