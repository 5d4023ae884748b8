import ProtectedCall.Proofs.NestedKeys

/-!
# Complete identities

An engine keeps its books by the keys of a plan, so none of them should be empty. Keys that are
declared or supplied empty give way to defaults, and these come from names: the short name of the
target's type and the name of the method.

* `Identity.Complete`: no key is empty.
* `Plan.Describes.complete_iff`: a plan is complete if the keys of its call are, or are declared.
* `DeferredCommand.Reached.name_ne_empty`: a nested command has a name, as it was looked up by it.
* `Resolver.complete_identities`: plans of nested commands are complete, and so is the plan of a
  captured call, unless the method itself has no name.
-/

namespace ProtectedCall

variable {ι β : Type}

/-- Neither the group key nor the command key is empty, nor is the key of the pool to use. -/
structure Identity.Complete (i : Identity) : Prop where
  groupKey : i.groupKey ≠ ""
  commandKey : i.commandKey ≠ ""
  poolKey : i.effectivePoolKey ≠ ""

/-- The command key stands in for the pool key, so the pool key may be left out. -/
theorem Identity.complete_iff {i : Identity} :
    i.Complete ↔ i.groupKey ≠ "" ∧ i.commandKey ≠ "" := by
  constructor
  · intro h
    exact ⟨h.groupKey, h.commandKey⟩
  · rintro ⟨group, command⟩
    exact ⟨group, command, fun h => command (declaredOr_eq_empty_iff.mp h).2⟩

theorem Invocation.keyOr_eq_empty_iff {supplied : Option String} {default : String} :
    keyOr supplied default = "" ↔ (∀ key, supplied = some key → key = "") ∧ default = "" := by
  unfold keyOr
  rw [declaredOr_eq_empty_iff]
  cases supplied <;> simp

section Frozen

variable {registrations : List (Registration β)} {r : Resolver β} {inv : Invocation ι β}
variable {batch : Batch} {p : Plan ι β}

/-- A key of a plan is missing if it is neither declared nor among the defaults of the call. -/
theorem Plan.Describes.complete_iff {decl : CommandDecl} (h : p.Describes r inv batch decl) :
    p.identity.Complete ↔
      (decl.groupKey ≠ "" ∨ inv.groupKey ≠ "") ∧ (decl.commandKey ≠ "" ∨ inv.commandKey ≠ "") := by
  rw [Identity.complete_iff, h.groupKey, h.commandKey, ← declaredOr_eq, ← declaredOr_eq, Ne, Ne,
    declaredOr_eq_empty_iff, declaredOr_eq_empty_iff, not_and_or, not_and_or]

/-! ## Names of nested commands -/

/-- What a sound call defers to is a fallback that is declared by its name. -/
theorem Resolver.name_of_deferred_mem (frozen : Registry.freeze registrations = .ok r.registry)
    (sound : inv.Sound r.registry) {d : DeferredCommand ι β}
    (mem : .deferred d ∈ (r.actionsOf inv batch).toList) : d.invocation.method.name ≠ "" := by
  obtain ⟨f, hf, rfl⟩ := deferred_mem_actionsOf_iff.mp mem
  obtain ⟨hname, named⟩ := Registry.name_of_next? frozen sound.registered
    (Registry.nextCommand?_eq_some_iff.mp hf).1
  exact hname ▸ named

namespace DeferredCommand

variable {args : List Value} {d : DeferredCommand ι β}

/-- Every deferred command that is reached from a call has a name. -/
theorem Reached.name_ne_empty (frozen : Registry.freeze registrations = .ok r.registry)
    (sound : inv.Sound r.registry) (settled : inv.Settled) (reached : Reached r inv batch args d) :
    d.invocation.method.name ≠ "" := by
  -- Only the last step counts: every sound call looks its fallback up by name.
  have behind {args : List Value} {d next : DeferredCommand ι β} {given : Option (List Value)}
      {p : Plan ι β} (reached : Reached r inv batch args d)
      (resolved : d.plan r.registry given = .ok p) (mem : .deferred next ∈ p.actions.toList) :
      next.invocation.method.name ≠ "" := by
    obtain ⟨call, hcall, -, hactions⟩ :=
      exists_call_of_plan frozen (reached.action_sound frozen sound settled) resolved
    rw [hactions] at mem
    exact Resolver.name_of_deferred_mem (r := ⟨r.registry, d.policy⟩) frozen hcall mem
  cases reached with
  | first resolved mem =>
    rw [(Resolver.of_plan_eq_ok frozen sound resolved).2.2.2] at mem
    exact Resolver.name_of_deferred_mem frozen sound mem
  | captured reached resolved mem => exact behind reached resolved mem
  | substituted reached resolved mem => exact behind reached resolved mem

/-- A reached command is resolved to complete plans if the call that it is reached from has a default
group key. -/
theorem Reached.complete (frozen : Registry.freeze registrations = .ok r.registry)
    (sound : inv.Sound r.registry) (settled : inv.Settled) (reached : Reached r inv batch args d)
    (group : inv.groupKey ≠ "") {given : Option (List Value)}
    (resolved : d.plan r.registry given = .ok p) : p.identity.Complete := by
  have action := reached.action_sound frozen sound settled
  obtain ⟨inherits, -, -⟩ := reached.inherits frozen sound settled
  obtain ⟨_, decl, -, describes⟩ := describes_of_plan frozen action resolved
  refine describes.complete_iff.mpr ⟨.inr ?_, .inr ?_⟩
  · exact inherits.groupKey ▸ group
  · exact inherits.commandKey ▸ reached.name_ne_empty frozen sound settled

end DeferredCommand

namespace Resolver

/-- Which plans have complete identities. The plan of a captured call, on a type that has a short
name, always has a group key. It has a command key, and with it a key of the pool to use, exactly if
the method has a name or a key is declared or supplied for it. Every deferred command that is reached
from the call, at any depth and with any arguments substituted on the way, is resolved to plans none
of whose keys is empty. -/
theorem complete_identities {registry : Registry β} {policy : Policy}
    {draft : Invocation.Draft ι β} (frozen : Registry.freeze registrations = .ok registry)
    (captured : draft.build = .ok inv) (registered : inv.method ∈ registry.methods)
    (named : inv.target.shortTypeName ≠ "") (batch : Batch) :
    (∀ p, Resolver.plan ⟨registry, policy⟩ inv batch = .ok p →
      p.identity.groupKey ≠ "" ∧
      (p.identity.Complete ↔ inv.method.name ≠ "" ∨
        (∃ decl, inv.method.command = some decl ∧ decl.commandKey ≠ "") ∨
        ∃ key, draft.commandKey = some key ∧ key ≠ "")) ∧
    ∀ args d, DeferredCommand.Reached ⟨registry, policy⟩ inv batch args d →
      ∀ given p, d.plan registry given = .ok p → p.identity.Complete := by
  have sound := Invocation.Sound.of_build captured registered
  have settled := Invocation.Settled.of_build captured
  have group : inv.groupKey ≠ "" := by
    obtain ⟨target, method, -, -, -, -, rfl⟩ := Invocation.Draft.build_eq_ok_iff.mp captured
    exact fun h => named (Invocation.keyOr_eq_empty_iff.mp h).2
  have command : inv.commandKey ≠ "" ↔
      inv.method.name ≠ "" ∨ ∃ key, draft.commandKey = some key ∧ key ≠ "" := by
    obtain ⟨target, method, -, -, -, -, rfl⟩ := Invocation.Draft.build_eq_ok_iff.mp captured
    rw [Ne, Invocation.keyOr_eq_empty_iff]
    simp only [not_and_or, not_forall, exists_prop]
    exact or_comm
  refine ⟨fun p hp => ?_, fun args d reached given p resolved => ?_⟩
  -- The group key is there in any case, so the command key alone decides on the others.
  · obtain ⟨decl, hd, describes⟩ := describes_of_plan (r := ⟨registry, policy⟩) frozen sound hp
    refine ⟨?_, ?_⟩
    · rw [describes.groupKey]
      split
      · exact group
      · assumption
    · rw [describes.complete_iff, command]
      simp only [group, ne_eq, not_false_eq_true, or_true, true_and, hd, Option.some.injEq,
        exists_eq_left']
      exact or_left_comm
  · exact reached.complete frozen sound settled group resolved

end Resolver

end Frozen

/-! ## A command without a name -/

namespace Kiosk

/-- The fallback of the nameless command, executed with another argument. -/
theorem complete_identities_kiosk :
    Registry.freeze registrations = .ok registry ∧ draft.build = .ok call ∧
      call.method ∈ registry.methods ∧ call.target.shortTypeName ≠ "" ∧
      DeferredCommand.Reached ⟨registry, {}⟩ call default call.args retry ∧
      ∃ p, retry.plan registry (some [.integer 7]) = .ok p ∧ p.identity.Complete := by
  have named : call.target.shortTypeName ≠ "" := by decide +kernel
  obtain ⟨p, hp, -⟩ := retry_resolved
  refine ⟨freeze_registrations, build_draft, call_mem, named, retry_reached, p, hp, ?_⟩
  exact (Resolver.complete_identities freeze_registrations build_draft call_mem named default).2 _ _
    retry_reached _ p hp

/-- The nameless command itself is resolved to a plan without a command key, and without a key of
the pool to use. -/
theorem nameless_incomplete :
    Registry.freeze registrations = .ok registry ∧ draft.build = .ok call ∧
      call.method ∈ registry.methods ∧ call.target.shortTypeName ≠ "" ∧
      ∃ p, Resolver.plan ⟨registry, {}⟩ call default = .ok p ∧ p.identity.commandKey = "" ∧
        p.identity.effectivePoolKey = "" ∧ ¬ p.identity.Complete := by
  obtain ⟨p, hp, -⟩ := resolved call_sound
  obtain ⟨decl, ⟨⟩, describes⟩ := Resolver.describes_of_plan freeze_registrations call_sound hp
  have command : p.identity.commandKey = "" := describes.commandKey
  have pool : p.identity.effectivePoolKey = "" := describes.effectivePoolKey.trans command
  exact ⟨freeze_registrations, build_draft, call_mem, by decide +kernel, p, hp, command, pool,
    fun h => h.commandKey command⟩

end Kiosk

end ProtectedCall
