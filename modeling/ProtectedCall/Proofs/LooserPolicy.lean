import ProtectedCall.Proofs.Cycle
import ProtectedCall.Proofs.Drafts
import ProtectedCall.Proofs.Precedence

/-!
# Looser policies

Either option of a policy refuses calls that resolution could go on with. A policy that does not
refuse them changes nothing else: every plan stays, and so does every other error.

* `Plan.withPolicy`: a plan, with other policies in the commands that it defers.
* `Lifts`: a computation that gives what a stricter one gives, and may go on where that is refused.
  It is kept by what comes before and after (`Lifts.bind`, `Lifts.map`).
* `Resolver.plan_eq_bind`: resolution as a sequence of steps, of which one knows each option.
* `Resolver.plan_ignoring`, `Resolver.plan_undetecting`: the looser rules for missing fallbacks and
  for cycles.
* `Resolver.options_conservative`: the whole, with what becomes of the calls that are not refused
  any more.
-/

namespace ProtectedCall

variable {ι β : Type}

/-! ## Lifted refusals -/

/-- The error is that of a missing fallback. -/
def CallError.isMissingFallback : CallError → Bool
  | .noSuchFallback _ _ _ _ => true
  | _ => false

/-- The error is that of a cycle. -/
def CallError.isCycle : CallError → Bool
  | .cyclicFallback _ => true
  | _ => false

/-- A computation gives what a stricter one gives, up to `f`, and fails as that one fails, unless
the error is one that is no longer `refused`. -/
structure Lifts {α γ : Type} (f : α → γ) (refused : CallError → Bool) (strict : Except CallError α)
    (loose : Except CallError γ) : Prop where
  ok : ∀ a, strict = .ok a → loose = .ok (f a)
  error : ∀ e, strict = .error e → refused e = false → loose = .error e

namespace Lifts

variable {α γ δ : Type} {f : α → γ} {refused : CallError → Bool}

/-- Nothing has to be lifted where both differ by `f` alone. -/
theorem of_map (f : α → γ) (refused : CallError → Bool) (x : Except CallError α) :
    Lifts f refused x (x.map f) where
  ok a h := by rw [h, Except.map]
  error e h _ := by rw [h, Except.map]

/-- Both may go on from the same computation. -/
theorem bind (x : Except CallError δ) {k : δ → Except CallError α} {k' : δ → Except CallError γ}
    (h : ∀ d, Lifts f refused (k d) (k' d)) : Lifts f refused (x >>= k) (x >>= k') := by
  cases x with
  | error e => exact ⟨fun a ha => (nomatch ha), fun e' he _ => by cases he; rfl⟩
  | ok d => exact h d

/-- Both may go on with what they give. -/
theorem map {α' γ' : Type} {x : Except CallError α} {y : Except CallError γ} {g : α → α'}
    {g' : γ → γ'} {f' : α' → γ'} (h : Lifts f refused x y) (comm : ∀ a, g' (f a) = f' (g a)) :
    Lifts f' refused (x.map g) (y.map g') where
  ok a ha := by
    cases x with
    | error e => cases ha
    | ok a' =>
      cases ha
      rw [h.ok a' rfl, Except.map, comm]
  error e he hr := by
    cases x with
    | error e' =>
      cases he
      rw [h.error e rfl hr, Except.map]
    | ok a => cases he

/-- Only the stricter one makes a check. -/
theorem of_check {check : Except CallError Unit} {k : Except CallError α} {k' : Except CallError γ}
    (hcheck : ∀ e, check = .error e → refused e) (h : Lifts f refused k k') :
    Lifts f refused (check >>= fun _ => k) k' := by
  cases check with
  | ok u => exact h
  | error e =>
    refine ⟨fun a ha => (nomatch ha), fun e' he hr => ?_⟩
    cases he
    rw [hcheck e rfl] at hr
    cases hr

end Lifts

/-! ## Policies inside plans -/

/-- The same action, which goes by another policy if it is deferred. -/
def Action.withPolicy (policy : Policy) : Action ι β → Action ι β
  | .direct call => .direct call
  | .deferred d => .deferred { d with policy }

/-- The same plan, where deferred commands go by another policy. -/
def Plan.withPolicy (p : Plan ι β) (policy : Policy) : Plan ι β :=
  { p with
    actions := {
      command := p.actions.command.withPolicy policy
      fallback := p.actions.fallback.map (.withPolicy policy)
      cacheKey := p.actions.cacheKey.map (.withPolicy policy) } }

/-- The plan of a call, given the overlay of its pool and its fallback. -/
def Invocation.planWith (inv : Invocation ι β) (decl : CommandDecl) (pool : Option PoolOverlay)
    (fallback : Option (Action ι β)) : Plan ι β where
  identity := {
    groupKey := declaredOr decl.groupKey inv.groupKey
    commandKey := declaredOr decl.commandKey inv.commandKey
    poolKey := decl.poolKey
    pool }
  actions := {
    command := .direct ⟨inv.target, inv.method, inv.args⟩
    fallback
    cacheKey := inv.cacheKeyMethod.map fun m => .direct ⟨inv.target, m, inv.args⟩ }
  options := .ofSettings decl.options
  ignoredErrors := decl.ignoredErrors
  mode := inv.mode

theorem Invocation.planWith_withPolicy (inv : Invocation ι β) (decl : CommandDecl)
    (pool : Option PoolOverlay) (fallback : Option (Action ι β)) (policy : Policy) :
    inv.planWith decl pool (fallback.map (.withPolicy policy)) =
      (inv.planWith decl pool fallback).withPolicy policy := by
  cases hc : inv.cacheKeyMethod <;> simp [planWith, Plan.withPolicy, Action.withPolicy, hc]

namespace Resolver

/-! ## Steps of resolution -/

section Steps

variable {r : Resolver β} {inv : Invocation ι β} {batch : Batch} {e : CallError}

/-- Resolution step by step: the declaration, the cycle, the pool settings and the fallback. -/
theorem plan_eq_bind (r : Resolver β) (inv : Invocation ι β) (batch : Batch) :
    r.plan inv batch =
      match inv.command with
      | none => .error (.missingDeclaration inv.method.signature)
      | some decl =>
        r.checkCycle inv.method >>= fun _ =>
          PoolOverlay.ofSettings? decl.poolSettings >>= fun pool =>
            (r.fallbackAction inv batch).map (inv.planWith decl pool) := by
  unfold plan actions
  cases inv.command with
  | none => rfl
  | some decl =>
    simp only [bind_assoc]
    rfl

/-- Which step an error comes from. -/
theorem step_of_plan_eq_error (h : r.plan inv batch = .error e) :
    e = .missingDeclaration inv.method.signature ∨ r.checkCycle inv.method = .error e ∨
      inv.method.poolFault? = some e ∨
      ∃ decl pool, inv.command = some decl ∧ r.checkCycle inv.method = .ok () ∧
        PoolOverlay.ofSettings? decl.poolSettings = .ok pool ∧
        r.fallbackAction inv batch = .error e := by
  have hd : inv.command = inv.method.command := rfl
  rw [plan_eq_bind] at h
  cases hc : inv.command with
  | none =>
    rw [hc] at h
    exact .inl (Except.error.inj h).symm
  | some decl =>
    rw [hc] at h
    cases hcyc : r.checkCycle inv.method with
    | error e' =>
      rw [hcyc] at h
      cases h
      exact .inr (.inl rfl)
    | ok u =>
      cases hp : PoolOverlay.ofSettings? decl.poolSettings with
      | error e' =>
        simp only [hcyc, hp, bind, Except.bind] at h
        cases h
        refine .inr (.inr (.inl ?_))
        rw [Method.poolFault?, ← hd, hc]
        exact PoolOverlay.ofSettings?_eq_error_iff.mp hp
      | ok pool =>
        simp only [hcyc, hp, bind, Except.bind] at h
        cases hf : r.fallbackAction inv batch with
        | error e' =>
          rw [hf] at h
          cases h
          exact .inr (.inr (.inr ⟨decl, pool, rfl, rfl, hp, rfl⟩))
        | ok fallback =>
          rw [hf] at h
          cases h

end Steps

/-! ## The fallback by another policy -/

section Fallback

variable {registry : Registry β} {p q : Policy} {inv : Invocation ι β} {batch : Batch}

theorem actionOfFallback_withPolicy (f : Method β) :
    actionOfFallback ⟨registry, q⟩ inv batch f =
      (actionOfFallback ⟨registry, p⟩ inv batch f).map (.withPolicy q) := by
  unfold actionOfFallback
  split
  · cases (inv.fallbackDraft f).build <;> rfl
  · rfl

/-- The fallback depends on the rule for missing ones alone. -/
theorem fallbackAction_withPolicy (h : q.missingFallback = p.missingFallback) :
    fallbackAction ⟨registry, q⟩ inv batch =
      (fallbackAction ⟨registry, p⟩ inv batch).map (Option.map (.withPolicy q)) := by
  unfold fallbackAction
  rw [h]
  cases registry.fallback inv.method with
  | ok fallback =>
    cases fallback with
    | none => rfl
    | some f =>
      simp only [actionOfFallback_withPolicy (p := p) (q := q) f]
      cases actionOfFallback ⟨registry, p⟩ inv batch f <;> rfl
  | error e =>
    cases e with
    | noSuchFallback owner name params available => cases p.missingFallback <;> rfl
    | _ => rfl

/-- The fallback where missing ones are ignored. -/
theorem fallbackAction_ignoring (registry : Registry β) (policy : Policy) (inv : Invocation ι β)
    (batch : Batch) :
    Lifts (Option.map (.withPolicy (policy.withMissingFallback .ignore)))
      CallError.isMissingFallback
      (fallbackAction ⟨registry, policy.withMissingFallback .fail⟩ inv batch)
      (fallbackAction ⟨registry, policy.withMissingFallback .ignore⟩ inv batch) := by
  unfold fallbackAction
  cases registry.fallback inv.method with
  | ok fallback =>
    cases fallback with
    | none => exact .of_map _ _ (.ok none)
    | some f =>
      simp only [actionOfFallback_withPolicy (p := policy.withMissingFallback .fail)
        (q := policy.withMissingFallback .ignore) f]
      exact (Lifts.of_map _ _ _).map fun a => rfl
  | error e =>
    cases e with
    | noSuchFallback owner name params available =>
      exact ⟨fun a h => (nomatch h), fun e h hr => by cases h; cases hr⟩
    | _ => exact .of_map _ _ (.error _)

/-- The fallback of a call is refused where it is not found, or else as a call. -/
theorem fallbackAction_fault {r : Resolver β} {e : CallError}
    (h : r.fallbackAction inv batch = .error e) :
    r.registry.fallback inv.method = .error e ∨ ∃ fault, e = .invalidInvocation fault := by
  unfold fallbackAction at h
  split at h
  · cases h
  · rename_i f _
    unfold actionOfFallback at h
    split at h
    · cases hb : (inv.fallbackDraft f).build with
      | error e' =>
        rw [hb] at h
        cases h
        obtain ⟨fault, -, he⟩ := Invocation.Draft.build_eq_error_iff.mp hb
        exact .inr ⟨fault, he⟩
      | ok nested =>
        rw [hb] at h
        cases h
    · cases h
  · rename_i hf
    split at h <;> cases h
    exact .inl hf
  · rename_i hf
    cases h
    exact .inl hf

/-- A missing fallback is none where missing ones are ignored. -/
theorem fallbackAction_of_missing {e : CallError} (h : registry.fallback inv.method = .error e)
    (he : e.isMissingFallback) :
    fallbackAction ⟨registry, p.withMissingFallback .ignore⟩ inv batch = .ok none := by
  cases e with
  | noSuchFallback owner name params available =>
    unfold fallbackAction
    rw [h]
    rfl
  | _ => cases he

end Fallback

end Resolver

namespace Registry

/-- A fallback is missing, or its registry is dropped. -/
theorem fallback_fault {registry : Registry β} {m : Method β} {e : CallError}
    (h : registry.fallback m = .error e) :
    e.isMissingFallback ∨ ∃ fault, e = .invalidInvocation fault := by
  unfold fallback at h
  split at h
  · cases h
  · cases h
    exact .inl rfl
  · split at h <;> cases h
    exact .inr ⟨_, rfl⟩

/-- A method that a cycle is recorded for has its fallback linked, so it cannot miss it. -/
theorem fallback_of_cycle (registry : Registry β) {m : Method β} {keys : List String}
    (h : m.cycle? = some keys) {e : CallError} (he : registry.fallback m = .error e) :
    ∃ fault, e = .invalidInvocation fault := by
  unfold Method.cycle? at h
  unfold fallback at he
  cases hl : m.link with
  | undeclared => simp [hl] at h
  | missing name overloads => simp [hl] at h
  | linked s cycle =>
    simp only [hl] at he
    split at he
    · cases he
    · cases he
      exact ⟨_, rfl⟩

/-- A recorded cycle goes on to a command. -/
theorem nextCommand?_of_cycle {registrations : List (Registration β)} {registry : Registry β}
    (frozen : freeze registrations = .ok registry) {m : Method β} (hm : m ∈ registry.methods)
    {keys : List String} (h : m.cycle? = some keys) :
    m.isCommand ∧ ∃ f, registry.nextCommand? m = some f := by
  have hrep : ∃ n, registry.Repeats m n := by
    by_contra hno
    rw [(cycle?_eq_none_iff frozen hm).mpr (not_exists.mp hno)] at h
    cases h
  obtain ⟨n, hn⟩ := hrep
  obtain ⟨i, hi, -⟩ := id hn
  refine ⟨isCommand_of_repeats frozen hm hn, Option.isSome_iff_exists.mp ?_⟩
  rw [Option.isSome_iff_ne_none]
  intro hnone
  exact not_repeats_of_chain_none (i := 1) hnone (by omega) hn

end Registry

namespace Resolver

/-! ## The two options -/

section Options

variable {registry : Registry β} {policy : Policy} {inv : Invocation ι β} {batch : Batch}
variable {e : CallError}

/-- Ignoring missing fallbacks changes nothing else. -/
theorem plan_ignoring (registry : Registry β) (policy : Policy) (inv : Invocation ι β)
    (batch : Batch) :
    Lifts (·.withPolicy (policy.withMissingFallback .ignore)) CallError.isMissingFallback
      (plan ⟨registry, policy.withMissingFallback .fail⟩ inv batch)
      (plan ⟨registry, policy.withMissingFallback .ignore⟩ inv batch) := by
  rw [plan_eq_bind, plan_eq_bind]
  cases inv.command with
  | none => exact ⟨fun p h => (nomatch h), fun e h _ => h⟩
  | some decl =>
    -- The cycles that are refused are the same by both policies.
    refine .bind _ fun _ => .bind _ fun pool => ?_
    exact (fallbackAction_ignoring registry policy inv batch).map fun fallback =>
      inv.planWith_withPolicy decl pool fallback _

/-- Not refusing cycles changes nothing else. -/
theorem plan_undetecting (registry : Registry β) (policy : Policy) (inv : Invocation ι β)
    (batch : Batch) :
    Lifts (·.withPolicy (policy.withDetectCycles false)) CallError.isCycle
      (plan ⟨registry, policy.withDetectCycles true⟩ inv batch)
      (plan ⟨registry, policy.withDetectCycles false⟩ inv batch) := by
  have hoff : checkCycle ⟨registry, policy.withDetectCycles false⟩ inv.method = .ok () :=
    checkCycle_eq_ok_iff.mpr fun h => nomatch h
  rw [plan_eq_bind, plan_eq_bind, hoff]
  cases inv.command with
  | none => exact ⟨fun p h => (nomatch h), fun e h _ => h⟩
  | some decl =>
    refine .of_check (fun e he => ?_) (.bind _ fun pool => ?_)
    · obtain ⟨keys, -, rfl⟩ := checkCycle_eq_error he
      rfl
    · rw [fallbackAction_withPolicy (p := policy.withDetectCycles true)
        (q := policy.withDetectCycles false) rfl]
      refine Lifts.map (.of_map _ _ _) fun fallback => ?_
      exact inv.planWith_withPolicy decl pool fallback _

/-- A call is refused for the cycle that is recorded for its method, or for a missing fallback where
nothing else is wrong, or for what neither option knows of. -/
theorem refusal_of_plan {r : Resolver β} (h : r.plan inv batch = .error e) :
    (∃ keys, inv.method.cycle? = some keys ∧ e = .cyclicFallback keys) ∨
    (∃ decl pool, inv.command = some decl ∧ r.checkCycle inv.method = .ok () ∧
      PoolOverlay.ofSettings? decl.poolSettings = .ok pool ∧
      r.registry.fallback inv.method = .error e ∧ e.isMissingFallback) ∨
    e.isCycle = false ∧ e.isMissingFallback = false := by
  rcases step_of_plan_eq_error h with rfl | hcyc | hpool | ⟨decl, pool, hd, hcyc, hpool, hf⟩
  · exact .inr (.inr ⟨rfl, rfl⟩)
  · exact .inl (checkCycle_eq_error hcyc)
  · obtain ⟨-, -, s, -, rfl | ⟨fault, rfl⟩⟩ := Method.shape_of_poolFault? hpool
    · exact .inr (.inr ⟨rfl, rfl⟩)
    · exact .inr (.inr ⟨rfl, rfl⟩)
  · rcases fallbackAction_fault hf with hf | ⟨fault, rfl⟩
    · rcases Registry.fallback_fault hf with hm | ⟨fault, rfl⟩
      · exact .inr (.inl ⟨decl, pool, hd, hcyc, hpool, hf, hm⟩)
      · exact .inr (.inr ⟨rfl, rfl⟩)
    · exact .inr (.inr ⟨rfl, rfl⟩)

/-- A call that is refused for its missing fallback goes without one where those are ignored. -/
theorem plan_of_missing
    (h : plan ⟨registry, policy.withMissingFallback .fail⟩ inv batch = .error e)
    (he : e.isMissingFallback) :
    ∃ p, plan ⟨registry, policy.withMissingFallback .ignore⟩ inv batch = .ok p ∧
      p.actions.fallback = none := by
  rcases refusal_of_plan h with ⟨keys, -, rfl⟩ | ⟨decl, pool, hd, hcyc, hpool, hf, -⟩ | ⟨-, hno⟩
  · cases he
  · have hcyc : checkCycle ⟨registry, policy.withMissingFallback .ignore⟩ inv.method = .ok () :=
      hcyc
    have hnone := @fallbackAction_of_missing _ _ registry policy inv batch e hf he
    refine ⟨inv.planWith decl pool none, ?_, rfl⟩
    rw [plan_eq_bind, hd]
    simp only [hcyc, hpool, hnone]
    rfl
  · rw [he] at hno
    cases hno

/-- A call that is refused for a cycle is one of a method that a cycle is recorded for. -/
theorem cycle?_of_plan_eq_error {r : Resolver β} (h : r.plan inv batch = .error e)
    (he : e.isCycle) : ∃ keys, inv.method.cycle? = some keys := by
  rcases refusal_of_plan h with ⟨keys, hk, -⟩ | ⟨-, -, -, -, -, -, hm⟩ | ⟨hno, -⟩
  · exact ⟨keys, hk⟩
  · cases e with
    | cyclicFallback keys => cases hm
    | _ => cases he
  · rw [he] at hno
    cases hno

/-- A call of a method that a cycle is recorded for is never refused for a missing fallback. -/
theorem not_missing_of_cycle {r : Resolver β} {keys : List String}
    (hk : inv.method.cycle? = some keys) (h : r.plan inv batch = .error e) :
    e.isMissingFallback = false := by
  rcases refusal_of_plan h with ⟨keys, -, rfl⟩ | ⟨-, -, -, -, -, hf, -⟩ | ⟨-, hno⟩
  · rfl
  · obtain ⟨fault, rfl⟩ := r.registry.fallback_of_cycle hk hf
    rfl
  · exact hno

/-- Where cycles are not refused, a command that one is recorded for has a deferred fallback, unless
a pool setting of it is not right. -/
theorem plan_of_cycle {registrations : List (Registration β)} {r : Resolver β}
    (frozen : Registry.freeze registrations = .ok r.registry) (sound : inv.Sound r.registry)
    (hoff : r.policy.detectCycles = false) {keys : List String}
    (hk : inv.method.cycle? = some keys) :
    (∃ p d, r.plan inv batch = .ok p ∧ p.actions.fallback = some (.deferred d)) ∨
      ∃ e, inv.method.poolFault? = some e ∧ r.plan inv batch = .error e := by
  obtain ⟨hc, f, hf⟩ := Registry.nextCommand?_of_cycle frozen sound.registered hk
  obtain ⟨hnext, hfc⟩ := Registry.nextCommand?_eq_some_iff.mp hf
  have hcyc : r.checkCycle inv.method = .ok () :=
    checkCycle_eq_ok_iff.mpr fun h => by rw [hoff] at h; cases h
  cases hpool : inv.method.poolFault? with
  | some e =>
    refine .inr ⟨e, rfl, (plan_eq_error_iff frozen sound).mpr (.inr (.inr ⟨hcyc, ?_⟩))⟩
    exact obstacle?_eq_some_iff.mpr ⟨hc, .inl hpool⟩
  | none =>
    -- The cycle goes on to a command, so the fallback is not missing.
    have hmissing : r.missing? inv.method = none := by
      rw [missing?_eq_none_iff frozen sound.registered]
      rintro ⟨-, hname, hnone⟩
      rw [Registry.next?_eq frozen sound.registered, if_neg hname, hnone] at hnext
      cases hnext
    obtain ⟨p, hp, hacts⟩ := @exists_plan _ _ r inv batch _ frozen sound hc hcyc
      ((obstacle?_eq_none_iff hc).mpr ⟨hpool, hmissing⟩)
    refine .inl ⟨p, ⟨r.policy, inv.ofFallback f, batch⟩, hp, ?_⟩
    rw [hacts, actionsOf, hnext, Option.map_some, fallbackOf, if_pos hfc]

end Options

/-- The options of a policy are conservative. Ignoring missing fallbacks keeps every plan, up to the
policy of its deferred commands, and every error other than that of a missing fallback; a call that
was refused for that is resolved without a fallback. Not refusing cycles keeps every plan and every
error other than that of a cycle; a call that was refused for that is then resolved with a deferred
fallback, or refused for a pool setting, and never for a missing fallback. -/
theorem options_conservative (registry : Registry β) (policy : Policy) (inv : Invocation ι β)
    (batch : Batch) :
    (let fail := plan ⟨registry, policy.withMissingFallback .fail⟩ inv batch
      let ignore := plan ⟨registry, policy.withMissingFallback .ignore⟩ inv batch
      Lifts (·.withPolicy (policy.withMissingFallback .ignore)) CallError.isMissingFallback
        fail ignore ∧
      ∀ e, fail = .error e → e.isMissingFallback →
        ∃ p, ignore = .ok p ∧ p.actions.fallback = none) ∧
    (let on := plan ⟨registry, policy.withDetectCycles true⟩ inv batch
      let off := plan ⟨registry, policy.withDetectCycles false⟩ inv batch
      Lifts (·.withPolicy (policy.withDetectCycles false)) CallError.isCycle on off ∧
      ∀ e, on = .error e → e.isCycle →
        (∀ e', off = .error e' → e'.isMissingFallback = false) ∧
        ∀ (registrations : List (Registration β)) (draft : Invocation.Draft ι β),
          Registry.freeze registrations = .ok registry → draft.build = .ok inv →
          inv.method ∈ registry.methods →
          (∃ p d, off = .ok p ∧ p.actions.fallback = some (.deferred d)) ∨
            ∃ e', inv.method.poolFault? = some e' ∧ off = .error e') := by
  refine ⟨⟨plan_ignoring registry policy inv batch, fun e => plan_of_missing⟩,
    plan_undetecting registry policy inv batch, fun e h he => ?_⟩
  obtain ⟨keys, hk⟩ := cycle?_of_plan_eq_error h he
  refine ⟨fun e' => not_missing_of_cycle hk, ?_⟩
  intro registrations draft frozen captured registered
  have sound := Invocation.Sound.of_build captured registered
  exact @plan_of_cycle _ _ inv batch registrations
    ⟨registry, policy.withDetectCycles false⟩ frozen sound rfl keys hk

end Resolver

/-! ## A relay -/

namespace Relay

/-- A command that is its own fallback, and a command whose fallback is not registered. -/
def registrations : List (Registration Unit) :=
  [("pass", "pass"), ("send", "resend")].map fun (name, fallbackName) =>
    { signature := ⟨"Relay", name, []⟩, command := some { fallbackName }, body := () }

/-- The registry of the relay. -/
def registry : Registry Unit := .linked registrations

/-- A call of one of its methods. -/
def call (method : Method Unit) : Invocation Unit Unit where
  target := ⟨"Relay", 0, ()⟩
  method
  args := []
  collapser := none
  groupKey := "Relay"
  commandKey := method.name
  collapserKey := method.name
  cacheKeyMethod := none
  mode := .synchronous

/-- What is supplied for that call. -/
def draft (method : Method Unit) : Invocation.Draft Unit Unit :=
  { target := (call method).target, method, groupKey := "Relay" }

theorem freeze_registrations : Registry.freeze registrations = .ok registry :=
  Registry.freeze_of_nodup (by decide)

theorem options_conservative_relay :
    (∃ m ∈ registry.methods, ∃ p, (draft m).build = .ok (call m) ∧
      Resolver.plan ⟨registry, {}⟩ (call m) default =
        .error (.noSuchFallback "Relay" "resend" [] []) ∧
      Resolver.plan ⟨registry, { missingFallback := .ignore }⟩ (call m) default = .ok p ∧
      p.actions.fallback = none) ∧
    ∃ m ∈ registry.methods, ∃ p d, (draft m).build = .ok (call m) ∧
      Resolver.plan ⟨registry, {}⟩ (call m) default = .error (.cyclicFallback ["pass", "pass"]) ∧
      Resolver.plan ⟨registry, { detectCycles := false }⟩ (call m) default = .ok p ∧
      p.actions.fallback = some (.deferred d) := by
  have error_iff {m : Method Unit} (captured : (draft m).build = .ok (call m))
      (hm : m ∈ registry.methods) (e : CallError) :=
    @Resolver.plan_eq_error_iff _ _ ⟨registry, {}⟩ _ default e _ freeze_registrations
      (Invocation.Sound.of_build captured hm)
  constructor
  · have hm : registry.methods[1] ∈ registry.methods := List.getElem_mem _
    have hcyc : Resolver.checkCycle ⟨registry, {}⟩ (call registry.methods[1]).method = .ok () := by
      decide +kernel
    have missing : Resolver.obstacle? ⟨registry, {}⟩ (call registry.methods[1]).method =
        some (.noSuchFallback "Relay" "resend" [] []) := by decide +kernel
    have refused := (error_iff rfl hm _).mpr (.inr (.inr ⟨hcyc, missing⟩))
    obtain ⟨p, hp, hnone⟩ :=
      (Resolver.options_conservative registry {} _ default).1.2 _ refused rfl
    exact ⟨_, hm, p, rfl, refused, hp, hnone⟩
  · have hm : registry.methods[0] ∈ registry.methods := List.getElem_mem _
    have hcyc : Resolver.checkCycle ⟨registry, {}⟩ (call registry.methods[0]).method =
        .error (.cyclicFallback ["pass", "pass"]) := by decide +kernel
    have refused := (error_iff rfl hm _).mpr (.inr (.inl ⟨rfl, hcyc⟩))
    have resolved := ((Resolver.options_conservative registry {} _ default).2.2 _ refused rfl).2
      registrations (draft registry.methods[0]) freeze_registrations rfl hm
    obtain ⟨p, d, hp, hd⟩ | ⟨e, he, -⟩ := resolved
    · exact ⟨_, hm, p, d, rfl, refused, hp, hd⟩
    · cases he

end Relay

end ProtectedCall
