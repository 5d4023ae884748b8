import Mathlib.Logic.Function.Basic
import ProtectedCall.Proofs.Cycle
import ProtectedCall.Proofs.Precedence

/-!
# Assigned keys

Cycles are recorded for the keys under which commands are registered. Resolution assigns keys of its
own, one to the plan of a call and one to every deferred command behind it. Behind the plan both are
the same (`Resolver.assignedKey_succ`); the plan itself may have a default key from its call.

* `Resolver.nextDeferred?`, `Resolver.deferredAt`: the deferred commands behind a call, where each
  is resolved to get to the next one.
* `Resolver.nextDeferred?_eq`: without the refusal of cycles they go along the chain of fallbacks.
* `Resolver.assignedKey`, `Recurs`: the keys that are assigned, and that one of them comes back.
* `Resolver.cyclic_iff_recurs`: a call is refused for a cycle exactly if an assigned key comes back,
  where the key of the plan counts as it is registered.
-/

namespace ProtectedCall

variable {ι β : Type}

/-- Some key of a sequence comes back. -/
def Recurs (keys : Nat → Option String) : Prop :=
  ∃ i j, i < j ∧ ∃ key, keys i = some key ∧ keys j = some key

theorem not_recurs_of_later {keys : Nat → Option String} (later : ∀ n, keys (n + 1) = none) :
    ¬ Recurs keys := by
  rintro ⟨i, j, hij, key, -, hj⟩
  obtain ⟨n, rfl⟩ := Nat.exists_eq_add_of_lt hij
  rw [later] at hj
  cases hj

/-- A registered key comes back along a chain wherever the chain repeats itself. -/
theorem recurs_keyAt_iff {registry : Registry β} {m : Method β} :
    Recurs (registry.keyAt m) ↔ ∃ n, registry.Repeats m n := by
  constructor
  · rintro ⟨i, j, hij, hkey⟩
    exact ⟨j, i, hij, hkey⟩
  · rintro ⟨j, i, hij, hkey⟩
    exact ⟨i, j, hij, hkey⟩

/-- The fallback of a plan, if it is deferred. -/
def Plan.deferred? (p : Plan ι β) : Option (DeferredCommand ι β) :=
  match p.actions.fallback with
  | some (.deferred d) => some d
  | _ => none

/-- All pool settings of all commands are right. -/
def Registry.PoolsSound (registry : Registry β) : Prop :=
  ∀ m ∈ registry.methods, ∀ decl, m.command = some decl →
    ∃ pool, PoolOverlay.ofSettings? decl.poolSettings = .ok pool

namespace Resolver

/-- The deferred fallback of the plan that a call is resolved to. -/
def nextDeferred? (r : Resolver β) (inv : Invocation ι β) (batch : Batch) :
    Option (DeferredCommand ι β) :=
  (r.plan inv batch).toOption.bind Plan.deferred?

/-- The deferred command that is reached from a call by resolving the call and `n` deferred
commands, one after another. -/
def deferredAt (r : Resolver β) (inv : Invocation ι β) (batch : Batch) :
    Nat → Option (DeferredCommand ι β)
  | 0 => r.nextDeferred? inv batch
  | n + 1 => (r.deferredAt inv batch n).bind fun d =>
      nextDeferred? ⟨r.registry, d.policy⟩ d.invocation d.batch

/-- The command keys that are assigned from a call on: first to its plan, then to the deferred
commands. -/
def assignedKey (r : Resolver β) (inv : Invocation ι β) (batch : Batch) : Nat → Option String
  | 0 => (r.plan inv batch).toOption.map (·.identity.commandKey)
  | n + 1 => (r.deferredAt inv batch n).map (·.name)

end Resolver

/-! ## Names -/

/-- A deferred command whose default key is the name of its method goes by its registered key. -/
theorem DeferredCommand.name_eq_key {d : DeferredCommand ι β}
    (h : d.invocation.commandKey = d.invocation.method.name) :
    d.name = d.invocation.method.key := by
  rw [name, Registration.key, h]
  rfl

theorem Registration.key_of_command {r : Registration β} {decl : CommandDecl}
    (h : r.command = some decl) : r.key = declaredOr decl.commandKey r.signature.name := by
  rw [key, h]
  rfl

/-! ## Along the chain -/

namespace Resolver

section Frozen

variable {registrations : List (Registration β)} {r : Resolver β} {inv : Invocation ι β}
variable {batch : Batch}

theorem deferred?_of_plan (frozen : Registry.freeze registrations = .ok r.registry)
    (sound : inv.Sound r.registry) {p : Plan ι β} (h : r.plan inv batch = .ok p) :
    p.deferred? = (r.registry.nextCommand? inv.method).map fun f =>
      ⟨r.policy, inv.ofFallback f, batch⟩ := by
  obtain ⟨-, -, -, hactions⟩ := of_plan_eq_ok frozen sound h
  rw [Plan.deferred?, hactions, actionsOf, Registry.nextCommand?]
  cases r.registry.next? inv.method with
  | none => rfl
  | some f => cases hf : f.isCommand <;> simp [fallbackOf, hf, Option.filter]

/-- Without the refusal of cycles and of pool settings only a missing fallback keeps a command from
being resolved. -/
theorem next?_of_plan_eq_error (frozen : Registry.freeze registrations = .ok r.registry)
    (off : r.policy.detectCycles = false) (pools : r.registry.PoolsSound)
    (sound : inv.Sound r.registry) (hc : inv.method.isCommand) {e : CallError}
    (h : r.plan inv batch = .error e) : r.registry.next? inv.method = none := by
  rcases (plan_eq_error_iff frozen sound).mp h with ⟨hn, -⟩ | ⟨-, he⟩ | ⟨-, he⟩
  · rw [hc] at hn
    cases hn
  · rw [checkCycle_eq_ok_iff.mpr (by simp [off])] at he
    cases he
  · rcases (obstacle?_eq_some_iff.mp he).2 with hpool | ⟨-, hmissing⟩
    · obtain ⟨decl, hd, hfault⟩ := Option.bind_eq_some_iff.mp hpool
      obtain ⟨pool, hok⟩ := pools _ sound.registered decl hd
      rw [PoolOverlay.ofSettings?_eq_error_iff.mpr hfault] at hok
      cases hok
    · obtain ⟨⟨-, hname, hfind⟩, -⟩ := (missing?_eq_some_iff frozen sound.registered).mp hmissing
      rw [Registry.next?_eq frozen sound.registered, if_neg hname, hfind]

/-- The deferred fallback of a call is that of the next command, whether the call is resolved or
not. -/
theorem nextDeferred?_eq (frozen : Registry.freeze registrations = .ok r.registry)
    (off : r.policy.detectCycles = false) (pools : r.registry.PoolsSound)
    (sound : inv.Sound r.registry) (hc : inv.method.isCommand) :
    r.nextDeferred? inv batch = (r.registry.nextCommand? inv.method).map fun f =>
      ⟨r.policy, inv.ofFallback f, batch⟩ := by
  unfold nextDeferred?
  cases hp : r.plan inv batch with
  | error e =>
    have hn := next?_of_plan_eq_error frozen off pools sound hc hp
    simp [Registry.nextCommand?, hn, Except.toOption]
  | ok p => exact deferred?_of_plan frozen sound hp

/-- The `n`-th deferred command is a sound call of the command that is `n + 1` fallbacks away, which
has its name as its default key. -/
theorem deferredAt_spec (frozen : Registry.freeze registrations = .ok r.registry)
    (off : r.policy.detectCycles = false) (pools : r.registry.PoolsSound)
    (sound : inv.Sound r.registry) (hc : inv.method.isCommand) (n : Nat) :
    match r.deferredAt inv batch n with
    | none => r.registry.chain inv.method (n + 1) = none
    | some d => r.registry.chain inv.method (n + 1) = some d.invocation.method ∧
        d.policy = r.policy ∧ d.invocation.Sound r.registry ∧
        d.invocation.commandKey = d.invocation.method.name := by
  -- By induction on `n`: each command is deferred by the plan of the one before it.
  induction n with
  | zero =>
    rw [deferredAt, nextDeferred?_eq frozen off pools sound hc, Registry.chain, Registry.steps]
    cases hn : r.registry.nextCommand? inv.method with
    | none => exact hn
    | some f =>
      have hnext := (Registry.nextCommand?_eq_some_iff.mp hn).1
      exact ⟨hn, rfl, sound.ofFallback frozen hnext, rfl⟩
  | succ n ih =>
    rw [deferredAt, Registry.chain, Registry.steps, ← Registry.chain]
    cases hd : r.deferredAt inv batch n with
    | none =>
      rw [hd] at ih
      rw [ih]
      rfl
    | some d =>
      rw [hd] at ih
      obtain ⟨hchain, hpolicy, hsound, -⟩ := ih
      have hdc := Registry.isCommand_of_chain hc hchain
      rw [hchain, Option.bind_some, Option.bind_some, hpolicy,
        nextDeferred?_eq frozen off pools hsound hdc]
      cases hn : r.registry.nextCommand? d.invocation.method with
      | none => rfl
      | some f =>
        have hnext := (Registry.nextCommand?_eq_some_iff.mp hn).1
        exact ⟨rfl, rfl, hsound.ofFallback frozen hnext, rfl⟩

/-- Behind the plan the assigned keys are the registered ones along the chain. -/
theorem assignedKey_succ (frozen : Registry.freeze registrations = .ok r.registry)
    (off : r.policy.detectCycles = false) (pools : r.registry.PoolsSound)
    (sound : inv.Sound r.registry) (hc : inv.method.isCommand) (n : Nat) :
    r.assignedKey inv batch (n + 1) = r.registry.keyAt inv.method (n + 1) := by
  have hspec := @deferredAt_spec _ _ _ r inv batch frozen off pools sound hc n
  rw [assignedKey, Registry.keyAt]
  cases hd : r.deferredAt inv batch n with
  | none =>
    rw [hd] at hspec
    rw [hspec]
    rfl
  | some d =>
    rw [hd] at hspec
    obtain ⟨hchain, -, -, hkey⟩ := hspec
    rw [hchain, Option.map_some, Option.map_some, DeferredCommand.name_eq_key hkey]

/-- With the registered key in the place of the plan's own the assigned keys are those of the
chain. -/
theorem update_assignedKey (frozen : Registry.freeze registrations = .ok r.registry)
    (off : r.policy.detectCycles = false) (pools : r.registry.PoolsSound)
    (sound : inv.Sound r.registry) (hc : inv.method.isCommand) :
    Function.update (r.assignedKey inv batch) 0 (some inv.method.key) =
      r.registry.keyAt inv.method := by
  funext n
  cases n with
  | zero => rfl
  | succ n =>
    rw [Function.update_of_ne (Nat.succ_ne_zero n)]
    exact assignedKey_succ frozen off pools sound hc n

/-- A call that is not resolved has no assigned keys. -/
theorem assignedKey_of_plan_eq_error {e : CallError} (h : r.plan inv batch = .error e) (n : Nat) :
    r.assignedKey inv batch n = none := by
  have hnone (n : Nat) : r.deferredAt inv batch n = none := by
    induction n with
    | zero => rw [deferredAt, nextDeferred?, h]; rfl
    | succ n ih => rw [deferredAt, ih]; rfl
  cases n with
  | zero => rw [assignedKey, h]; rfl
  | succ n => rw [assignedKey, hnone]; rfl

/-- If the key of a command is declared, or the default key of its call is the name of its method,
the registered key changes nothing in the place of the plan's own. -/
theorem recurs_update_iff (frozen : Registry.freeze registrations = .ok r.registry)
    (sound : inv.Sound r.registry) {decl : CommandDecl} (command : inv.method.command = some decl)
    (h : decl.commandKey ≠ "" ∨ inv.commandKey = inv.method.name) :
    Recurs (Function.update (r.assignedKey inv batch) 0
        (some (declaredOr decl.commandKey inv.method.name))) ↔
      Recurs (r.assignedKey inv batch) := by
  cases hp : r.plan inv batch with
  | error e =>
    -- The registered key is the only one there is.
    have hnone := assignedKey_of_plan_eq_error hp
    refine iff_of_false (not_recurs_of_later fun n => ?_) (not_recurs_of_later fun n => hnone _)
    rw [Function.update_of_ne (Nat.succ_ne_zero n), hnone]
  | ok p =>
    obtain ⟨decl', hd, hdesc⟩ := describes_of_plan frozen sound hp
    obtain rfl : decl = decl' := Option.some.inj (command.symm.trans hd)
    have hkey : p.identity.commandKey = declaredOr decl.commandKey inv.method.name := by
      rw [hdesc.commandKey, declaredOr_eq]
      rcases h with hdeclared | hname
      · rw [if_neg hdeclared, if_neg hdeclared]
      · rw [hname]
    have hfirst : r.assignedKey inv batch 0 =
        some (declaredOr decl.commandKey inv.method.name) := by
      rw [assignedKey, hp, ← hkey]
      rfl
    rw [← hfirst, Function.update_eq_self]

/-- A command is refused for a cycle exactly if a registered key of its chain comes back. -/
theorem cyclic_iff_recurs_keyAt (frozen : Registry.freeze registrations = .ok r.registry)
    (on : r.policy.detectCycles) (sound : inv.Sound r.registry) (hc : inv.method.isCommand) :
    (∃ keys, r.plan inv batch = .error (.cyclicFallback keys)) ↔
      Recurs (r.registry.keyAt inv.method) := by
  have hrecorded : Recurs (r.registry.keyAt inv.method) ↔ inv.method.cycle? ≠ none := by
    rw [Ne, Registry.cycle?_eq_none_iff frozen sound.registered, not_forall_not, recurs_keyAt_iff]
  rw [hrecorded, Option.ne_none_iff_exists']
  constructor
  · rintro ⟨keys, h⟩
    rcases (plan_eq_error_iff frozen sound).mp h with ⟨-, he⟩ | ⟨-, he⟩ | ⟨-, he⟩
    · cases he
    · obtain ⟨-, keys, hkeys, -⟩ := checkCycle_eq_error_iff.mp he
      exact ⟨keys, hkeys⟩
    · cases isObstacle_of_obstacle? frozen sound.registered he
  · rintro ⟨keys, hkeys⟩
    refine ⟨keys, (plan_eq_error_iff frozen sound).mpr (.inr (.inl ⟨hc, ?_⟩))⟩
    exact checkCycle_eq_error_iff.mpr ⟨on, keys, hkeys, rfl⟩

/-- The check for cycles sees the keys that resolution assigns, but for that of the plan. Let all
pool settings be right. Then a captured call of a command is refused for a cycle, where cycles are
refused, exactly if among the keys that are assigned where they are not some key comes back, with
the key of the plan as it is registered: the declared one or else the name of the method. If a key
is declared, or the default key of the call is that name, this is the key that the plan has, so the
assigned keys themselves decide. -/
theorem cyclic_iff_recurs {registry : Registry β} {policy : Policy} {draft : Invocation.Draft ι β}
    {decl : CommandDecl} (frozen : Registry.freeze registrations = .ok registry)
    (pools : registry.PoolsSound) (captured : draft.build = .ok inv)
    (registered : inv.method ∈ registry.methods) (command : inv.method.command = some decl)
    (batch : Batch) :
    ((∃ keys, Resolver.plan ⟨registry, policy.withDetectCycles true⟩ inv batch =
          .error (.cyclicFallback keys)) ↔
      Recurs (Function.update
        (assignedKey ⟨registry, policy.withDetectCycles false⟩ inv batch) 0
        (some (declaredOr decl.commandKey inv.method.name)))) ∧
    (decl.commandKey ≠ "" ∨ inv.commandKey = inv.method.name →
      ((∃ keys, Resolver.plan ⟨registry, policy.withDetectCycles true⟩ inv batch =
          .error (.cyclicFallback keys)) ↔
        Recurs (assignedKey ⟨registry, policy.withDetectCycles false⟩ inv batch))) := by
  have sound := Invocation.Sound.of_build captured registered
  have hc : inv.method.isCommand := by simp [Method.isCommand, command]
  -- The check decides on the keys along the chain, and all but the first are the assigned ones.
  have hcyclic : _ ↔ Recurs (registry.keyAt inv.method) :=
    @cyclic_iff_recurs_keyAt _ _ _ ⟨registry, policy.withDetectCycles true⟩ inv batch
      frozen rfl sound hc
  have hkeys : _ = registry.keyAt inv.method :=
    @update_assignedKey _ _ _ ⟨registry, policy.withDetectCycles false⟩ inv batch
      frozen rfl pools sound hc
  rw [Registration.key_of_command command] at hkeys
  rw [← hkeys] at hcyclic
  exact ⟨hcyclic, fun hdefault => hcyclic.trans (recurs_update_iff frozen sound command hdefault)⟩

end Frozen

end Resolver

/-- Where no pool settings are declared all of them are right. -/
theorem Registry.PoolsSound.of_undeclared {registrations : List (Registration β)}
    {registry : Registry β} (frozen : freeze registrations = .ok registry)
    (undeclared : ∀ r ∈ registrations, ∀ decl, r.command = some decl → decl.poolSettings = []) :
    registry.PoolsSound := by
  intro m hm decl hd
  have hr := ((mem_methods_iff frozen).mp hm).1
  exact ⟨none, by rw [undeclared _ hr decl hd]; rfl⟩

/-! ## A circle and a booth -/

namespace Circle

/-- The registry of the circle. -/
def registry : Registry Unit := .linked Registry.circle

theorem freeze_circle : Registry.freeze Registry.circle = .ok registry :=
  Registry.freeze_of_nodup (by decide)

theorem poolsSound : registry.PoolsSound :=
  .of_undeclared freeze_circle (by simp [Registry.circle])

/-- A call of the first command. -/
def call : Invocation Unit Unit where
  target := ⟨"Shop", 0, ()⟩
  method := registry.methods.head (List.cons_ne_nil _ _)
  args := [.integer 5]
  collapser := none
  groupKey := "Shop"
  commandKey := "pay"
  collapserKey := "pay"
  cacheKeyMethod := none
  mode := .synchronous

/-- What is supplied for that call. -/
def draft : Invocation.Draft Unit Unit :=
  { target := call.target, method := call.method, args := call.args, groupKey := "Shop" }

theorem cyclic_iff_recurs_circle :
    Registry.freeze Registry.circle = .ok registry ∧ registry.PoolsSound ∧
      draft.build = .ok call ∧ call.method ∈ registry.methods ∧
      Recurs (Resolver.assignedKey ⟨registry, { detectCycles := false }⟩ call default) ∧
      ∃ keys, Resolver.plan ⟨registry, {}⟩ call default = .error (.cyclicFallback keys) := by
  have spec := @Resolver.cyclic_iff_recurs _ _ _ _ registry {} draft _ freeze_circle poolsSound rfl
    List.mem_cons_self rfl default
  have recurs : Recurs (Resolver.assignedKey ⟨registry, { detectCycles := false }⟩ call default) :=
    ⟨1, 2, by decide, "retry", by decide +kernel, by decide +kernel⟩
  exact ⟨freeze_circle, poolsSound, rfl, List.mem_cons_self, recurs, (spec.2 (.inr rfl)).mpr recurs⟩

end Circle

namespace Booth

/-- A command without a key of its own and its fallback, which is a command with the key `till`. -/
def registrations : List (Registration Unit) :=
  [("pay", { fallbackName := "retry" }), ("retry", { commandKey := "till" })].map
    fun (name, command) => { signature := ⟨"Booth", name, []⟩, command := some command, body := () }

/-- The registry of the booth. -/
def registry : Registry Unit := .linked registrations

theorem freeze_registrations : Registry.freeze registrations = .ok registry :=
  Registry.freeze_of_nodup (by decide)

theorem poolsSound : registry.PoolsSound :=
  .of_undeclared freeze_registrations (by simp [registrations])

/-- A call of the first command, with the default key `till`. -/
def call : Invocation Unit Unit where
  target := ⟨"Booth", 0, ()⟩
  method := registry.methods.head (List.cons_ne_nil _ _)
  args := []
  collapser := none
  groupKey := "Booth"
  commandKey := "till"
  collapserKey := "pay"
  cacheKeyMethod := none
  mode := .synchronous

/-- What is supplied for that call. -/
def draft : Invocation.Draft Unit Unit :=
  { target := call.target, method := call.method, groupKey := "Booth", commandKey := "till" }

/-- A default key that is also the declared key of the fallback comes back unnoticed. -/
theorem recurs_unnoticed :
    Registry.freeze registrations = .ok registry ∧ registry.PoolsSound ∧
      draft.build = .ok call ∧ call.method ∈ registry.methods ∧
      call.method.isCommand ∧
      ¬ ((∃ keys, Resolver.plan ⟨registry, {}⟩ call default = .error (.cyclicFallback keys)) ↔
        Recurs (Resolver.assignedKey ⟨registry, { detectCycles := false }⟩ call default)) := by
  have resolved : (Resolver.plan ⟨registry, {}⟩ call default).toOption.isSome := by
    decide +kernel
  have recurs :
      Recurs (Resolver.assignedKey ⟨registry, { detectCycles := false }⟩ call default) :=
    ⟨0, 1, Nat.zero_lt_one, "till", by decide +kernel, by decide +kernel⟩
  refine ⟨freeze_registrations, poolsSound, rfl, List.mem_cons_self, rfl, fun h => ?_⟩
  obtain ⟨keys, hkeys⟩ := h.mpr recurs
  rw [hkeys] at resolved
  cases resolved

end Booth

end ProtectedCall
