import ProtectedCall.Plan

/-!
# Resolution

A resolver turns captured calls into plans. It runs nothing.

* `Resolver.fallbackAction`: what to do when a call fails. A plain fallback becomes a direct call, a
  fallback that is a command is deferred.
* `Resolver.actions`: the actions of a call.
* `Resolver.plan`: the plan of a call. An undeclared command is refused first, then a cyclic chain,
  then a wrong pool setting, then a missing fallback.
-/

namespace ProtectedCall

variable {ι β : Type}

/-- A registry with the policy to resolve by. -/
structure Resolver (β : Type) where
  registry : Registry β
  policy : Policy := {}

namespace Resolver

/-- The action of a fallback. -/
def actionOfFallback (r : Resolver β) (inv : Invocation ι β) (batch : Batch)
    (fallback : Method β) : Except CallError (Action ι β) :=
  if fallback.isCommand then do
    let nested ← (inv.fallbackDraft fallback).build
    return .deferred ⟨r.policy, nested, batch⟩
  else return .direct ⟨inv.target, fallback, inv.args⟩

/-- What to do when a call fails, if a fallback is declared. A missing one is an error unless the
policy ignores it. -/
def fallbackAction (r : Resolver β) (inv : Invocation ι β) (batch : Batch) :
    Except CallError (Option (Action ι β)) :=
  match r.registry.fallback inv.method with
  | .ok none => .ok none
  | .ok (some fallback) => (r.actionOfFallback inv batch fallback).map some
  | .error (.noSuchFallback owner name params available) =>
    match r.policy.missingFallback with
    | .ignore => .ok none
    | .fail => .error (.noSuchFallback owner name params available)
  | .error e => .error e

/-- The actions of a call: the method itself, its fallback and its cache key, all with the captured
target and arguments. -/
def actions (r : Resolver β) (inv : Invocation ι β) (batch : Batch) :
    Except CallError (ActionSet ι β) := do
  let fallback ← r.fallbackAction inv batch
  return {
    command := .direct ⟨inv.target, inv.method, inv.args⟩
    fallback
    cacheKey := inv.cacheKeyMethod.map fun m => .direct ⟨inv.target, m, inv.args⟩ }

/-- Refuses a call whose chain of fallbacks comes back to a command key. -/
def checkCycle (r : Resolver β) (m : Method β) : Except CallError Unit :=
  match r.policy.detectCycles, m.cycle? with
  | true, some chain => .error (.cyclicFallback chain)
  | _, _ => .ok ()

/-- The plan of a call. Declared keys win over the defaults of the call. -/
def plan (r : Resolver β) (inv : Invocation ι β) (batch : Batch) :
    Except CallError (Plan ι β) :=
  match inv.command with
  | none => .error (.missingDeclaration inv.method.signature)
  | some decl => do
    r.checkCycle inv.method
    let pool ← PoolOverlay.ofSettings? decl.poolSettings
    let actions ← r.actions inv batch
    return {
      identity := {
        groupKey := declaredOr decl.groupKey inv.groupKey
        commandKey := declaredOr decl.commandKey inv.commandKey
        poolKey := decl.poolKey
        pool }
      actions
      options := .ofSettings decl.options
      ignoredErrors := decl.ignoredErrors
      mode := inv.mode }

end Resolver

end ProtectedCall
