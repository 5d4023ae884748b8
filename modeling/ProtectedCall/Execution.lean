import ProtectedCall.Resolver

/-!
# Execution

Executing an action runs a method body or hands a plan to an engine, which executes actions in turn.

* `Execute`: how to execute an action, with its captured arguments or with others.
* `Engine`: what to do with a plan, given how to execute. Engines may keep a state and record what
  they do; that is up to the monad `m`.
* `Runtime`: an engine together with a way to run method bodies.
* `Runtime.perform`: executes an action. Plans may be nested at most `depth` deep; beyond that there
  is no outcome at all, which differs from every error.
* `Engine.primary`, `Engine.failover`, `Engine.collapsed`: three simple engines.
-/

namespace ProtectedCall

variable {m : Type → Type} {ι β : Type}

/-- How to execute an action, with its captured arguments or with others. -/
abbrev Execute (m : Type → Type) (ι β : Type) :=
  Action ι β → Option (List Value) → OptionT m Outcome

/-- What to do with a plan and its batch, given how to execute actions. -/
abbrev Engine (m : Type → Type) (ι β : Type) :=
  Execute m ι β → Plan ι β → Batch → OptionT m Outcome

/-- How bodies are run, on what the instance holds, and what runs plans. -/
structure Runtime (m : Type → Type) (ι β : Type) where
  body : β → ι → List Value → m Outcome
  engine : Engine m ι β

/-- Calls a method, if it belongs to the target and the number of arguments is right. -/
def Method.invoke [Monad m] (body : β → ι → List Value → m Outcome) (method : Method β)
    (target : Target ι) (args : List Value) : m Outcome :=
  match method.dispatch target args with
  | .error e => pure (.error e)
  | .ok state => body method.body state args

/-- Calls the method of a direct call. Other arguments are checked before. -/
def DirectCall.perform [Monad m] (body : β → ι → List Value → m Outcome) (call : DirectCall ι β) :
    Option (List Value) → m Outcome
  | none => call.method.invoke body call.target call.args
  | some args =>
    match call.method.signature.checkArgs args with
    | .error e => pure (.error e)
    | .ok () => call.method.invoke body call.target args

/-- The plan that executing a deferred command hands to the engine. -/
def DeferredCommand.plan (registry : Registry β) (d : DeferredCommand ι β) :
    Option (List Value) → Except CallError (Plan ι β)
  | none => Resolver.plan ⟨registry, d.policy⟩ d.invocation d.batch
  | some args => do
    let inv ← d.invocation.withArgs args
    Resolver.plan ⟨registry, d.policy⟩ inv d.batch

/-- Executes an action. A deferred command is resolved now, and its plan is handed to the engine
together with the batch that it carries. -/
def Runtime.perform [Monad m] (rt : Runtime m ι β) (registry : Registry β) :
    Nat → Execute m ι β
  | _, .direct call, args => OptionT.lift (call.perform rt.body args)
  | 0, .deferred _, _ => failure
  | depth + 1, .deferred d, args =>
    match d.plan registry args with
    | .error e => pure (.error e)
    | .ok plan => rt.engine (rt.perform registry depth) plan d.batch

/-! ## Engines -/

namespace Engine

/-- Executes the command alone. -/
def primary : Engine m ι β := fun execute plan _ => execute plan.actions.command none

/-- Executes the command and, if it fails, the fallback. Without one the error stays. -/
def failover [Monad m] : Engine m ι β := fun execute plan _ => do
  match ← execute plan.actions.command none, plan.actions.fallback with
  | .error _, some fallback => execute fallback none
  | outcome, _ => return outcome

/-- Executes the command with the arguments of the batch. -/
def collapsed : Engine m ι β := fun execute plan batch =>
  execute plan.actions.command (some batch.arguments)

end Engine

end ProtectedCall
