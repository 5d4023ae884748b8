import ProtectedCall.Batch
import ProtectedCall.Invocation
import ProtectedCall.OptionMap
import ProtectedCall.Policy
import ProtectedCall.PoolOverlay

/-!
# Plans

* `DirectCall`: a method to call, without protection of its own.
* `DeferredCommand`: a fallback that is a command itself. It is resolved when it is executed, not
  before.
* `Action`: one of the two.
* `ActionSet`: what to do for a call: the method itself, its fallback and its cache key.
* `Plan`: all that an engine has to know to run a command.
-/

namespace ProtectedCall

variable {ι β : Type}

/-- A method to call on a target. -/
structure DirectCall (ι β : Type) where
  target : Target ι
  method : Method β
  args : List Value

/-- A command to resolve by a policy and to run with a batch, when it is executed. -/
structure DeferredCommand (ι β : Type) where
  policy : Policy
  invocation : Invocation ι β
  batch : Batch

/-- The command key that is declared, or else the default one. -/
def DeferredCommand.name (d : DeferredCommand ι β) : String :=
  match d.invocation.command with
  | some decl => decl.keyOr d.invocation.commandKey
  | none => d.invocation.commandKey

/-- What an engine can execute. -/
inductive Action (ι β : Type) where
  | direct (call : DirectCall ι β)
  | deferred (command : DeferredCommand ι β)

namespace Action

/-- The action is a direct call. -/
def isDirect : Action ι β → Bool
  | .direct _ => true
  | .deferred _ => false

/-- The action is a deferred command. -/
def isDeferred : Action ι β → Bool
  | .direct _ => false
  | .deferred _ => true

/-- The name of the method, or the key of the command. -/
def name : Action ι β → String
  | .direct call => call.method.name
  | .deferred command => command.name

/-- The arguments that were captured. -/
def args : Action ι β → List Value
  | .direct call => call.args
  | .deferred command => command.invocation.args

end Action

/-- What to do for a call. -/
structure ActionSet (ι β : Type) where
  command : Action ι β
  fallback : Option (Action ι β)
  cacheKey : Option (Action ι β)

namespace ActionSet

/-- There is a fallback. -/
def hasFallback (s : ActionSet ι β) : Bool := s.fallback.isSome

/-- The actions that there are. -/
def toList (s : ActionSet ι β) : List (Action ι β) :=
  s.command :: (s.fallback.toList ++ s.cacheKey.toList)

end ActionSet

/-- The keys of a command and the overlay of its pool. -/
structure Identity where
  groupKey : String
  commandKey : String
  poolKey : String
  pool : Option PoolOverlay
  deriving DecidableEq, Inhabited

/-- The key of the pool to use: the declared one, or else the command key. -/
def Identity.effectivePoolKey (i : Identity) : String := declaredOr i.poolKey i.commandKey

/-- All that an engine has to know to run a command. -/
structure Plan (ι β : Type) where
  identity : Identity
  actions : ActionSet ι β
  options : OptionMap
  ignoredErrors : List String
  mode : ExecutionMode

end ProtectedCall
