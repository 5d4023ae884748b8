import ProtectedCall.Registry

/-!
# Captured calls

* `Invocation`: a call with everything that resolution needs to know about it.
* `Invocation.Draft`: what an interceptor has supplied so far.
* `Invocation.Draft.build`: checks a draft and fills in defaults. A key that is supplied empty
  counts as not supplied, while a collapser that is supplied as absent stays absent.
* `Invocation.withArgs`: the same call with other arguments.
* `Invocation.ofCall`: a call with all defaults.
-/

namespace ProtectedCall

variable {ι β : Type}

/-- A call as captured. The three default keys stand in for keys that are not declared. -/
structure Invocation (ι β : Type) where
  target : Target ι
  method : Method β
  args : List Value
  collapser : Option CollapseDecl
  groupKey : String
  commandKey : String
  collapserKey : String
  cacheKeyMethod : Option (Method β)
  mode : ExecutionMode

namespace Invocation

/-- The command declaration of the method. Links were made from it, so no other takes its place. -/
def command (inv : Invocation ι β) : Option CommandDecl := inv.method.command

/-- The same call with other arguments. -/
def withArgs (inv : Invocation ι β) (args : List Value) : Except CallError (Invocation ι β) := do
  inv.method.signature.checkArgs args
  return { inv with args }

/-- What has been supplied about a call so far. -/
structure Draft (ι β : Type) where
  target : Option (Target ι) := none
  method : Option (Method β) := none
  args : List Value := []
  collapser : Option (Option CollapseDecl) := none
  groupKey : Option String := none
  commandKey : Option String := none
  collapserKey : Option String := none
  cacheKeyMethod : Option (Method β) := none
  mode : Option ExecutionMode := none

/-- A supplied key, unless it is empty. -/
def keyOr (supplied : Option String) (default : String) : String :=
  declaredOr (supplied.getD "") default

namespace Draft

/-- Supplies the target. -/
def withTarget (d : Draft ι β) (target : Target ι) : Draft ι β := { d with target := some target }

/-- Supplies the method. -/
def withMethod (d : Draft ι β) (method : Method β) : Draft ι β := { d with method := some method }

/-- Supplies the arguments. -/
def withArgs (d : Draft ι β) (args : List Value) : Draft ι β := { d with args }

/-- Supplies the collapser, or that there is none. -/
def withCollapser (d : Draft ι β) (collapser : Option CollapseDecl) : Draft ι β :=
  { d with collapser := some collapser }

/-- Supplies the default group key. -/
def withGroupKey (d : Draft ι β) (key : String) : Draft ι β := { d with groupKey := some key }

/-- Supplies the default command key. -/
def withCommandKey (d : Draft ι β) (key : String) : Draft ι β := { d with commandKey := some key }

/-- Supplies the default collapser key. -/
def withCollapserKey (d : Draft ι β) (key : String) : Draft ι β :=
  { d with collapserKey := some key }

/-- Supplies the method that computes the cache key. -/
def withCacheKeyMethod (d : Draft ι β) (method : Method β) : Draft ι β :=
  { d with cacheKeyMethod := some method }

/-- Supplies the execution mode. -/
def withMode (d : Draft ι β) (mode : ExecutionMode) : Draft ι β := { d with mode := some mode }

/-- Checks that a method belongs to a target and takes the arguments. -/
def check (target : Target ι) (args : List Value) (method : Method β) : Except CallError Unit := do
  method.checkOwner target
  method.signature.checkArgs args

/-- The captured call, if everything fits. The method is checked before the cache-key method. -/
def build (d : Draft ι β) : Except CallError (Invocation ι β) :=
  match d.target, d.method with
  | none, _ => .error (.invalidInvocation .targetRequired)
  | some _, none => .error (.invalidInvocation .methodRequired)
  | some target, some method => do
    check target d.args method
    if let some cacheKey := d.cacheKeyMethod then check target d.args cacheKey
    return {
      target, method
      args := d.args
      collapser := d.collapser.getD method.collapser
      groupKey := keyOr d.groupKey target.shortTypeName
      commandKey := keyOr d.commandKey method.name
      collapserKey := keyOr d.collapserKey method.name
      cacheKeyMethod := d.cacheKeyMethod
      mode := d.mode.getD (.ofShape method.returns) }

end Draft

/-- A call with all defaults. -/
def ofCall (target : Target ι) (method : Method β) (args : List Value) :
    Except CallError (Invocation ι β) :=
  (({} : Draft ι β).withTarget target |>.withMethod method |>.withArgs args).build

/-- The draft of a call's fallback. It keeps target, arguments, collapser and the default group and
collapser keys; the default command key and the mode are the fallback's own. -/
def fallbackDraft (inv : Invocation ι β) (fallback : Method β) : Draft ι β :=
  ({} : Draft ι β).withTarget inv.target |>.withMethod fallback |>.withArgs inv.args
    |>.withCollapser inv.collapser |>.withGroupKey inv.groupKey
    |>.withCommandKey fallback.name |>.withCollapserKey inv.collapserKey

end Invocation

end ProtectedCall
