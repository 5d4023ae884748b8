import ProtectedCall.Text.TypeName

/-!
# Targets

* `Target`: a reference to the instance that a method is called on. `ι` is what instances hold.
* `Target.downcast?`: what the instance holds, for those who know its type.
* `Target.sameInstance`: whether two references lead to one instance.
-/

namespace ProtectedCall

/-- A reference to an instance: the full name of its type, its identity and what it holds. -/
structure Target (ι : Type) where
  typeName : String
  identity : Nat
  state : ι
  deriving DecidableEq, Inhabited

namespace Target

variable {ι : Type}

/-- The last segment of the type name, without generic arguments. -/
def shortTypeName (t : Target ι) : String := Text.shortTypeName t.typeName

/-- What the instance holds, if it is of the type. -/
def downcast? (t : Target ι) (typeName : String) : Option ι :=
  if t.typeName = typeName then some t.state else none

/-- Both references lead to one instance. -/
def sameInstance (a b : Target ι) : Bool := a.identity == b.identity

end Target

end ProtectedCall
