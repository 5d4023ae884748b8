import ProtectedCall.Registry

/-!
# Building a registry

Methods are registered in blocks, one for each mention of a service. A service may be mentioned
several times.

* `MethodDecl`, `Service`: a method as declared to its service, and such a block.
* `Registry.Builder`: the table of methods so far and the signatures that came once more.
* `Registry.Builder.freeze`: the table with links, unless a signature came once more.
-/

namespace ProtectedCall

variable {β : Type}

/-- A method as declared to a service, which owns it. -/
structure MethodDecl (β : Type) where
  name : String
  params : List ParamKind
  returns : ReturnShape := .value
  command : Option CommandDecl := none
  collapser : Option CollapseDecl := none
  body : β
  deriving DecidableEq, Inhabited

/-- The method of that owner. -/
def MethodDecl.ownedBy (d : MethodDecl β) (owner : String) : Registration β where
  signature := ⟨owner, d.name, d.params⟩
  returns := d.returns
  command := d.command
  collapser := d.collapser
  body := d.body

/-- One mention of a service with the methods that it declares there. `owner` is the full name of
its type. -/
structure Service (β : Type) where
  owner : String
  methods : List (MethodDecl β)
  deriving DecidableEq, Inhabited

/-- The methods of the block in their order. -/
def Service.registrations (s : Service β) : List (Registration β) :=
  s.methods.map (·.ownedBy s.owner)

/-- The methods of all blocks in the order of their registration. -/
def Service.allRegistrations (services : List (Service β)) : List (Registration β) :=
  services.flatMap registrations

namespace Registry

/-- A registry that is being built. The table has one method for each signature; `duplicates` are
the signatures that were registered once more, in that order. -/
structure Builder (β : Type) where
  methods : List (Registration β)
  duplicates : List Signature
  distinct : (methods.map (·.signature)).Nodup
  deriving DecidableEq

namespace Builder

/-- Nothing is registered. -/
def empty : Builder β := ⟨[], [], .nil⟩

/-- Registers a method. A signature that is in the table keeps its method. -/
def insert (b : Builder β) (r : Registration β) : Builder β :=
  if known : r.signature ∈ b.methods.map (·.signature) then
    { b with duplicates := b.duplicates ++ [r.signature] }
  else
    { b with
      methods := b.methods ++ [r]
      distinct := by
        rw [List.map_append, List.nodup_append]
        refine ⟨b.distinct, by simp, ?_⟩
        rintro s hs _ ht rfl
        cases List.mem_singleton.mp ht
        exact known hs }

/-- Registers the methods of a block one after the other. -/
def service (b : Builder β) (s : Service β) : Builder β :=
  s.methods.foldl (fun b d => b.insert (d.ownedBy s.owner)) b

/-- Registers block after block. -/
def ofServices (services : List (Service β)) : Builder β := services.foldl service empty

/-- Freezes the table and links every method, unless there are duplicates: then the first one is
the error. -/
def freeze (b : Builder β) : Except CallError (Registry β) :=
  match b.duplicates.head? with
  | some s => .error (.duplicateMethod s)
  | none => .ok ⟨b.methods.map fun r => { r with link := FallbackLink.of b.methods r }⟩

end Builder

end Registry

end ProtectedCall
