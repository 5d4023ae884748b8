import ProtectedCall.Method

/-!
# The registry

Methods are registered once, then the registry is frozen. Freezing refuses a repeated signature and
links every command to its fallback.

* `Registration.lookup`: the registration of a signature.
* `FallbackLink.walk`, `FallbackLink.cycle?`: the command keys along a chain of fallbacks, if it
  comes back to one. Every step of the walk visits a key of a registered method for the first time,
  so there are at most as many steps as registrations.
* `FallbackLink.of`: the link of a registration.
* `Registry.freeze`, `Registry.find?`, `Registry.fallback`: the frozen registry.
-/

namespace ProtectedCall

variable {β : Type}

namespace Registration

/-- The registration of a signature. -/
def lookup (registrations : List (Registration β)) (s : Signature) : Option (Registration β) :=
  registrations.find? (·.signature = s)

/-- The key that a registration has, or would have, as a command. -/
def key (r : Registration β) : String :=
  match r.command with
  | some d => d.keyOr r.signature.name
  | none => r.signature.name

/-- The number of methods whose keys are not yet visited. -/
def unvisited (registrations : List (Registration β)) (visited : List String) : Nat :=
  registrations.countP fun r => r.key ∉ visited

theorem mem_of_lookup {registrations : List (Registration β)} {s : Signature} {r : Registration β}
    (h : lookup registrations s = some r) : r ∈ registrations :=
  List.mem_of_find?_eq_some h

theorem signature_of_lookup {registrations : List (Registration β)} {s : Signature}
    {r : Registration β} (h : lookup registrations s = some r) : r.signature = s := by
  simpa using List.find?_some h

private theorem countP_lt {α : Type} {p q : α → Bool} {a : α} {l : List α}
    (hqp : ∀ x, q x → p x) (ha : a ∈ l) (hp : p a) (hq : ¬ q a) : l.countP q < l.countP p := by
  induction l with
  | nil => cases ha
  | cons x l ih =>
    rcases List.mem_cons.mp ha with rfl | ha
    · rw [List.countP_cons_of_pos hp, List.countP_cons_of_neg hq]
      exact Nat.lt_succ_of_le (List.countP_mono_left fun x _ => hqp x)
    · have hlt := ih ha
      by_cases hx : q x
      · rw [List.countP_cons_of_pos hx, List.countP_cons_of_pos (hqp x hx)]
        exact Nat.succ_lt_succ hlt
      · rw [List.countP_cons_of_neg hx, List.countP_cons]
        exact Nat.lt_of_lt_of_le hlt (Nat.le_add_right _ _)

/-- Visiting the key of a registered method leaves fewer methods to visit. -/
theorem unvisited_lt {registrations : List (Registration β)} {visited : List String}
    {r : Registration β} (hr : r ∈ registrations) (hk : r.key ∉ visited) :
    unvisited registrations (visited ++ [r.key]) < unvisited registrations visited :=
  countP_lt (fun x => by simp +contextual) hr (by simpa using hk) (by simp)

end Registration

namespace FallbackLink

open Registration

/-- Follows fallbacks by name from a method with the signature `start`, which has the keys
`visited` behind it. The walk ends without a result at an undeclared, unregistered or plain
fallback, and with all keys when one of them comes back. -/
def walk (registrations : List (Registration β)) (start : Signature) (visited : List String)
    (next : String) : Option (List String) :=
  if next.isEmpty then none
  else
    match _found : lookup registrations (start.sibling next) with
    | none => none
    | some r =>
      match r.command with
      | none => none
      | some d =>
        if r.key ∈ visited then some (visited ++ [r.key])
        else walk registrations start (visited ++ [r.key]) d.fallbackName
termination_by unvisited registrations visited
decreasing_by exact unvisited_lt (mem_of_lookup _found) ‹_›

/-- The command keys along the chain of fallbacks from a command, if it comes back to one. -/
def cycle? (registrations : List (Registration β)) (r : Registration β) : Option (List String) :=
  match r.command with
  | none => none
  | some d => walk registrations r.signature [r.key] d.fallbackName

/-- The texts of the methods of an owner and a name, in ascending order. -/
def overloads (registrations : List (Registration β)) (owner name : String) : List String :=
  let named := registrations.filter fun r => r.signature.owner = owner && r.signature.name = name
  (named.map (·.signature.text)).mergeSort (· ≤ ·)

/-- The link of a registration. The fallback has the same owner and the same parameters. -/
def of (registrations : List (Registration β)) (r : Registration β) : FallbackLink :=
  match r.command with
  | none => .undeclared
  | some d =>
    if d.fallbackName.isEmpty then .undeclared
    else
      match lookup registrations (r.signature.sibling d.fallbackName) with
      | some fallback => .linked fallback.signature (cycle? registrations r)
      | none =>
        .missing d.fallbackName (overloads registrations r.signature.owner d.fallbackName)

end FallbackLink

/-- A frozen set of methods, in the order of their registration. -/
structure Registry (β : Type) where
  methods : List (Method β)
  deriving DecidableEq, Inhabited

namespace Registry

/-- The registry without methods. -/
def empty : Registry β := ⟨[]⟩

/-- The first element that equals an earlier one, where `seen` are the earlier ones. -/
def firstRepeated? (seen : List Signature) : List Signature → Option Signature
  | [] => none
  | s :: rest => if s ∈ seen then some s else firstRepeated? (s :: seen) rest

/-- Freezes registrations. The first one that repeats an earlier signature is an error; missing
and cyclic fallbacks are only recorded. -/
def freeze (registrations : List (Registration β)) : Except CallError (Registry β) :=
  match firstRepeated? [] (registrations.map (·.signature)) with
  | some s => .error (.duplicateMethod s)
  | none => .ok ⟨registrations.map fun r => { r with link := FallbackLink.of registrations r }⟩

/-- The method of exactly that signature. -/
def find? (registry : Registry β) (s : Signature) : Option (Method β) :=
  registry.methods.find? (·.signature = s)

/-- The number of methods. -/
def size (registry : Registry β) : Nat := registry.methods.length

/-- There are no methods. -/
def isEmpty (registry : Registry β) : Bool := registry.methods.isEmpty

/-- The fallback of a method, as it was linked, if one is declared. The method may come from a
registry that is gone by now, and then so is its fallback. -/
def fallback (registry : Registry β) (m : Method β) : Except CallError (Option (Method β)) :=
  match m.link with
  | .undeclared => .ok none
  | .missing name overloads =>
    .error (.noSuchFallback m.owner name m.signature.params overloads)
  | .linked s _ =>
    match registry.find? s with
    | some fallback => .ok (some fallback)
    | none => .error (.invalidInvocation (.droppedRegistry m.signature))

end Registry

end ProtectedCall
