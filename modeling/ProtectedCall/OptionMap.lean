import ProtectedCall.Declaration
import ProtectedCall.Json.Basic

/-!
# Options of a command

* `OptionMap`: names with their values, in ascending order of the names. The order is that of code
  points, which is also the order of the UTF-8 bytes.
* `OptionMap.ofSettings`: of several settings of one name the last one counts.
* `OptionMap.get?`, `OptionMap.contains`: looking a name up.

Neither names nor values are checked; the engine knows what they mean.
-/

namespace ProtectedCall

/-- Names with their values, in ascending order of the names. -/
structure OptionMap where
  entries : List (String × String)
  deriving DecidableEq, Inhabited

namespace OptionMap

/-- The map without entries. -/
def empty : OptionMap := ⟨[]⟩

/-- Puts a value at its name's place, where it replaces an older one. -/
def insertEntry (name value : String) : List (String × String) → List (String × String)
  | [] => [(name, value)]
  | (first, old) :: rest =>
    if name < first then (name, value) :: (first, old) :: rest
    else if name = first then (name, value) :: rest
    else (first, old) :: insertEntry name value rest

/-- Gives a name a value. -/
def insert (m : OptionMap) (name value : String) : OptionMap :=
  ⟨insertEntry name value m.entries⟩

/-- The map of declared settings. -/
def ofSettings (settings : List Setting) : OptionMap :=
  settings.foldl (fun m s => m.insert s.name s.value) empty

/-- The value of a name. -/
def get? (m : OptionMap) (name : String) : Option String := m.entries.lookup name

private theorem lookup_cons (name value other : String) (entries : List (String × String)) :
    ((name, value) :: entries).lookup other =
      if other = name then some value else entries.lookup other := by
  rw [List.lookup_cons]
  by_cases h : other = name
  · simp [h]
  · simp [h, beq_eq_false_iff_ne.mpr h]

private theorem lookup_insertEntry (name value other : String) (entries : List (String × String)) :
    (insertEntry name value entries).lookup other =
      if other = name then some value else entries.lookup other := by
  induction entries with
  | nil => exact lookup_cons name value other []
  | cons entry rest ih =>
    obtain ⟨first, old⟩ := entry
    unfold insertEntry
    split
    · exact lookup_cons name value other _
    · split
      · rename_i h
        rw [lookup_cons, lookup_cons, h]
        split <;> rfl
      · rename_i h
        rw [lookup_cons, lookup_cons, ih]
        by_cases hf : other = first
        · rw [if_pos hf, if_pos hf, if_neg fun e => h (e.symm.trans hf)]
        · rw [if_neg hf, if_neg hf]

@[simp] theorem get?_empty (name : String) : empty.get? name = none := rfl

/-- Giving a name a value changes what is found under that name, and nothing else. -/
@[simp] theorem get?_insert (m : OptionMap) (name value other : String) :
    (m.insert name value).get? other = if other = name then some value else m.get? other :=
  lookup_insertEntry name value other m.entries

/-- The map has a value for the name. -/
def contains (m : OptionMap) (name : String) : Bool := m.entries.any (·.1 == name)

/-- The number of names. -/
def size (m : OptionMap) : Nat := m.entries.length

/-- The map has no names. -/
def isEmpty (m : OptionMap) : Bool := m.entries.isEmpty

/-- The document of a map. -/
def toJson (m : OptionMap) : Json :=
  .object (m.entries.map fun (name, value) => (name, .string value))

end OptionMap

end ProtectedCall
