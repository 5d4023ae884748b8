/-!
# Declarations

Plain data that a protected method carries. Nothing is checked here; resolution does that.

* `Setting`: a property as declared, a name and a value.
* `CommandDecl`: marks a method as a command.
* `CollapseDecl`: says that calls of a method are collapsed into batches.

An empty string means that nothing is declared. The `with` functions change one part each.
-/

namespace ProtectedCall

/-- A property as declared. -/
structure Setting where
  name : String
  value : String
  deriving DecidableEq, Inhabited

/-- Marks a method as a command. `ignoredErrors` are kinds of errors that the engine does not count
as failures. -/
structure CommandDecl where
  groupKey : String := ""
  commandKey : String := ""
  poolKey : String := ""
  fallbackName : String := ""
  options : List Setting := []
  poolSettings : List Setting := []
  ignoredErrors : List String := []
  deriving DecidableEq, Inhabited

namespace CommandDecl

/-- Declares a group key. -/
def withGroupKey (d : CommandDecl) (key : String) : CommandDecl := { d with groupKey := key }

/-- Declares a command key. -/
def withCommandKey (d : CommandDecl) (key : String) : CommandDecl := { d with commandKey := key }

/-- Declares a pool key. -/
def withPoolKey (d : CommandDecl) (key : String) : CommandDecl := { d with poolKey := key }

/-- Declares a fallback by name. -/
def withFallback (d : CommandDecl) (name : String) : CommandDecl := { d with fallbackName := name }

/-- Declares one more option of the command. -/
def withOption (d : CommandDecl) (name value : String) : CommandDecl :=
  { d with options := d.options ++ [⟨name, value⟩] }

/-- Declares one more pool setting. -/
def withPoolSetting (d : CommandDecl) (name value : String) : CommandDecl :=
  { d with poolSettings := d.poolSettings ++ [⟨name, value⟩] }

/-- Declares one more kind of errors to ignore. -/
def withIgnoredError (d : CommandDecl) (kind : String) : CommandDecl :=
  { d with ignoredErrors := d.ignoredErrors ++ [kind] }

/-- A fallback is declared. -/
def hasFallback (d : CommandDecl) : Bool := !d.fallbackName.isEmpty

end CommandDecl

/-- Which calls a collapser gathers. -/
inductive CollapseScope where
  | request
  | global
  deriving DecidableEq, Inhabited

/-- Says that calls of a method are collapsed into batches. Only the engine reads it. -/
structure CollapseDecl where
  key : String := ""
  batchMethod : String := ""
  scope : CollapseScope := .request
  options : List Setting := []
  deriving DecidableEq, Inhabited

namespace CollapseDecl

/-- A declaration that names its batch method and nothing else. -/
def ofBatchMethod (name : String) : CollapseDecl := { batchMethod := name }

/-- Declares a collapser key. -/
def withKey (d : CollapseDecl) (key : String) : CollapseDecl := { d with key := key }

/-- Declares a scope. -/
def withScope (d : CollapseDecl) (scope : CollapseScope) : CollapseDecl :=
  { d with scope := scope }

end CollapseDecl

/-- `declared`, unless it is empty. -/
def declaredOr (declared default : String) : String :=
  if declared.isEmpty then default else declared

theorem declaredOr_eq (declared default : String) :
    declaredOr declared default = if declared = "" then default else declared := by
  simp [declaredOr]

theorem declaredOr_eq_empty_iff {declared default : String} :
    declaredOr declared default = "" ↔ declared = "" ∧ default = "" := by
  rw [declaredOr_eq]
  split <;> simp_all

/-- A default that stands in for itself changes nothing. -/
@[simp] theorem declaredOr_declaredOr (declared default : String) :
    declaredOr (declaredOr declared default) default = declaredOr declared default := by
  simp only [declaredOr_eq]
  split <;> simp_all

end ProtectedCall
