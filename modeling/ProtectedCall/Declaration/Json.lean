import ProtectedCall.Declaration
import ProtectedCall.Signature.Json

/-!
# Declarations as JSON

A declaration is written as an object with all its fields. It is read from an object that gives
any of them, in any order, or from the list of the first few.

* `Setting.read`, `CommandDecl.read`, `CollapseDecl.read`: the readers, and `toJson` for each.
* `Setting.ofJsonText`, `CommandDecl.ofJsonText`, `CollapseDecl.ofJsonText`: whole texts.
-/

namespace ProtectedCall

open Json

namespace Setting

/-- Settings give both their name and their value. -/
def form : RecordForm Setting where
  name := "PropertyEntry"
  fields :=
    [.of "name" readString fun s x => { s with name := x },
      .of "value" readString fun s x => { s with value := x }]
  initial := ⟨"", ""⟩
  allRequired := true

/-- Reads a setting. -/
def read : Reader Setting := readRecord form

/-- The setting of a JSON text. -/
def ofJsonText (text : String) : Except Fault Setting := readWhole read text

/-- The document of a setting. -/
def toJson (s : Setting) : Json := .object [("name", .string s.name), ("value", .string s.value)]

end Setting

namespace CommandDecl

/-- The fields of a command declaration. -/
def form : RecordForm CommandDecl where
  name := "CommandAnnotation"
  fields :=
    [.of "groupKey" readString fun d x => { d with groupKey := x },
      .of "commandKey" readString fun d x => { d with commandKey := x },
      .of "threadPoolKey" readString fun d x => { d with poolKey := x },
      .of "fallbackMethod" readString fun d x => { d with fallbackName := x },
      .of "commandProperties" (readList Setting.read) fun d x => { d with options := x },
      .of "threadPoolProperties" (readList Setting.read) fun d x => { d with poolSettings := x },
      .of "ignoreExceptions" (readList readString) fun d x => { d with ignoredErrors := x }]
  initial := {}

/-- Reads a command declaration. -/
def read : Reader CommandDecl := readRecord form

/-- The command declaration of a JSON text. -/
def ofJsonText (text : String) : Except Fault CommandDecl := readWhole read text

/-- The document of a command declaration. -/
def toJson (d : CommandDecl) : Json :=
  .object
    [("groupKey", .string d.groupKey),
      ("commandKey", .string d.commandKey),
      ("threadPoolKey", .string d.poolKey),
      ("fallbackMethod", .string d.fallbackName),
      ("commandProperties", .array (d.options.map Setting.toJson)),
      ("threadPoolProperties", .array (d.poolSettings.map Setting.toJson)),
      ("ignoreExceptions", .array (d.ignoredErrors.map Json.string))]

end CommandDecl

namespace CollapseScope

/-- The names of scopes. -/
def choices : List (String × CollapseScope) := [("request", .request), ("global", .global)]

/-- The document of a scope. -/
def toJson (s : CollapseScope) : Json := .string (choiceName choices s)

/-- Reads a scope. -/
def read : Reader CollapseScope := readChoice choices

end CollapseScope

namespace CollapseDecl

/-- The fields of a collapser declaration. -/
def form : RecordForm CollapseDecl where
  name := "CollapserAnnotation"
  fields :=
    [.of "collapserKey" readString fun d x => { d with key := x },
      .of "batchMethod" readString fun d x => { d with batchMethod := x },
      .of "scope" CollapseScope.read fun d x => { d with scope := x },
      .of "collapserProperties" (readList Setting.read) fun d x => { d with options := x }]
  initial := {}

/-- Reads a collapser declaration. -/
def read : Reader CollapseDecl := readRecord form

/-- The collapser declaration of a JSON text. -/
def ofJsonText (text : String) : Except Fault CollapseDecl := readWhole read text

/-- The document of a collapser declaration. -/
def toJson (d : CollapseDecl) : Json :=
  .object
    [("collapserKey", .string d.key),
      ("batchMethod", .string d.batchMethod),
      ("scope", d.scope.toJson),
      ("collapserProperties", .array (d.options.map Setting.toJson))]

end CollapseDecl

end ProtectedCall
