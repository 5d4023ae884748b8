import ProtectedCall.Declaration.Json
import ProtectedCall.Proofs.Layouts

/-!
# Texts of declarations

A declaration is read back from its text, and from every other text that lays it out as an object.

* `Setting.filling`, `CommandDecl.filling`, `CollapseDecl.filling`: how settings and declarations
  are written and read field by field.
* `declarations_survive`: what follows for the texts of declarations of both kinds.
-/

namespace ProtectedCall

open Decimal Json

/-! ## Lists of written things -/

theorem Json.itemsAllNumerals_map {α : Type} {p : Numeral → Prop} {write : α → Json}
    (h : ∀ x, (write x).AllNumerals p) (xs : List α) : ItemsAllNumerals p (xs.map write) := by
  induction xs with
  | nil => trivial
  | cons x xs ih => exact ⟨h x, ih⟩

theorem Json.readList_map_takes {α : Type} {item : Reader α} {write : α → Json}
    (h : ∀ x, Takes item (write x) x) (xs : List α) :
    Takes (readList item) (.array (xs.map write)) xs :=
  readList_takes (List.forall₂_map_left_iff.mpr (List.forall₂_same.mpr fun x _ => h x))

/-! ## Settings -/

namespace Setting

/-- The members that a setting is written with. -/
def members (s : Setting) : List (String × Json) :=
  [("name", .string s.name), ("value", .string s.value)]

/-- The setting of which some fields are known. -/
def given (s : Setting) (seen : List String) : Setting where
  name := if "name" ∈ seen then s.name else ""
  value := if "value" ∈ seen then s.value else ""

theorem filling : form.Filling members given where
  distinct := by decide
  initial _ := rfl
  fills s := by
    refine .cons ⟨rfl, fun seen => ?_⟩ (.cons ⟨rfl, fun seen => ?_⟩ .nil)
    · exact Field.of_takes (readString_takes s.name) (by simp [given])
    · exact Field.of_takes (readString_takes s.value) (by simp [given])
  full s seen h := by
    simp only [members, form, List.mem_cons, List.not_mem_nil, or_false, forall_eq_or_imp,
      forall_eq, Prod.mk.injEq] at h
    cases s
    simp only [given, mk.injEq, ite_eq_left_iff]
    simpa [eq_comm] using h
  aligned := by
    simp only [form, List.mem_cons, List.not_mem_nil, or_false, forall_eq_or_imp, forall_eq]
    exact ⟨Field.of_aligned readString_aligned, Field.of_aligned readString_aligned⟩
  wellFormed _ := ⟨trivial, trivial, trivial⟩

theorem readList_takes (settings : List Setting) :
    Takes (readList read) (.array (settings.map toJson)) settings :=
  readList_map_takes filling.takes_members settings

theorem readList_aligned : Aligned (readList read) :=
  Json.readList_aligned (readRecord_aligned filling.aligned)

theorem itemsAllNumerals (p : Numeral → Prop) (settings : List Setting) :
    ItemsAllNumerals p (settings.map toJson) := by
  have all (s : Setting) : s.toJson.AllNumerals p := ⟨trivial, trivial, trivial⟩
  exact itemsAllNumerals_map all settings

end Setting

/-! ## Command declarations -/

namespace CommandDecl

/-- The members that a command declaration is written with. -/
def members (d : CommandDecl) : List (String × Json) :=
  [("groupKey", .string d.groupKey),
    ("commandKey", .string d.commandKey),
    ("threadPoolKey", .string d.poolKey),
    ("fallbackMethod", .string d.fallbackName),
    ("commandProperties", .array (d.options.map Setting.toJson)),
    ("threadPoolProperties", .array (d.poolSettings.map Setting.toJson)),
    ("ignoreExceptions", .array (d.ignoredErrors.map Json.string))]

/-- The command declaration of which some fields are known. -/
def given (d : CommandDecl) (seen : List String) : CommandDecl where
  groupKey := if "groupKey" ∈ seen then d.groupKey else ""
  commandKey := if "commandKey" ∈ seen then d.commandKey else ""
  poolKey := if "threadPoolKey" ∈ seen then d.poolKey else ""
  fallbackName := if "fallbackMethod" ∈ seen then d.fallbackName else ""
  options := if "commandProperties" ∈ seen then d.options else []
  poolSettings := if "threadPoolProperties" ∈ seen then d.poolSettings else []
  ignoredErrors := if "ignoreExceptions" ∈ seen then d.ignoredErrors else []

theorem toJson_eq (d : CommandDecl) : d.toJson = .object d.members := rfl

theorem filling : form.Filling members given where
  distinct := by decide
  initial _ := rfl
  fills d := by
    refine .cons ⟨rfl, fun seen => ?_⟩ (.cons ⟨rfl, fun seen => ?_⟩ (.cons ⟨rfl, fun seen => ?_⟩
      (.cons ⟨rfl, fun seen => ?_⟩ (.cons ⟨rfl, fun seen => ?_⟩ (.cons ⟨rfl, fun seen => ?_⟩
        (.cons ⟨rfl, fun seen => ?_⟩ .nil))))))
    · exact Field.of_takes (readString_takes d.groupKey) (by simp [given])
    · exact Field.of_takes (readString_takes d.commandKey) (by simp [given])
    · exact Field.of_takes (readString_takes d.poolKey) (by simp [given])
    · exact Field.of_takes (readString_takes d.fallbackName) (by simp [given])
    · exact Field.of_takes (Setting.readList_takes d.options) (by simp [given])
    · exact Field.of_takes (Setting.readList_takes d.poolSettings) (by simp [given])
    · exact Field.of_takes (readList_map_takes readString_takes d.ignoredErrors) (by simp [given])
  full d seen h := by
    simp only [members, form, List.mem_cons, List.not_mem_nil, or_false, forall_eq_or_imp,
      forall_eq, Prod.mk.injEq] at h
    cases d
    simp only [given, mk.injEq, ite_eq_left_iff]
    simpa [eq_comm] using h
  aligned := by
    simp only [form, List.mem_cons, List.not_mem_nil, or_false, forall_eq_or_imp, forall_eq]
    have strings := readList_aligned readString_aligned
    exact ⟨Field.of_aligned readString_aligned, Field.of_aligned readString_aligned,
      Field.of_aligned readString_aligned, Field.of_aligned readString_aligned,
      Field.of_aligned Setting.readList_aligned, Field.of_aligned Setting.readList_aligned,
      Field.of_aligned strings⟩
  wellFormed d := by
    have strings (s : String) : (Json.string s).AllNumerals Numeral.WellFormed := trivial
    exact ⟨trivial, trivial, trivial, trivial, Setting.itemsAllNumerals _ d.options,
      Setting.itemsAllNumerals _ d.poolSettings, itemsAllNumerals_map strings d.ignoredErrors,
      trivial⟩

end CommandDecl

/-! ## Collapser declarations -/

theorem CollapseScope.read_takes (scope : CollapseScope) : Takes read scope.toJson scope := by
  cases scope <;> exact readChoice_takes rfl

theorem CollapseScope.eq_request {scope : CollapseScope}
    (h : scope.toJson = CollapseScope.request.toJson) : scope = .request := by
  cases scope with
  | request => rfl
  | global => exact absurd (Json.string.inj h) (by decide)

namespace CollapseDecl

/-- The members that a collapser declaration is written with. -/
def members (d : CollapseDecl) : List (String × Json) :=
  [("collapserKey", .string d.key),
    ("batchMethod", .string d.batchMethod),
    ("scope", d.scope.toJson),
    ("collapserProperties", .array (d.options.map Setting.toJson))]

/-- The collapser declaration of which some fields are known. -/
def given (d : CollapseDecl) (seen : List String) : CollapseDecl where
  key := if "collapserKey" ∈ seen then d.key else ""
  batchMethod := if "batchMethod" ∈ seen then d.batchMethod else ""
  scope := if "scope" ∈ seen then d.scope else .request
  options := if "collapserProperties" ∈ seen then d.options else []

theorem toJson_eq (d : CollapseDecl) : d.toJson = .object d.members := rfl

theorem filling : form.Filling members given where
  distinct := by decide
  initial _ := rfl
  fills d := by
    refine .cons ⟨rfl, fun seen => ?_⟩ (.cons ⟨rfl, fun seen => ?_⟩ (.cons ⟨rfl, fun seen => ?_⟩
      (.cons ⟨rfl, fun seen => ?_⟩ .nil)))
    · exact Field.of_takes (readString_takes d.key) (by simp [given])
    · exact Field.of_takes (readString_takes d.batchMethod) (by simp [given])
    · exact Field.of_takes d.scope.read_takes (by simp [given])
    · exact Field.of_takes (Setting.readList_takes d.options) (by simp [given])
  full d seen h := by
    simp only [members, form, List.mem_cons, List.not_mem_nil, or_false, forall_eq_or_imp,
      forall_eq, Prod.mk.injEq] at h
    obtain ⟨hkey, hbatch, hscope, hoptions⟩ := h
    have hrequest : "scope" ∉ seen → d.scope = .request := fun hs =>
      CollapseScope.eq_request (by simpa using hscope hs)
    cases d
    simp only [given, mk.injEq, ite_eq_left_iff]
    simp_all [eq_comm]
  aligned := by
    simp only [form, List.mem_cons, List.not_mem_nil, or_false, forall_eq_or_imp, forall_eq]
    exact ⟨Field.of_aligned readString_aligned, Field.of_aligned readString_aligned,
      Field.of_aligned (readChoice_aligned _), Field.of_aligned Setting.readList_aligned⟩
  wellFormed d :=
    ⟨trivial, trivial, trivial, Setting.itemsAllNumerals _ d.options, trivial⟩

end CollapseDecl

/-! ## Both kinds -/

/-- Declarations survive JSON, however the object is laid out. A declaration is read back from its
own text. It is also read from every spelling of every object whose members are some of its fields
with their values, in any order and each at most once, at least those that differ from the default,
among any members of other names. But an object that gives a field twice is refused as a
configuration. -/
theorem declarations_survive :
    (∀ d : CommandDecl,
      CommandDecl.ofJsonText d.toJson.text = .ok d ∧
      ∀ ms text, SpellsWhole (.object ms) text →
        CommandDecl.form.LaysOut ({} : CommandDecl).members d.members ms →
        CommandDecl.ofJsonText text = .ok d) ∧
    (∀ d : CollapseDecl,
      CollapseDecl.ofJsonText d.toJson.text = .ok d ∧
      ∀ ms text, SpellsWhole (.object ms) text →
        CollapseDecl.form.LaysOut ({} : CollapseDecl).members d.members ms →
        CollapseDecl.ofJsonText text = .ok d) ∧
    ∀ ms text, SpellsWhole (.object ms) text →
      (∀ name ∈ CommandDecl.form.names, 2 ≤ (ms.map (·.1)).count name →
        ∃ fault, (CommandDecl.ofJsonText text).mapError CallError.ofFault =
          .error (.invalidConfig (.json fault))) ∧
      ∀ name ∈ CollapseDecl.form.names, 2 ≤ (ms.map (·.1)).count name →
        ∃ fault, (CollapseDecl.ofJsonText text).mapError CallError.ofFault =
          .error (.invalidConfig (.json fault)) := by
  refine ⟨fun d => ⟨?_, fun ms text spelled layout => ?_⟩,
    fun d => ⟨?_, fun ms text spelled layout => ?_⟩,
    fun ms text spelled => ⟨fun name field twice => ?_, fun name field twice => ?_⟩⟩
  · rw [CommandDecl.toJson_eq]
    exact CommandDecl.filling.readWhole_text d
  · exact readWhole_takes (CommandDecl.filling.takes rfl layout) spelled
  · rw [CollapseDecl.toJson_eq]
    exact CollapseDecl.filling.readWhole_text d
  · exact readWhole_takes (CollapseDecl.filling.takes rfl layout) spelled
  · obtain ⟨fault, hfault⟩ := CommandDecl.filling.refuses field twice spelled
    exact ⟨fault, by rw [CommandDecl.ofJsonText, CommandDecl.read, hfault]; rfl⟩
  · obtain ⟨fault, hfault⟩ := CollapseDecl.filling.refuses field twice spelled
    exact ⟨fault, by rw [CollapseDecl.ofJsonText, CollapseDecl.read, hfault]; rfl⟩

/-! ## A note -/

namespace Note

/-- A declared fallback behind a member of another name. -/
def members : List (String × Json) := [("note", .array [.null]), ("fallbackMethod", .string "stay")]

/-- The same fallback declared twice. -/
def twice : List (String × Json) := [("fallbackMethod", .string "stay"), ("fallbackMethod", .null)]

theorem declarations_survive_note :
    SpellsWhole (.object members) "\x7b\"note\":[null],\"fallbackMethod\":\"stay\"\x7d" ∧
      CommandDecl.form.LaysOut ({} : CommandDecl).members
        ({ fallbackName := "stay" } : CommandDecl).members members ∧
      CommandDecl.ofJsonText "\x7b\"note\":[null],\"fallbackMethod\":\"stay\"\x7d" =
        .ok { fallbackName := "stay" } ∧
      ∃ fault, (CommandDecl.ofJsonText (Json.object twice).text).mapError CallError.ofFault =
        .error (.invalidConfig (.json fault)) := by
  have spelled : SpellsWhole (.object members)
      "\x7b\"note\":[null],\"fallbackMethod\":\"stay\"\x7d" :=
    spellsWhole_text ⟨⟨trivial, trivial⟩, trivial, trivial⟩
  have spelledTwice : SpellsWhole (.object twice) (Json.object twice).text :=
    spellsWhole_text ⟨trivial, trivial, trivial⟩
  have layout : CommandDecl.form.LaysOut ({} : CommandDecl).members
      ({ fallbackName := "stay" } : CommandDecl).members members := by
    constructor
    · refine List.singleton_subperm_iff.mpr ?_
      simp [CommandDecl.members]
    · simp [CommandDecl.members, members]
  obtain ⟨commands, -, refused⟩ := declarations_survive
  exact ⟨spelled, layout, (commands _).2 _ _ spelled layout,
    (refused _ _ spelledTwice).1 "fallbackMethod" (by decide) (by decide)⟩

end Note

end ProtectedCall
