import ProtectedCall.Proofs.Digits
import ProtectedCall.Value.Json

/-!
# Texts of values

A value is read back from its text as it was, whatever kind it has, unless it holds a float or its
lists nest too deep.

* `Value.FloatFree`, `Value.nesting`: no float at any depth, and how deep lists nest.
* `Value.ofJson?_toJson`: the document of a value stands for that value alone.
* `Value.read_takes`: a value is read from every spelling of its document.
* `Value.ofJsonText_jsonText`: it is read from its own text.
-/

namespace ProtectedCall

open Decimal Json

namespace Value

mutual

/-- There is no float in the value, at any depth. -/
def FloatFree : Value → Prop
  | .float _ => False
  | .list items => ItemsFloatFree items
  | _ => True

/-- There is no float in the items. -/
def ItemsFloatFree : List Value → Prop
  | [] => True
  | item :: items => item.FloatFree ∧ ItemsFloatFree items

end

mutual

/-- How deep lists nest. -/
def nesting : Value → Nat
  | .list items => itemsNesting items + 1
  | _ => 0

/-- How deep the items nest. -/
def itemsNesting : List Value → Nat
  | [] => 0
  | item :: items => max item.nesting (itemsNesting items)

end

/-- A whole number is within the bounds of signed 64 bits. -/
theorem integer_bounds (n : Int64) :
    -0x8000000000000000 ≤ n.toInt ∧ n.toInt < significandBound := by
  have hlow := n.le_toInt
  have hhigh := n.toInt_lt
  unfold significandBound
  omega

mutual

/-- The document nests as deep as the value. -/
theorem nesting_toJson : ∀ v : Value, v.toJson.nesting = v.nesting
  | .null => rfl
  | .integer _ => rfl
  | .float x => by
    rw [toJson, Json.ofFloat]
    cases floatNumeral? x <;> rfl
  | .text _ => rfl
  | .boolean _ => rfl
  | .list items => by rw [toJson, Json.nesting, nesting, nesting_toJsonItems]

theorem nesting_toJsonItems : ∀ items : List Value,
    Json.itemsNesting (toJsonItems items) = itemsNesting items
  | [] => rfl
  | item :: items => by
    rw [toJsonItems, Json.itemsNesting, itemsNesting, nesting_toJson, nesting_toJsonItems]

end

mutual

/-- The numerals of the document are those of whole numbers. -/
theorem allNumerals_toJson {p : Numeral → Prop} (h : ∀ n : Int64, p (.ofInt n.toInt)) :
    ∀ v : Value, v.FloatFree → v.toJson.AllNumerals p
  | .null, _ => trivial
  | .integer n, _ => h n
  | .text _, _ => trivial
  | .boolean _, _ => trivial
  | .list items, free => by
    rw [toJson, AllNumerals]
    exact allNumerals_toJsonItems h items free

theorem allNumerals_toJsonItems {p : Numeral → Prop} (h : ∀ n : Int64, p (.ofInt n.toInt)) :
    ∀ items : List Value, ItemsFloatFree items → ItemsAllNumerals p (toJsonItems items)
  | [], _ => trivial
  | item :: items, free => by
    rw [toJsonItems, ItemsAllNumerals]
    exact ⟨allNumerals_toJson h item free.1, allNumerals_toJsonItems h items free.2⟩

end

theorem ofNumber_integer (n : Int64) : ofNumber (.integer n.toInt) = .integer n := by
  rw [ofNumber, if_pos, Int64.ofInt_toInt]
  simp only [Bool.and_eq_true, decide_eq_true_eq]
  exact ⟨n.minValue_le_toInt, n.toInt_le⟩

mutual

/-- The document of a value stands for that value and for no other. -/
theorem ofJson?_toJson : ∀ v : Value, v.FloatFree → ofJson? v.toJson = some v
  | .null, _ => rfl
  | .integer n, _ => by
    obtain ⟨hlow, hhigh⟩ := integer_bounds n
    rw [toJson, Json.ofInt, ofJson?, Number.ofNumeral?_ofInt hlow hhigh, Option.map_some,
      ofNumber_integer]
  | .text _, _ => rfl
  | .boolean _, _ => rfl
  | .list items, free => by
    rw [toJson, ofJson?, ofJsonItems?_toJsonItems items free, Option.map_some]

theorem ofJsonItems?_toJsonItems : ∀ items : List Value, ItemsFloatFree items →
    ofJsonItems? (toJsonItems items) = some items
  | [], _ => rfl
  | item :: items, free => by
    rw [toJsonItems, ofJsonItems?, ofJson?_toJson item free.1,
      ofJsonItems?_toJsonItems items free.2]
    rfl

end

/-- A value is read from every spelling of its document. -/
theorem read_takes {v : Value} (free : v.FloatFree) (deep : v.nesting ≤ nestingLimit) :
    Takes read v.toJson v := by
  intro cs start rest gap spelled
  have range : v.toJson.AllNumerals InRange := by
    refine allNumerals_toJson (fun n => ?_) v free
    obtain ⟨hlow, hhigh⟩ := integer_bounds n
    rw [InRange, Number.ofNumeral?_ofInt hlow hhigh]
    rfl
  rw [← nesting_toJson] at deep
  have hdocument := readDocument_takes deep range _ _ _ gap spelled
  simp [read, hdocument, ofJson?_toJson v free]

/-- Reading undoes writing: a value without floats whose lists nest at most 127 deep is what its
text is read as. No kind turns into another, and no character is lost. -/
theorem ofJsonText_jsonText {v : Value} (free : v.FloatFree) (deep : v.nesting ≤ 127) :
    ofJsonText v.jsonText = .ok v :=
  readWhole_takes (read_takes free deep)
    (spellsWhole_text (allNumerals_toJson (fun _ => Numeral.ofInt_wellFormed _) v free))

/-- A list with a text that is all escapes, and with the least whole number inside. -/
def parcel : Value :=
  .list [.text "\"\\\n\x01é", .list [.integer Int64.minValue, .null], .boolean true]

theorem ofJsonText_jsonText_parcel :
    parcel.FloatFree ∧ parcel.nesting ≤ 127 ∧
      parcel.jsonText = "[\"\\\"\\\\\\n\\u0001é\",[-9223372036854775808,null],true]" ∧
      ofJsonText parcel.jsonText = .ok parcel := by
  have free : parcel.FloatFree := ⟨trivial, ⟨trivial, trivial, trivial⟩, trivial, trivial⟩
  have deep : parcel.nesting ≤ 127 := by decide
  exact ⟨free, deep, by decide +kernel, ofJsonText_jsonText free deep⟩

end Value

end ProtectedCall
