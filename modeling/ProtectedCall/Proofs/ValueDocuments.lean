import ProtectedCall.Proofs.DeclarationText
import ProtectedCall.Proofs.NumberRange
import ProtectedCall.Proofs.ValueText

/-!
# Documents of values

Which documents are read as a value, and as which one. A document that holds no object has the
shape of its value. An object anywhere in it is a fault of the whole document.

* `Json.Occurs`: a document is a part of another one.
* `Numeral.WritesInteger`: a numeral of a whole number of 64 signed bits (`writesInteger_iff`).
* `Value.StandsFor`: a document has the shape of a value.
* `Value.standsFor_of_ofJson?`, `Value.isSome_ofJson?_iff`: the value of a document, and the
  documents that have one.
* `Value.ofJsonText_of_spells`, `Value.ofJsonText_of_outOfRange`: what reading comes to, in range
  and out of range.
* `Value.ofJsonText_iff_objectFree`: the whole, for every spelling, up to the double two below the
  greatest one. `Value.ofJsonText_great` is closer and is refused.
-/

namespace ProtectedCall

open Decimal Json

/-! ## Parts of documents -/

/-- The document is `part`, or it holds `part` at some depth. -/
inductive Json.Occurs (part : Json) : Json → Prop where
  | self : Occurs part part
  | item {item : Json} {items : List Json} (mem : item ∈ items) (h : Occurs part item) :
    Occurs part (.array items)
  | member {name : String} {value : Json} {members : List (String × Json)}
      (mem : (name, value) ∈ members) (h : Occurs part value) : Occurs part (.object members)

/-- There is no object in the document, at any depth. -/
def Json.ObjectFree (j : Json) : Prop := ∀ members, ¬ Occurs (.object members) j

/-- What is neither a list nor an object holds no object. -/
theorem Json.objectFree_of_flat {j : Json} (flat : j.nesting = 0) : j.ObjectFree := by
  rintro members (_ | _ | _) <;> simp [nesting] at flat

theorem Json.objectFree_array_iff {items : List Json} :
    (Json.array items).ObjectFree ↔ ∀ item ∈ items, item.ObjectFree := by
  constructor
  · exact fun free item mem members h => free members (.item mem h)
  · rintro free members (_ | ⟨mem, h⟩)
    exact free _ mem members h

theorem Json.not_objectFree_object (members : List (String × Json)) :
    ¬ (Json.object members).ObjectFree := fun free => free members .self

/-! ## Numbers -/

/-- The numeral writes the whole number: digits, perhaps behind a minus, and neither a point nor an
exponent. Minus zero is none. -/
def Decimal.Numeral.WritesInteger (n : Numeral) (z : Int64) : Prop :=
  n.fraction = [] ∧ n.exponent = none ∧ n.wholeValue = z.toInt ∧ ¬ (n.negative ∧ z = 0)

/-- The double of a number. -/
def Json.Number.toDouble : Number → Float
  | .integer n => Float.ofInt n
  | .float x => x

namespace Value

theorem writesInteger_iff {n : Numeral} {z : Int64} :
    n.WritesInteger z ↔ Number.ofNumeral? n = some (.integer z.toInt) := by
  obtain ⟨hlow, hhigh⟩ := integer_bounds z
  have hzero : z = 0 ↔ z.toInt = 0 := by rw [← Int64.toInt_inj, Int64.toInt_zero]
  rw [Number.ofNumeral?_eq_integer_iff, Numeral.WritesInteger, hzero]
  exact ⟨fun ⟨hf, he, hv, hz⟩ => ⟨hf, he, hv, hlow, hhigh, hz⟩,
    fun ⟨hf, he, hv, _, _, hz⟩ => ⟨hf, he, hv, hz⟩⟩

/-- The document has the shape of the value. Lists have as many items, and these have the shapes of
the values one by one. A number is the whole number that its numeral writes, if 64 signed bits hold
it, and a double otherwise. -/
inductive StandsFor : Json → Value → Prop where
  | null : StandsFor .null .null
  | boolean (b : Bool) : StandsFor (.boolean b) (.boolean b)
  | text (s : String) : StandsFor (.string s) (.text s)
  | integer {n : Numeral} {z : Int64} (written : n.WritesInteger z) :
    StandsFor (.number n) (.integer z)
  | float {n : Numeral} (number : Number) (other : ∀ z, ¬ n.WritesInteger z)
      (read : Number.ofNumeral? n = some number) : StandsFor (.number n) (.float number.toDouble)
  | list {items : List Json} {values : List Value} (h : List.Forall₂ StandsFor items values) :
    StandsFor (.array items) (.list values)

theorem standsFor_ofNumber {n : Numeral} {number : Number}
    (read : Number.ofNumeral? n = some number) : StandsFor (.number n) (ofNumber number) := by
  cases number with
  | float x =>
    refine .float (.float x) (fun z written => ?_) read
    rw [writesInteger_iff, read] at written
    cases written
  | integer k =>
    rw [ofNumber]
    split
    · rename_i range
      simp only [Bool.and_eq_true, decide_eq_true_eq] at range
      have hk : (Int64.ofInt k).toInt = k :=
        Int64.toInt_ofInt_of_le range.1 (Int.lt_add_one_of_le range.2)
      exact .integer (writesInteger_iff.mpr (by rw [read, hk]))
    · rename_i range
      refine .float (.integer k) (fun z written => range ?_) read
      rw [writesInteger_iff, read] at written
      cases written
      simpa using ⟨z.minValue_le_toInt, z.toInt_le⟩

/-! ## Documents -/

mutual

/-- A document has the shape of its value. -/
theorem standsFor_of_ofJson? : ∀ {j : Json} {v : Value}, ofJson? j = some v → StandsFor j v
  | .null, _, h => by
    cases h
    exact .null
  | .boolean b, _, h => by
    cases h
    exact .boolean b
  | .number n, _, h => by
    rw [ofJson?] at h
    obtain ⟨number, read, rfl⟩ := Option.map_eq_some_iff.mp h
    exact standsFor_ofNumber read
  | .string s, _, h => by
    cases h
    exact .text s
  | .array items, _, h => by
    rw [ofJson?] at h
    obtain ⟨values, hvalues, rfl⟩ := Option.map_eq_some_iff.mp h
    exact .list (forall₂_of_ofJsonItems? hvalues)
  | .object _, _, h => by cases h

theorem forall₂_of_ofJsonItems? : ∀ {items : List Json} {values : List Value},
    ofJsonItems? items = some values → List.Forall₂ StandsFor items values
  | [], _, h => by
    cases h
    exact .nil
  | item :: items, _, h => by
    rw [ofJsonItems?] at h
    obtain ⟨v, hv, h⟩ := Option.bind_eq_some_iff.mp h
    obtain ⟨vs, hvs, h⟩ := Option.bind_eq_some_iff.mp h
    obtain rfl := Option.some.inj h
    exact .cons (standsFor_of_ofJson? hv) (forall₂_of_ofJsonItems? hvs)

end

mutual

/-- A document whose numerals are in range has a value exactly if there is no object in it. -/
theorem isSome_ofJson?_iff : ∀ {j : Json}, j.AllNumerals InRange →
    ((ofJson? j).isSome ↔ j.ObjectFree)
  | .null, _ => by simpa [ofJson?] using objectFree_of_flat rfl
  | .boolean _, _ => by simpa [ofJson?] using objectFree_of_flat rfl
  | .number _, range => by
    rw [ofJson?, Option.isSome_map]
    exact iff_of_true range (objectFree_of_flat rfl)
  | .string _, _ => by simpa [ofJson?] using objectFree_of_flat rfl
  | .array items, range => by
    rw [ofJson?, Option.isSome_map, objectFree_array_iff]
    exact isSome_ofJsonItems?_iff range
  | .object members, _ => by simp [ofJson?, not_objectFree_object]

theorem isSome_ofJsonItems?_iff : ∀ {items : List Json}, ItemsAllNumerals InRange items →
    ((ofJsonItems? items).isSome ↔ ∀ item ∈ items, item.ObjectFree)
  | [], _ => by simp [ofJsonItems?]
  | item :: items, range => by
    have hitem := isSome_ofJson?_iff range.1
    have hitems := isSome_ofJsonItems?_iff range.2
    rw [List.forall_mem_cons, ← hitem, ← hitems, ofJsonItems?]
    cases ofJson? item <;> cases ofJsonItems? items <;> simp

end

/-! ## Texts -/

/-- What a text is read as depends on its document alone. -/
theorem ofJsonText_of_spells {j : Json} {text : String} (spelled : SpellsWhole j text)
    (deep : j.nesting ≤ nestingLimit) (range : j.AllNumerals InRange) :
    ofJsonText text =
      match ofJson? j with
      | some v => .ok v
      | none => .error .objectInValue := by
  obtain ⟨start, rest, hgap, hj, hrest⟩ := spelled
  have hdocument := readDocument_takes deep range _ _ _ hgap hj
  have hblank : skipBlanks rest = [] := (skipBlanks_congr hrest).trans rfl
  have hread : read text.toList =
      match ofJson? j with
      | some v => .ok (v, rest)
      | none => .error .objectInValue := by
    rw [read, hdocument]
    rfl
  rw [ofJsonText, readWhole, hread]
  cases ofJson? j with
  | some v => simp [hblank]
  | none => rfl

/-- A number that is out of range is refused as such. -/
theorem ofJsonText_of_outOfRange {n : Numeral} {text : String}
    (spelled : SpellsWhole (.number n) text) (out : Number.ofNumeral? n = none) :
    ofJsonText text = .error .numberOutOfRange := by
  obtain ⟨start, rest, gap, hj, -⟩ := spelled
  have hdocument := @readDocument_number nestingLimit _ _ _ _ gap hj
  obtain ⟨hn, -, stops⟩ := hj
  have hread : readNumber (n.chars ++ rest) = .error .numberOutOfRange := by
    simp [readNumber, numeral_append hn stops, out]
  rw [ofJsonText, readWhole, read, hdocument, hread]
  rfl

/-- A document is read as a value exactly if there is no object in it, at any depth. Then it has the
shape of the value. Otherwise the error is one of configuration, which says that no kind of value
matches. This holds however the document is spelled, if it nests at most 127 deep and its numbers
are at most the double two below the greatest one. From there on the roundings of the reader decide
whether a number is in range. -/
theorem ofJsonText_iff_objectFree {j : Json} {text : String} (spelled : SpellsWhole j text)
    (deep : j.nesting ≤ 127)
    (small : j.AllNumerals fun n => n.magnitude ≤ (2 ^ 53 - 3) * 2 ^ 971) :
    ((∃ v, ofJsonText text = .ok v) ↔ j.ObjectFree) ∧
    (∀ v, ofJsonText text = .ok v → StandsFor j v) ∧
    ∀ e, (ofJsonText text).mapError CallError.ofFault = .error e →
      ∃ fault, e = .invalidConfig fault ∧
        fault.reason = "data did not match any variant of untagged enum Value" := by
  have range : j.AllNumerals InRange := by
    obtain ⟨start, rest, -, hj, -⟩ := spelled
    exact hj.allNumerals (fun _ => inRange_of_magnitude_le) small
  rw [ofJsonText_of_spells spelled deep range, ← isSome_ofJson?_iff range]
  cases hv : ofJson? j with
  | some v =>
    refine ⟨by simp, ?_, ?_⟩
    · rintro _ ⟨⟩
      exact standsFor_of_ofJson? hv
    · rintro _ ⟨⟩
  | none =>
    refine ⟨by simp, ?_, ?_⟩
    · rintro _ ⟨⟩
    · rintro _ ⟨⟩
      exact ⟨_, rfl, rfl⟩

/-- A number of 309 digits, of which those behind the first one are given. -/
def great (digits : String) : Numeral where
  whole := ['1']
  fraction := digits.toList
  exponent := some { digits := ['3', '0', '8'] }

/-- Whole numbers at the border of 64 signed bits and beyond it, minus zero, and numbers with an
exponent, one of them close to the greatest double. -/
def border : Json :=
  .array [.number (.ofInt (-0x8000000000000000)), .number (.ofInt 0x8000000000000000),
    .number { negative := true, whole := ['0'] },
    .array [.number { whole := ['1'], exponent := some { digits := ['3'] } },
      .number (great "797693134862315300")]]

/-- An object inside two lists. -/
def hidden : Json := .array [.null, .array [.object []]]

theorem ofJsonText_iff_objectFree_border :
    SpellsWhole border
        "[-9223372036854775808,9223372036854775808,-0,[1e3,1.797693134862315300e308]]" ∧
      border.nesting ≤ 127 ∧
      (border.AllNumerals fun n => n.magnitude ≤ (2 ^ 53 - 3) * 2 ^ 971) ∧
      (∃ v, ofJsonText
          "[-9223372036854775808,9223372036854775808,-0,[1e3,1.797693134862315300e308]]" = .ok v ∧
        StandsFor border v) ∧
      SpellsWhole hidden "[null,[\x7b\x7d]]" ∧ hidden.nesting ≤ 127 ∧
      (hidden.AllNumerals fun n => n.magnitude ≤ (2 ^ 53 - 3) * 2 ^ 971) ∧
      ∀ v, ofJsonText "[null,[\x7b\x7d]]" ≠ .ok v := by
  have zero : ({ negative := true, whole := ['0'] } : Numeral).WellFormed :=
    ⟨by simp [AreDigits], by simp, by simp, by simp⟩
  have thousand :
      ({ whole := ['1'], exponent := some { digits := ['3'] } } : Numeral).WellFormed :=
    ⟨by simp [AreDigits], by simp, by simp, by simp [AreDigits]⟩
  have near : (great "797693134862315300").WellFormed :=
    ⟨by simp [AreDigits, great], by simp [great], by simp [great], by simp [AreDigits, great]⟩
  have spelled : SpellsWhole border
      "[-9223372036854775808,9223372036854775808,-0,[1e3,1.797693134862315300e308]]" :=
    spellsWhole_text ⟨Numeral.ofInt_wellFormed _, Numeral.ofInt_wellFormed _, zero,
      ⟨thousand, near, trivial⟩, trivial⟩
  have small : border.AllNumerals fun n => n.magnitude ≤ (2 ^ 53 - 3) * 2 ^ 971 := by
    simp only [border, AllNumerals, ItemsAllNumerals]
    decide +kernel
  have spelledHidden : SpellsWhole hidden "[null,[\x7b\x7d]]" :=
    spellsWhole_text ⟨trivial, ⟨trivial, trivial⟩, trivial⟩
  have smallHidden : hidden.AllNumerals fun n => n.magnitude ≤ (2 ^ 53 - 3) * 2 ^ 971 :=
    ⟨trivial, ⟨trivial, trivial⟩, trivial⟩
  obtain ⟨reads, shape, -⟩ := ofJsonText_iff_objectFree spelled (by decide) small
  obtain ⟨refuses, -, -⟩ := ofJsonText_iff_objectFree spelledHidden (by decide) smallHidden
  have flat (n : Numeral) : (Json.number n).ObjectFree := objectFree_of_flat rfl
  have free : border.ObjectFree := by
    simp [border, objectFree_array_iff, flat]
  obtain ⟨v, hv⟩ := reads.mpr free
  refine ⟨spelled, by decide, small, ⟨v, hv, shape v hv⟩, spelledHidden, by decide, smallHidden,
    fun w hw => ?_⟩
  exact refuses.mp ⟨w, hw⟩ [] (.item (List.mem_cons_of_mem _ List.mem_cons_self)
    (.item List.mem_cons_self .self))

/-- Closer to the greatest double, the significand and the power of ten are rounded up so far that
their product is infinite: the text is refused although there is no object in it. -/
theorem ofJsonText_great :
    SpellsWhole (.number (great "797693134862315700")) "1.797693134862315700e308" ∧
      (Json.number (great "797693134862315700")).nesting ≤ 127 ∧
      (great "797693134862315700").magnitude ≤ (2 ^ 53 - 1) * 2 ^ 971 ∧
      (Json.number (great "797693134862315700")).ObjectFree ∧
      (ofJsonText "1.797693134862315700e308").mapError CallError.ofFault =
        .error (.invalidConfig (.json .numberOutOfRange)) ∧
      (ConfigFault.json .numberOutOfRange).reason ≠
        "data did not match any variant of untagged enum Value" := by
  have wellFormed : (great "797693134862315700").WellFormed :=
    ⟨by simp [AreDigits, great], by simp [great], by simp [great], by simp [AreDigits, great]⟩
  have spelled : SpellsWhole (.number (great "797693134862315700")) "1.797693134862315700e308" :=
    spellsWhole_text wellFormed
  have out : Number.ofNumeral? (great "797693134862315700") = none := by
    rw [← Option.isNone_iff_eq_none]
    decide +kernel
  refine ⟨spelled, by decide, by decide +kernel, objectFree_of_flat rfl, ?_, by decide⟩
  rw [ofJsonText_of_outOfRange spelled out]
  rfl

end Value

end ProtectedCall
