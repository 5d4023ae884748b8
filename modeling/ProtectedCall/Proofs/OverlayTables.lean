import ProtectedCall.Proofs.SignedDecimals

/-!
# Tables of an overlay

An overlay is written to by field or by the function for one field, and is looked at by field, as a
list and as a document. All of these name the six fields one by one; that they do so alike is shown
for every history of writes.

* `PoolOverlay.mem_overrides_iff`, `PoolOverlay.fields_overrides`: the list of overrides, by field.
  `PoolOverlay.toJson_eq`, `PoolOverlay.text_toJson`: the document has the same members.
  `Json.text_object`: how an object is written.
* `PoolOverlay.lastWritten?`: what the writes alone say of a field.
  `PoolOverlay.get_foldl_apply`: the overlay behind the writes says the same.
* `PoolOverlay.ofSettings_of_overrides`: overrides that are declared as settings give the overlay
  back.
* `PoolOverlay.tables_agree`: the whole for all writes.
-/

namespace ProtectedCall

open Decimal Text

/-! ## Objects as text -/

namespace Json

/-- A letter stands for itself. -/
theorem escapeChar_of_isAlpha {c : Char} (letter : c.isAlpha) : escapeChar c = [c] := by
  have other {d : Char} (hd : d.isAlpha = false) : c ≠ d := by
    rintro rfl
    rw [letter] at hd
    cases hd
  have noControl : ¬ c < ' ' := by
    intro (control : c.toNat < 32)
    rcases Bool.or_eq_true_iff.mp letter with upper | lower
    · have low : 'A'.val ≤ c.val := (of_decide_eq_true upper).1
      have : 65 ≤ c.toNat := low
      omega
    · have low : 'a'.val ≤ c.val := of_decide_eq_true (Bool.and_eq_true_iff.mp lower).1
      have : 97 ≤ c.toNat := low
      omega
  simp only [escapeChar, other (d := '"') rfl, other (d := '\\') rfl, other (d := '\x08') rfl,
    other (d := '\t') rfl, other (d := '\n') rfl, other (d := '\x0c') rfl, other (d := '\r') rfl,
    noControl, if_false]

/-- A text of letters stands between the quotes as it is. -/
theorem text_string_of_isAlpha {s : String} (letters : ∀ c ∈ s.toList, c.isAlpha) :
    (Json.string s).text = "\"" ++ s ++ "\"" := by
  have hchars : s.toList.flatMap escapeChar = s.toList := by
    rw [List.flatMap_congr fun c hc => escapeChar_of_isAlpha (letters c hc)]
    exact List.flatMap_singleton' _
  refine String.toList_inj.mp ?_
  rw [text, chars, quotedChars, hchars]
  simp

/-- The characters of a member. -/
def memberChars (member : String × Json) : List Char :=
  quotedChars member.1 ++ ':' :: member.2.chars

theorem furtherMembers_eq (member : String × Json) (members : List (String × Json)) :
    memberChars member ++ furtherMembers members =
      [','].intercalate ((member :: members).map memberChars) ++ ['\x7d'] := by
  induction members generalizing member with
  | nil => simp [furtherMembers]
  | cons next members ih =>
    have hnext := ih next
    rw [memberChars, List.append_assoc, List.cons_append] at hnext
    rw [furtherMembers, hnext, List.map_cons, List.map_cons, List.map_cons,
      List.intercalate_cons_cons]
    simp

/-- An object is written as its members with commas between them. -/
theorem chars_object (members : List (String × Json)) :
    (Json.object members).chars =
      '\x7b' :: ([','].intercalate (members.map memberChars) ++ ['\x7d']) := by
  cases members with
  | nil => rfl
  | cons member members =>
    obtain ⟨name, value⟩ := member
    have h := furtherMembers_eq (name, value) members
    rw [memberChars, List.append_assoc, List.cons_append] at h
    rw [chars, h]

/-- The text of an object: its members with commas between them, each a quoted name and a value. -/
theorem text_object (members : List (String × Json)) :
    (Json.object members).text =
      "\x7b" ++ joinWith "," (members.map fun (name, value) =>
        (Json.string name).text ++ ":" ++ value.text) ++ "\x7d" := by
  have hmember (member : String × Json) :
      memberChars member = ((Json.string member.1).text ++ ":" ++ member.2.text).toList := by
    simp [memberChars, text, chars]
  have hcomma : ",".toList = [','] := rfl
  have hopen : "\x7b".toList = ['\x7b'] := rfl
  have hclose : "\x7d".toList = ['\x7d'] := rfl
  refine String.toList_inj.mp ?_
  rw [text, String.toList_ofList, chars_object,
    List.map_congr_left fun member _ => hmember member]
  simp only [joinWith, List.map_map, String.toList_append, String.toList_ofList, hcomma, hopen,
    hclose, List.cons_append, List.nil_append, Function.comp_def]

end Json

/-! ## Overrides -/

/-- The decimal text of a value. -/
def decimalText (value : Int32) : String := (Numeral.ofInt value.toInt).text

theorem readInt32_decimalText (value : Int32) : readInt32 (decimalText value) = .ok value := by
  rw [readInt32_eq_ok_iff, decimalText, Numeral.text, String.toList_ofList]
  exact spellsSigned_ofInt value.toInt

/-- An override declared as a setting. -/
def Setting.ofOverride (override : PoolField × Int32) : Setting :=
  ⟨override.1.name, decimalText override.2⟩

theorem PoolField.nodup_all : all.Nodup := by decide

theorem PoolField.isAlpha_name (field : PoolField) : ∀ c ∈ field.name.toList, c.isAlpha := by
  rw [← List.all_eq_true]
  cases field <;> decide +kernel

namespace PoolOverlay

theorem mem_overrides_iff {o : PoolOverlay} {field : PoolField} {value : Int32} :
    (field, value) ∈ o.overrides ↔ o.get field = some value := by
  simp [overrides, PoolField.mem_all]

/-- The fields that are overridden, in their order. -/
theorem fields_overrides (o : PoolOverlay) :
    o.overrides.map (·.1) = PoolField.all.filter fun field => (o.get field).isSome := by
  unfold overrides
  induction PoolField.all with
  | nil => rfl
  | cons field fields ih =>
    cases h : o.get field <;> simp [h, ih]

theorem toJson_eq (o : PoolOverlay) :
    o.toJson =
      .object (o.overrides.map fun (field, value) => (field.name, Json.ofInt value.toInt)) := by
  have hparts : o.toJson =
      .object ((PoolField.all.map fun field => (field.name, o.get field)).filterMap
        fun part => part.2.map fun value => (part.1, Json.ofInt value.toInt)) := rfl
  rw [hparts, overrides, List.filterMap_map, List.map_filterMap]
  congr 2
  funext field
  simp only [Function.comp_apply, Option.map_map]
  rfl

theorem isEmpty_iff {o : PoolOverlay} : o.isEmpty ↔ ∀ field, o.get field = none := by
  rw [isEmpty, List.isEmpty_iff, List.eq_nil_iff_forall_not_mem]
  simp only [Prod.forall, mem_overrides_iff, Option.eq_none_iff_forall_ne_some, ne_eq]

/-- The text of an overlay. No name of a field has to be escaped. -/
theorem text_toJson (o : PoolOverlay) :
    o.toJson.text =
      "\x7b" ++ joinWith "," (o.overrides.map fun (field, value) =>
        "\"" ++ field.name ++ "\":" ++ decimalText value) ++ "\x7d" := by
  rw [toJson_eq, Json.text_object, List.map_map]
  refine congrArg (fun texts => "\x7b" ++ joinWith "," texts ++ "\x7d")
    (List.map_congr_left fun (field, value) _ => ?_)
  have hcolon (s : String) : s ++ "\"" ++ ":" = s ++ "\":" := String.append_assoc
  show (Json.string field.name).text ++ ":" ++ decimalText value = _
  rw [Json.text_string_of_isAlpha field.isAlpha_name, hcolon]

/-! ## Writes -/

/-- A write to an overlay: by its field, or with the function for that field alone. -/
inductive Write where
  | set (field : PoolField) (value : Int32)
  | alone (field : PoolField) (value : Int32)

namespace Write

/-- The field that is written. -/
def field : Write → PoolField
  | .set field _ => field
  | .alone field _ => field

/-- The value that is written. -/
def value : Write → Int32
  | .set _ value => value
  | .alone _ value => value

/-- The overlay behind a write. -/
def apply (o : PoolOverlay) : Write → PoolOverlay
  | .set field value => o.set field value
  | .alone field value => override field o value

/-- Both kinds of writes do the same. -/
theorem apply_eq (o : PoolOverlay) (w : Write) : apply o w = o.set w.field w.value := by
  cases w with
  | set field value => rfl
  | alone field value => exact congrFun (congrFun (override_eq_set field) o) value

end Write

/-- The overlay behind writes, from the one that overrides nothing. -/
def ofWrites (writes : List Write) : PoolOverlay := writes.foldl Write.apply empty

/-- The value that was last written to a field. -/
def lastWritten? (writes : List Write) (field : PoolField) : Option Int32 :=
  (writes.filter (·.field = field)).getLast?.map (·.value)

variable {o : PoolOverlay} {writes : List Write} {field : PoolField} {value : Int32}

theorem lastWritten?_cons (w : Write) (writes : List Write) (field : PoolField) :
    lastWritten? (w :: writes) field =
      (lastWritten? writes field).or (if w.field = field then some w.value else none) := by
  simp only [lastWritten?, List.getLast?_filter, List.reverse_cons, List.find?_append,
    List.find?_singleton, Option.map_or, decide_eq_true_eq]
  split <;> rfl

theorem lastWritten?_eq_none_iff :
    lastWritten? writes field = none ↔ ∀ w ∈ writes, w.field ≠ field := by
  simp [lastWritten?]

/-- Where every field is written once, the order does not matter. -/
theorem lastWritten?_eq_some_iff (once : (writes.map (·.field)).Nodup) :
    lastWritten? writes field = some value ↔ ∃ w ∈ writes, w.field = field ∧ w.value = value := by
  induction writes with
  | nil => simp [lastWritten?]
  | cons w writes ih =>
    obtain ⟨hnot, hrest⟩ := List.nodup_cons.mp once
    rw [lastWritten?_cons, List.exists_mem_cons_iff, ← ih hrest]
    by_cases hw : w.field = field
    · have hnone : lastWritten? writes field = none :=
        lastWritten?_eq_none_iff.mpr fun v hv hfield =>
          hnot (List.mem_map.mpr ⟨v, hv, hfield.trans hw.symm⟩)
      simp [hw, hnone]
    · simp [hw]

/-- What one write does to the values. -/
theorem get_apply (o : PoolOverlay) (w : Write) (field : PoolField) :
    (Write.apply o w).get field = if w.field = field then some w.value else o.get field := by
  rw [Write.apply_eq, get_set]
  simp only [eq_comm]

/-- What writes do to the values: the last one to a field counts. -/
theorem get_foldl_apply (o : PoolOverlay) (writes : List Write) (field : PoolField) :
    (writes.foldl Write.apply o).get field = (lastWritten? writes field).or (o.get field) :=
  foldl_last_if (·.get field) (fun o w => get_apply o w field) writes o

theorem get_ofWrites (writes : List Write) (field : PoolField) :
    (ofWrites writes).get field = lastWritten? writes field := by
  rw [ofWrites, get_foldl_apply, get_empty, Option.or_none]

/-! ## Overrides as settings -/

theorem addSetting_ofOverride (o : PoolOverlay) (override : PoolField × Int32) :
    o.addSetting (.ofOverride override) = .ok (Write.apply o (.set override.1 override.2)) :=
  addSetting_eq_ok_iff.mpr ⟨_, _, rfl, readInt32_decimalText _, rfl⟩

/-- Settings that are made of overrides are taken as writes. -/
theorem ofSettings_map_ofOverride (overrides : List (PoolField × Int32)) :
    ofSettings (overrides.map .ofOverride) =
      .ok (ofWrites (overrides.map fun override => .set override.1 override.2)) := by
  unfold ofSettings ofWrites
  generalize empty = o
  induction overrides generalizing o with
  | nil => rfl
  | cons override overrides ih =>
    rw [List.map_cons, List.foldlM_cons, addSetting_ofOverride]
    exact ih _

/-- The overrides of an overlay, declared as settings in any order, give the overlay back. -/
theorem ofSettings_of_overrides {overrides : List (PoolField × Int32)}
    (perm : overrides.Perm o.overrides) : ofSettings (overrides.map .ofOverride) = .ok o := by
  rw [ofSettings_map_ofOverride]
  congr 1
  refine eq_of_get fun field => Option.ext fun value => ?_
  have once : (overrides.map fun override => override.1).Nodup := by
    rw [(perm.map _).nodup_iff, fields_overrides]
    exact PoolField.nodup_all.filter _
  rw [get_ofWrites, lastWritten?_eq_some_iff (by rwa [List.map_map]), ← mem_overrides_iff,
    ← perm.mem_iff]
  constructor
  · rintro ⟨w, hw, rfl, rfl⟩
    obtain ⟨override, hmem, rfl⟩ := List.mem_map.mp hw
    exact hmem
  · exact fun hmem => ⟨_, List.mem_map.mpr ⟨_, hmem, rfl⟩, rfl, rfl⟩

/-- All tables of an overlay agree, whatever was written to it and in whichever way. A field has the
value that was last written to it. The overrides are the fields that were written with those values,
each once and in the order of the fields. The overlay is empty if and only if nothing was written.
Its text is an object of its overrides under their names, in their order. Declared as settings with
decimal values, in any order, the overrides give the overlay back. -/
theorem tables_agree (writes : List Write) :
    (∀ field, (ofWrites writes).get field = lastWritten? writes field) ∧
    (∀ field value, (field, value) ∈ (ofWrites writes).overrides ↔
      lastWritten? writes field = some value) ∧
    ((ofWrites writes).overrides.map (·.1)).Sublist PoolField.all ∧
    ((ofWrites writes).overrides.map (·.1)).Nodup ∧
    ((ofWrites writes).isEmpty ↔ writes = []) ∧
    (ofWrites writes).toJson.text =
      "\x7b" ++ joinWith "," ((ofWrites writes).overrides.map fun (field, value) =>
        "\"" ++ field.name ++ "\":" ++ decimalText value) ++ "\x7d" ∧
    ∀ overrides : List (PoolField × Int32), overrides.Perm (ofWrites writes).overrides →
      ofSettings (overrides.map .ofOverride) = .ok (ofWrites writes) := by
  have fields := fields_overrides (ofWrites writes)
  refine ⟨get_ofWrites writes, fun field value => ?_, ?_, ?_, ?_, text_toJson _,
    fun overrides perm => ofSettings_of_overrides perm⟩
  · rw [mem_overrides_iff, get_ofWrites]
  · rw [fields]
    exact List.filter_sublist
  · rw [fields]
    exact PoolField.nodup_all.filter _
  · rw [isEmpty_iff]
    simp only [get_ofWrites, lastWritten?_eq_none_iff]
    constructor
    · intro h
      refine List.eq_nil_iff_forall_not_mem.mpr fun w hw => ?_
      exact h w.field w hw rfl
    · rintro rfl field w hw
      cases hw

/-- Two fields, one of them written twice and at last with the least value there is. -/
def rewritten : List Write :=
  [.set .maxQueueSize 5, .alone .coreSize 3, .alone .maxQueueSize Int32.minValue]

theorem tables_agree_rewritten :
    (ofWrites rewritten).toJson.text = "\x7b\"coreSize\":3,\"maxQueueSize\":-2147483648\x7d" ∧
      List.Perm [(.maxQueueSize, Int32.minValue), (.coreSize, 3)]
        (ofWrites rewritten).overrides ∧
      ofSettings [⟨"maxQueueSize", "-2147483648"⟩, ⟨"coreSize", "3"⟩] =
        .ok (ofWrites rewritten) := by
  obtain ⟨-, -, -, -, -, text, back⟩ := tables_agree rewritten
  have perm : List.Perm [(.maxQueueSize, Int32.minValue), (.coreSize, 3)]
      (ofWrites rewritten).overrides := by decide
  refine ⟨?_, perm, ?_⟩
  · rw [text]
    decide +kernel
  · have settings := back _ perm
    rw [← settings]
    decide +kernel

end PoolOverlay

end ProtectedCall
