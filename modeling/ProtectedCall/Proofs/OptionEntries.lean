import Mathlib.Data.List.Dedup
import Mathlib.Data.List.Sort
import ProtectedCall.Proofs.ByteOrder
import ProtectedCall.Proofs.OverlayTables
import ProtectedCall.Proofs.Reading

/-!
# Entries of an option map

Declared settings are put into the map one after another. Every insertion keeps the names in
ascending order, so the entries are determined by what is found under each name, and that is the
value of the last setting of the name.

* `OptionMap.Ascending`: the names ascend. `OptionMap.Ascending.insert`: an insertion keeps that.
* `OptionMap.Ascending.mem_entries_iff`, `OptionMap.Ascending.eq_of_get?`: looking names up tells
  which entries there are, and so which map it is.
* `OptionMap.get?_ofSettings`: what is found under a name.
* `OptionMap.text_toJson`, `OptionMap.readWhole_text`: the text of a map, and what is read from it.
* `OptionMap.last_value_of_each_name`: the whole for all settings.
-/

namespace ProtectedCall

open Json Text

namespace OptionMap

/-! ## Ascending names -/

/-- The names of the entries ascend. -/
def Ascending (m : OptionMap) : Prop := m.entries.Pairwise (·.1 < ·.1)

variable {m other : OptionMap} {name value : String}

theorem mem_of_mem_insertEntry {entry : String × String} {entries : List (String × String)}
    (h : entry ∈ insertEntry name value entries) : entry = (name, value) ∨ entry ∈ entries := by
  induction entries with
  | nil => exact .inl (List.mem_singleton.mp h)
  | cons first rest ih =>
    obtain ⟨first, old⟩ := first
    unfold insertEntry at h
    split at h
    · exact List.mem_cons.mp h
    · split at h
      · exact (List.mem_cons.mp h).imp_right (List.mem_cons_of_mem _)
      · rcases List.mem_cons.mp h with rfl | h
        · exact .inr List.mem_cons_self
        · exact (ih h).imp_right (List.mem_cons_of_mem _)

/-- An insertion keeps the names in ascending order. -/
theorem Ascending.insert (ascending : m.Ascending) (name value : String) :
    (m.insert name value).Ascending := by
  obtain ⟨entries⟩ := m
  unfold Ascending OptionMap.insert at *
  dsimp only at *
  induction entries with
  | nil => exact List.pairwise_singleton _ _
  | cons entry rest ih =>
    obtain ⟨first, old⟩ := entry
    obtain ⟨hfirst, hrest⟩ := List.pairwise_cons.mp ascending
    unfold insertEntry
    split
    · rename_i hlt
      refine List.pairwise_cons.mpr ⟨fun entry hentry => ?_, ascending⟩
      rcases List.mem_cons.mp hentry with rfl | hentry
      · exact hlt
      · exact lt_trans hlt (hfirst entry hentry)
    · rename_i hnot
      split
      · rename_i heq
        subst heq
        exact List.pairwise_cons.mpr ⟨hfirst, hrest⟩
      · rename_i hne
        refine List.pairwise_cons.mpr ⟨fun entry hentry => ?_, ih hrest⟩
        rcases mem_of_mem_insertEntry hentry with rfl | hentry
        · exact lt_of_le_of_ne (not_lt.mp hnot) (Ne.symm hne)
        · exact hfirst entry hentry

theorem ascending_ofSettings (settings : List Setting) : (ofSettings settings).Ascending := by
  unfold ofSettings
  have hempty : empty.Ascending := List.Pairwise.nil
  generalize empty = m at hempty
  induction settings generalizing m with
  | nil => exact hempty
  | cons s settings ih => exact ih _ (hempty.insert s.name s.value)

/-- No name has two entries. -/
theorem Ascending.nodup_names (ascending : m.Ascending) : (m.entries.map (·.1)).Nodup := by
  rw [List.Nodup, List.pairwise_map]
  exact ascending.imp ne_of_lt

/-- The entries are what is found under their names. -/
theorem Ascending.mem_entries_iff (ascending : m.Ascending) :
    (name, value) ∈ m.entries ↔ m.get? name = some value := by
  rw [get?, List.lookup_eq_some_iff]
  constructor
  · intro h
    obtain ⟨before, after, hm⟩ := List.append_of_mem h
    refine ⟨before, after, hm, fun entry hentry => ?_⟩
    rw [Ascending, hm] at ascending
    have hlt := (List.pairwise_append.mp ascending).2.2 entry hentry _ List.mem_cons_self
    simpa using (ne_of_lt hlt).symm
  · rintro ⟨before, after, hm, -⟩
    rw [hm]
    simp

/-- Ascending maps in which the same is found under every name are equal. -/
theorem Ascending.eq_of_get? (ascending : m.Ascending) (too : other.Ascending)
    (h : ∀ name, m.get? name = other.get? name) : m = other := by
  have nodup {m : OptionMap} (ascending : m.Ascending) : m.entries.Nodup :=
    ascending.nodup_names.of_map
  have hperm : m.entries.Perm other.entries := by
    refine (List.perm_ext_iff_of_nodup (nodup ascending) (nodup too)).mpr fun (name, value) => ?_
    rw [ascending.mem_entries_iff, too.mem_entries_iff, h]
  have hentries := hperm.eq_of_pairwise (fun _ _ _ _ hab hba => absurd hab (lt_asymm hba))
    ascending too
  cases m
  cases other
  exact congrArg OptionMap.mk hentries

theorem contains_iff : m.contains name ↔ ∃ value, (name, value) ∈ m.entries := by
  simp [contains]

/-! ## Settings -/

/-- Inserting settings: the last one of a name counts. -/
theorem get?_foldl_insert (m : OptionMap) (settings : List Setting) (name : String) :
    (settings.foldl (fun m s => m.insert s.name s.value) m).get? name =
      ((Setting.last? settings name).map (·.value)).or (m.get? name) := by
  have hinsert (m : OptionMap) (s : Setting) :
      (m.insert s.name s.value).get? name = if s.name = name then some s.value else m.get? name := by
    rw [get?_insert]
    simp only [eq_comm]
  exact foldl_last_if (·.get? name) hinsert settings m

theorem get?_ofSettings (settings : List Setting) (name : String) :
    (ofSettings settings).get? name = (Setting.last? settings name).map (·.value) := by
  rw [ofSettings, get?_foldl_insert, get?_empty, Option.or_none]

theorem mem_entries_ofSettings_iff {settings : List Setting} :
    (name, value) ∈ (ofSettings settings).entries ↔
      ∃ s, Setting.last? settings name = some s ∧ s.value = value := by
  rw [(ascending_ofSettings settings).mem_entries_iff, get?_ofSettings, Option.map_eq_some_iff]

/-- A name has an entry if some setting has the name. -/
theorem mem_names_iff {settings : List Setting} :
    name ∈ (ofSettings settings).entries.map (·.1) ↔ name ∈ settings.map (·.name) := by
  have hlast : (∃ s, Setting.last? settings name = some s) ↔ ∃ s ∈ settings, s.name = name := by
    rw [← Option.ne_none_iff_exists', Ne, Setting.last?_eq_none_iff]
    simp
  simp only [List.mem_map, Prod.exists, exists_eq_right, exists_and_right, ← hlast,
    mem_entries_ofSettings_iff]
  exact ⟨fun ⟨_, s, h, _⟩ => ⟨s, h⟩, fun ⟨s, h⟩ => ⟨_, s, h, rfl⟩⟩

/-- There are as many entries as different names. -/
theorem size_ofSettings (settings : List Setting) :
    (ofSettings settings).size = (settings.map (·.name)).dedup.length := by
  have hperm : ((ofSettings settings).entries.map (·.1)).Perm (settings.map (·.name)).dedup := by
    refine (List.perm_ext_iff_of_nodup (ascending_ofSettings settings).nodup_names
      (List.nodup_dedup _)).mpr fun name => ?_
    rw [mem_names_iff, List.mem_dedup]
  rw [size, ← hperm.length_eq, List.length_map]

/-- Settings make equal maps if the last values of all names are the same. -/
theorem ofSettings_eq_iff {settings others : List Setting} :
    ofSettings settings = ofSettings others ↔ ∀ name,
      (Setting.last? settings name).map (·.value) = (Setting.last? others name).map (·.value) := by
  simp only [← get?_ofSettings]
  constructor
  · intro h name
    rw [h]
  · exact (ascending_ofSettings settings).eq_of_get? (ascending_ofSettings others)

/-! ## Texts -/

theorem text_toJson (m : OptionMap) :
    m.toJson.text =
      "\x7b" ++ joinWith "," (m.entries.map fun (name, value) =>
        (Json.string name).text ++ ":" ++ (Json.string value).text) ++ "\x7d" := by
  rw [toJson, Json.text_object, List.map_map]
  rfl

/-- A map has no numerals in its document. -/
theorem allNumerals_toJson (m : OptionMap) (p : Decimal.Numeral → Prop) :
    m.toJson.AllNumerals p := by
  rw [toJson, AllNumerals]
  induction m.entries with
  | nil => trivial
  | cons entry rest ih => exact ⟨trivial, ih⟩

theorem nesting_toJson (m : OptionMap) : m.toJson.nesting = 1 := by
  have flat (entries : List (String × String)) :
      membersNesting (entries.map fun (name, value) => (name, .string value)) = 0 := by
    induction entries with
    | nil => rfl
    | cons entry rest ih =>
      rw [List.map_cons, membersNesting, ih]
      rfl
  rw [toJson, nesting, flat]

/-- What is read from the text of a map is its document. -/
theorem readWhole_text (m : OptionMap) :
    readWhole (readDocument nestingLimit) m.toJson.text = .ok m.toJson := by
  have deep : m.toJson.nesting ≤ nestingLimit := by
    rw [nesting_toJson]
    decide
  exact readWhole_takes (readDocument_takes deep (m.allNumerals_toJson _))
    (spellsWhole_text (m.allNumerals_toJson _))

/-- The map of settings holds the last value of each name. Its entries have these values, in the
ascending order of the bytes of their names, so each name has one of them, and there are as many as
different names. Looking a name up finds its entry. The text is an object of the entries in their
order, and it is read as that. Two lists of settings make equal maps if and only if the last values
of all names are the same, as they are where the settings of each name keep their order. -/
theorem last_value_of_each_name (settings : List Setting) :
    ((ofSettings settings).entries.map fun entry => utf8 entry.1).Pairwise (· < ·) ∧
    (∀ name value, (name, value) ∈ (ofSettings settings).entries ↔
      ∃ s, Setting.last? settings name = some s ∧ s.value = value) ∧
    (ofSettings settings).size = (settings.map (·.name)).dedup.length ∧
    (∀ name, ((ofSettings settings).contains name ↔
        ∃ value, (name, value) ∈ (ofSettings settings).entries) ∧
      ∀ value, (ofSettings settings).get? name = some value ↔
        (name, value) ∈ (ofSettings settings).entries) ∧
    (ofSettings settings).toJson.text =
      "\x7b" ++ joinWith "," ((ofSettings settings).entries.map fun (name, value) =>
        (Json.string name).text ++ ":" ++ (Json.string value).text) ++ "\x7d" ∧
    readWhole (readDocument nestingLimit) (ofSettings settings).toJson.text =
      .ok (.object ((ofSettings settings).entries.map fun (name, value) =>
        (name, .string value))) ∧
    (∀ others, ofSettings settings = ofSettings others ↔ ∀ name,
      (Setting.last? settings name).map (·.value) = (Setting.last? others name).map (·.value)) ∧
    ∀ others, Setting.Rearranged settings others → ofSettings settings = ofSettings others := by
  have ascending := ascending_ofSettings settings
  refine ⟨?_, fun name value => mem_entries_ofSettings_iff, size_ofSettings settings,
    fun name => ⟨contains_iff, fun value => ascending.mem_entries_iff.symm⟩, text_toJson _,
    readWhole_text _, fun others => ofSettings_eq_iff, fun others rearranged => ?_⟩
  · rw [List.pairwise_map]
    exact ascending.imp utf8_lt_iff.mpr
  · refine ofSettings_eq_iff.mpr fun name => ?_
    rw [rearranged.last?]

/-- A name that is declared twice, with others between. -/
def twice : List Setting := [⟨"b", "1"⟩, ⟨"é", "2"⟩, ⟨"", "\""⟩, ⟨"b", " 3 "⟩]

theorem last_value_of_each_name_twice :
    Setting.last? twice "b" = some ⟨"b", " 3 "⟩ ∧ ("b", " 3 ") ∈ (ofSettings twice).entries ∧
      (ofSettings twice).size = 3 ∧
      (ofSettings twice).toJson.text =
        "\x7b\"\":\"\\\"\",\"b\":\" 3 \",\"é\":\"2\"\x7d" ∧
      Setting.Rearranged twice [⟨"", "\""⟩, ⟨"b", "1"⟩, ⟨"b", " 3 "⟩, ⟨"é", "2"⟩] ∧
      ofSettings twice = ofSettings [⟨"", "\""⟩, ⟨"b", "1"⟩, ⟨"b", " 3 "⟩, ⟨"é", "2"⟩] := by
  obtain ⟨-, entries, size, -, text, -, -, order⟩ := last_value_of_each_name twice
  have last : Setting.last? twice "b" = some ⟨"b", " 3 "⟩ := by decide
  have rearranged :
      Setting.Rearranged twice [⟨"", "\""⟩, ⟨"b", "1"⟩, ⟨"b", " 3 "⟩, ⟨"é", "2"⟩] := by
    intro name
    by_cases hb : "b" = name
    · subst hb
      decide
    · by_cases he : "é" = name
      · subst he
        decide
      · simp [twice, List.filter_cons, hb, he]
  refine ⟨last, (entries _ _).mpr ⟨_, last, rfl⟩, ?_, ?_, rearranged, order _ rearranged⟩
  · rw [size]
    decide
  · rw [text]
    decide +kernel

end OptionMap

end ProtectedCall
