import ProtectedCall.Proofs.Precedence

/-!
# Pool settings

Declared pool settings are taken one after the other. The first one that is wrong ends this, and of
several settings of one name the last one counts.

* `Setting.last?`: the last setting of a name. `Setting.Rearranged`: lists with the same settings of
  each name in the same order, which have the same last ones.
* `Setting.Right`: a setting that can be taken. `Setting.fault?_eq_some_iff`: the error of another.
* `PoolOverlay.addSetting_eq_ok_iff`, `PoolOverlay.get_of_foldlM`: what one setting overrides, and
  what several settings do.
* `PoolOverlay.first_fault_last_value`: the whole.
-/

namespace ProtectedCall

open Decimal

/-! ## What is set last -/

section Folds

variable {σ α γ : Type} {step : σ → α → σ}

/-- If every step sets what is looked at or leaves it alone, what was set last is seen. -/
theorem foldl_last (look : σ → Option γ) {sets? : α → Option γ}
    (h : ∀ state a, look (step state a) = (sets? a).or (look state)) (l : List α) (state : σ) :
    look (l.foldl step state) = (l.filterMap sets?).getLast?.or (look state) := by
  induction l generalizing state with
  | nil => rfl
  | cons a l ih =>
    rw [List.foldl_cons, ih, h, ← Option.or_assoc, List.filterMap_cons]
    cases sets? a with
    | none => rw [Option.or_none]
    | some value =>
      dsimp only
      rw [List.getLast?_cons]
      cases (l.filterMap sets?).getLast? <;> rfl

/-- The same for steps that set a value under a condition. -/
theorem foldl_last_if (look : σ → Option γ) {p : α → Prop} [DecidablePred p] {value : α → γ}
    (h : ∀ state a, look (step state a) = if p a then some (value a) else look state)
    (l : List α) (state : σ) :
    look (l.foldl step state) = ((l.filter p).getLast?.map value).or (look state) := by
  have hsets (state : σ) (a : α) : look (step state a) =
      (if p a then some (value a) else none).or (look state) := by
    rw [h]
    split <;> rfl
  rw [foldl_last look hsets, ← List.getLast?_map, ← List.filterMap_eq_map, List.filterMap_filter]
  simp only [decide_eq_true_eq, Function.comp_apply]

end Folds

/-! ## Settings of one name -/

namespace Setting

/-- The last setting of a name. -/
def last? (settings : List Setting) (name : String) : Option Setting :=
  (settings.filter (·.name = name)).getLast?

/-- Two lists have the same settings of each name in the same order. -/
def Rearranged (settings others : List Setting) : Prop :=
  ∀ name, settings.filter (·.name = name) = others.filter (·.name = name)

theorem last?_cons (s : Setting) (settings : List Setting) (name : String) :
    last? (s :: settings) name =
      (last? settings name).or (if s.name = name then some s else none) := by
  simp [last?, List.find?_singleton]

theorem last?_eq_none_iff {settings : List Setting} {name : String} :
    last? settings name = none ↔ ∀ s ∈ settings, s.name ≠ name := by
  simp [last?]

namespace Rearranged

variable {settings others : List Setting}

theorem last? (h : Rearranged settings others) (name : String) :
    last? settings name = last? others name := by
  rw [Setting.last?, Setting.last?, h name]

/-- Nothing is added or left out. -/
theorem perm (h : Rearranged settings others) : settings.Perm others := by
  refine List.perm_iff_count.mpr fun s => ?_
  have hcount (l : List Setting) : (l.filter (·.name = s.name)).count s = l.count s :=
    List.count_filter (decide_eq_true rfl)
  rw [← hcount settings, ← hcount others, h s.name]

end Rearranged

end Setting

/-! ## Fields by name -/

namespace PoolField

theorem mem_all (field : PoolField) : field ∈ all := by
  cases field <;> decide

theorem name_injective {a b : PoolField} (h : a.name = b.name) : a = b := by
  cases a <;> cases b <;> first | rfl | exact absurd h (by decide)

theorem ofName?_eq_some_iff {name : String} {field : PoolField} :
    ofName? name = some field ↔ field.name = name := by
  unfold ofName?
  constructor
  · intro h
    simpa using List.find?_some h
  · rintro rfl
    cases hf : all.find? (·.name == field.name) with
    | none => simpa using List.find?_eq_none.mp hf field (mem_all field)
    | some other =>
      have hname : other.name = field.name := by simpa using List.find?_some hf
      rw [name_injective hname]

theorem ofName?_eq_none_iff {name : String} :
    ofName? name = none ↔ ∀ field : PoolField, field.name ≠ name := by
  rw [Option.eq_none_iff_forall_ne_some]
  exact forall_congr' fun field => not_congr ofName?_eq_some_iff

end PoolField

/-! ## Single settings -/

/-- The setting is one of the six, with a signed 32-bit value. -/
def Setting.Right (s : Setting) : Prop :=
  (∃ field : PoolField, field.name = s.name) ∧ ∃ value, readInt32 s.value = .ok value

namespace Setting

variable {s : Setting} {e : CallError}

/-- An unknown name is wrong whatever the value is. -/
theorem fault?_eq_some_iff :
    s.fault? = some e ↔
      (∀ field : PoolField, field.name ≠ s.name) ∧ e = .unsupportedSetting s.name ∨
      (∃ field : PoolField, field.name = s.name) ∧ ∃ fault,
        readInt32 s.value = .error fault ∧ e = .invalidSetting s.name s.value fault := by
  unfold fault?
  simp only [← PoolField.ofName?_eq_none_iff, ← PoolField.ofName?_eq_some_iff]
  cases PoolField.ofName? s.name with
  | none => simp [eq_comm]
  | some field => cases readInt32 s.value <;> simp [eq_comm]

theorem fault?_eq_none_iff : s.fault? = none ↔ s.Right := by
  unfold fault? Right
  simp only [← PoolField.ofName?_eq_some_iff]
  cases PoolField.ofName? s.name with
  | none => simp
  | some field => cases readInt32 s.value <;> simp

end Setting

/-! ## Overlays -/

namespace PoolOverlay

variable {settings : List Setting} {o o' : PoolOverlay} {e : CallError}

/-- A setting that is right overrides its own field. -/
theorem addSetting_eq_ok_iff {s : Setting} :
    o.addSetting s = .ok o' ↔ ∃ (field : PoolField) (value : Int32), field.name = s.name ∧
      readInt32 s.value = .ok value ∧ o' = o.set field value := by
  unfold addSetting
  simp only [← PoolField.ofName?_eq_some_iff]
  cases PoolField.ofName? s.name with
  | none => simp
  | some field => cases readInt32 s.value <;> simp [eq_comm]

/-- Settings that are taken override their fields, the last one of each name last. -/
theorem get_of_foldlM (h : settings.foldlM addSetting o = .ok o') (field : PoolField) :
    match Setting.last? settings field.name with
    | none => o'.get field = o.get field
    | some s => ∃ value, readInt32 s.value = .ok value ∧ o'.get field = some value := by
  induction settings generalizing o with
  | nil =>
    cases h
    rfl
  | cons s settings ih =>
    rw [List.foldlM_cons] at h
    obtain ⟨o₁, hs, h⟩ := bind_eq_ok_iff.mp h
    obtain ⟨own, value, hown, hvalue, rfl⟩ := addSetting_eq_ok_iff.mp hs
    have hrest := ih h
    rw [Setting.last?_cons]
    cases hlast : Setting.last? settings field.name with
    | some t =>
      rw [hlast] at hrest
      exact hrest
    | none =>
      -- No later setting has the name, so what this one overrides is kept.
      rw [hlast, get_set] at hrest
      by_cases hname : s.name = field.name
      · obtain rfl : own = field := PoolField.name_injective (hown.trans hname)
        rw [if_pos rfl] at hrest
        rw [if_pos hname]
        exact ⟨value, hvalue, hrest⟩
      · rw [if_neg hname]
        have hfield : field ≠ own := fun hfield => hname (hown.symm.trans (congrArg _ hfield.symm))
        rwa [if_neg hfield] at hrest

/-- Settings are refused for the first one that is wrong. -/
theorem ofSettings_eq_error_iff :
    ofSettings settings = .error e ↔ ∃ before s after, settings = before ++ s :: after ∧
      (∀ s' ∈ before, s'.Right) ∧ s.fault? = some e := by
  rw [ofSettings, foldlM_eq_error_iff, List.findSome?_eq_some_iff]
  simp only [Setting.fault?_eq_none_iff, and_comm]

theorem exists_error_iff :
    (∃ e, ofSettings settings = .error e) ↔ ∃ s ∈ settings, ¬ s.Right := by
  unfold ofSettings
  simp only [foldlM_eq_error_iff, ← Setting.fault?_eq_none_iff]
  rw [← Option.isSome_iff_exists, Option.isSome_iff_ne_none, Ne, List.findSome?_eq_none_iff]
  simp

/-- What settings override: for each field what the last setting of its name says. -/
theorem get_of_ofSettings (h : ofSettings settings = .ok o) (field : PoolField) (value : Int32) :
    o.get field = some value ↔
      ∃ s, Setting.last? settings field.name = some s ∧ readInt32 s.value = .ok value := by
  have hget := get_of_foldlM h field
  cases hlast : Setting.last? settings field.name with
  | none =>
    rw [hlast, get_empty] at hget
    simp [hget]
  | some s =>
    rw [hlast] at hget
    obtain ⟨value', hvalue, hget⟩ := hget
    simp [hget, hvalue]

theorem get_eq_none_of_ofSettings (h : ofSettings settings = .ok o) (field : PoolField) :
    o.get field = none ↔ ∀ s ∈ settings, s.name ≠ field.name := by
  have hget := get_of_foldlM h field
  rw [← Setting.last?_eq_none_iff]
  cases hlast : Setting.last? settings field.name with
  | none =>
    rw [hlast, get_empty] at hget
    simp [hget]
  | some s =>
    rw [hlast] at hget
    obtain ⟨value, -, hget⟩ := hget
    simp [hget]

/-- Only the settings of each name matter, not those of other names between them. -/
theorem ofSettings_of_rearranged {others : List Setting} (h : Setting.Rearranged settings others) :
    (∃ o, ofSettings settings = .ok o ∧ ofSettings others = .ok o) ∨
      ∃ e e', ofSettings settings = .error e ∧ ofSettings others = .error e' := by
  have hfail : (∃ e, ofSettings settings = .error e) ↔ ∃ e, ofSettings others = .error e := by
    simp only [exists_error_iff, h.perm.mem_iff]
  cases hs : ofSettings settings with
  | error e =>
    obtain ⟨e', ho⟩ := hfail.mp ⟨e, hs⟩
    exact .inr ⟨e, e', rfl, ho⟩
  | ok o =>
    cases ho : ofSettings others with
    | error e' =>
      obtain ⟨e, he⟩ := hfail.mpr ⟨e', ho⟩
      rw [hs] at he
      cases he
    | ok o' =>
      have heq : o' = o := eq_of_get fun field => Option.ext fun value => by
        rw [get_of_ofSettings ho, get_of_ofSettings hs, h.last?]
      exact .inl ⟨o, rfl, by rw [heq]⟩

/-- The first wrong setting ends it, the last setting of a name counts. Settings fail if and only if
one of them is wrong, with the error of the first such one: an unknown name before a wrong value.
Otherwise each field has the value of the last setting of its name, if there is one. So it only
matters how the settings of each name are ordered among themselves. Without any setting there is no
overlay, and with any it is that of the settings. -/
theorem first_fault_last_value (settings : List Setting) :
    ((∃ e, ofSettings settings = .error e) ↔ ∃ s ∈ settings, ¬ s.Right) ∧
    (∀ e, ofSettings settings = .error e ↔ ∃ before s after, settings = before ++ s :: after ∧
      (∀ s' ∈ before, s'.Right) ∧
      ((∀ field : PoolField, field.name ≠ s.name) ∧ e = .unsupportedSetting s.name ∨
        (∃ field : PoolField, field.name = s.name) ∧ ∃ fault,
          readInt32 s.value = .error fault ∧ e = .invalidSetting s.name s.value fault)) ∧
    (∀ o, ofSettings settings = .ok o → ∀ field : PoolField,
      (∀ value, o.get field = some value ↔
        ∃ s, Setting.last? settings field.name = some s ∧ readInt32 s.value = .ok value) ∧
      (o.get field = none ↔ ∀ s ∈ settings, s.name ≠ field.name)) ∧
    (∀ others, Setting.Rearranged settings others →
      (∃ o, ofSettings settings = .ok o ∧ ofSettings others = .ok o) ∨
        ∃ e e', ofSettings settings = .error e ∧ ofSettings others = .error e') ∧
    (settings ≠ [] → ofSettings? settings = (ofSettings settings).map some) ∧
    (ofSettings? settings = .ok none ↔ settings = []) := by
  refine ⟨exists_error_iff, fun e => ?_, fun o ho field => ?_, fun others => ?_, fun hne => ?_, ?_⟩
  · simp only [ofSettings_eq_error_iff, Setting.fault?_eq_some_iff]
  · exact ⟨get_of_ofSettings ho field, get_eq_none_of_ofSettings ho field⟩
  · exact ofSettings_of_rearranged
  · rw [ofSettings?, if_neg (by simpa using hne)]
  · exact @ofSettings?_eq_ok_iff settings none

/-- A core size that is given twice, and an unknown name in front of a wrong value. -/
theorem first_fault_last_value_twice :
    (∃ o, ofSettings [⟨"coreSize", "4"⟩, ⟨"maxQueueSize", "-1"⟩, ⟨"coreSize", "+8"⟩] = .ok o ∧
      ofSettings [⟨"coreSize", "4"⟩, ⟨"coreSize", "+8"⟩, ⟨"maxQueueSize", "-1"⟩] = .ok o ∧
      o.get .coreSize = some 8) ∧
    ofSettings [⟨"coreSize", "4"⟩, ⟨"bogus", "x"⟩, ⟨"maxQueueSize", ""⟩] =
      .error (.unsupportedSetting "bogus") := by
  constructor
  · have rearranged : Setting.Rearranged
        [⟨"coreSize", "4"⟩, ⟨"maxQueueSize", "-1"⟩, ⟨"coreSize", "+8"⟩]
        [⟨"coreSize", "4"⟩, ⟨"coreSize", "+8"⟩, ⟨"maxQueueSize", "-1"⟩] := fun name => by
      by_cases hname : "coreSize" = name
      · subst hname
        rfl
      · simp [hname, List.filter_cons]
    obtain ⟨-, -, values, order, -⟩ := first_fault_last_value
      [⟨"coreSize", "4"⟩, ⟨"maxQueueSize", "-1"⟩, ⟨"coreSize", "+8"⟩]
    obtain ⟨o, ho, hother⟩ | ⟨e, -, he, -⟩ := order _ rearranged
    · refine ⟨o, ho, hother, ((values o ho .coreSize).1 8).mpr ⟨⟨"coreSize", "+8"⟩, ?_⟩⟩
      constructor <;> decide
    · cases he
  · refine ((first_fault_last_value _).2.1 _).mpr
      ⟨[⟨"coreSize", "4"⟩], ⟨"bogus", "x"⟩, [⟨"maxQueueSize", ""⟩], rfl, ?_, .inl ⟨?_, rfl⟩⟩
    · intro s hs
      obtain rfl := List.mem_singleton.mp hs
      exact ⟨⟨.coreSize, rfl⟩, 4, by decide⟩
    · intro field
      cases field <;> decide

end PoolOverlay

end ProtectedCall
