import ProtectedCall.Json.Record
import ProtectedCall.Proofs.Fit
import ProtectedCall.Proofs.Reading
import ProtectedCall.Proofs.Skipping

/-!
# Reading spelled records

* `Aligned`: a reader that reads something from a spelled document reads all of it.
* `readString_takes`, `readList_takes`, `readChoice_takes`: what values of one kind and choices are
  read as; the readers are aligned.
* `RecordForm.readMembers_takes`: an object is read member by member. Each known member fills its
  field, unknown ones are stepped over.
* `RecordForm.readMembers_refuses`: an object that gives a field twice is refused.
* `readRecord_takes`, `readRecord_refuses`, `readRecord_aligned`: the same for whole records.
-/

namespace ProtectedCall.Json

variable {α : Type}

/-- If the reader reads something where a document is spelled, it leaves what is behind. -/
def Aligned (reader : Reader α) : Prop :=
  ∀ (j : Json) (cs start rest : List Char) (x : α) (left : List Char), Gap cs start →
    Spells j start rest → reader cs = .ok (x, left) → left = rest

/-! ## Kinds of documents -/

section Kinds

variable {j : Json} {cs rest : List Char}

/-- What begins with a quote is a string. -/
theorem Spells.of_quote (h : Spells j ('"' :: cs) rest) :
    ∃ s, j = .string s ∧ SpellsChars s.toList cs rest := by
  obtain ⟨c, tail, heq, opens⟩ := h.opens
  cases heq
  cases j with
  | string s =>
    obtain ⟨inner, heq, hinner⟩ := h
    cases heq
    exact ⟨s, rfl, hinner⟩
  | boolean b => cases b <;> cases opens
  | number n => rcases opens with h | h <;> cases h
  | null | array | object => cases opens

/-- What begins with a bracket is a list. -/
theorem Spells.of_bracket (h : Spells j ('[' :: cs) rest) :
    ∃ items, j = .array items ∧ SpellsItems true items cs rest := by
  obtain ⟨c, tail, heq, opens⟩ := h.opens
  cases heq
  cases j with
  | array items =>
    obtain ⟨inner, heq, hinner⟩ := h
    cases heq
    exact ⟨items, rfl, hinner⟩
  | boolean b => cases b <;> cases opens
  | number n => rcases opens with h | h <;> cases h
  | null | string | object => cases opens

/-- What begins with a brace is an object. -/
theorem Spells.of_brace (h : Spells j ('\x7b' :: cs) rest) :
    ∃ members, j = .object members ∧ SpellsMembers true members cs rest := by
  obtain ⟨c, tail, heq, opens⟩ := h.opens
  cases heq
  cases j with
  | object members =>
    obtain ⟨inner, heq, hinner⟩ := h
    cases heq
    exact ⟨members, rfl, hinner⟩
  | boolean b => cases b <;> cases opens
  | number n => rcases opens with h | h <;> cases h
  | null | string | array => cases opens

/-- What begins with an n is null. -/
theorem Spells.of_n (h : Spells j ('n' :: cs) rest) : cs = "ull".toList ++ rest := by
  obtain ⟨c, tail, heq, opens⟩ := h.opens
  cases heq
  cases j with
  | null => exact List.tail_eq_of_cons_eq h
  | boolean b => cases b <;> cases opens
  | number n => rcases opens with h | h <;> cases h
  | string | array | object => cases opens

end Kinds

/-! ## Strings -/

theorem readString_takes (s : String) : Takes readString (.string s) s := by
  intro cs start rest gap spelled
  obtain ⟨inner, rfl, hinner⟩ := spelled
  rw [readString, skipBlanks_of_gap gap (by decide)]
  exact stringBody_of_spells hinner

theorem readString_aligned : Aligned readString := by
  intro j cs start rest x left gap spelled h
  obtain ⟨c, tail, rfl, opens⟩ := spelled.opens
  rw [readString, skipBlanks_of_gap gap opens.not_mark.1] at h
  split at h
  · rename_i heq
    cases heq
    obtain ⟨s, -, hinner⟩ := spelled.of_quote
    rw [stringBody_of_spells hinner] at h
    cases h
    rfl
  · cases h

/-! ## Lists -/

theorem readList_takes {item : Reader α} {js : List Json} {xs : List α}
    (h : List.Forall₂ (Takes item) js xs) : Takes (readList item) (.array js) xs := by
  intro cs start rest gap spelled
  obtain ⟨inner, rfl, hinner⟩ := spelled
  rw [readList, skipBlanks_of_gap gap (by decide)]
  exact items_takes h hinner

theorem itemsUpTo_aligned {item : Reader α} (h : Aligned item) {js : List Json} {first : Bool}
    {count : Nat} {cs rest left : List Char} {xs : List α} (spelled : SpellsItems first js cs rest)
    (hr : itemsUpTo item count first cs = .ok (xs, left)) : left = ']' :: rest := by
  induction js generalizing first count cs xs with
  | nil =>
    rw [SpellsItems] at spelled
    cases count with
    | zero => cases hr
    | succ count =>
      rw [itemsUpTo, hasItem_of_gap spelled] at hr
      cases hr
      rfl
  | cons j js ih =>
    rw [SpellsItems] at spelled
    obtain ⟨start, behind, hstart, hj, hjs⟩ := spelled
    cases count with
    | zero => cases hr
    | succ count =>
      rw [itemsUpTo, hasItem_of_separates hstart hj, ok_bind] at hr
      simp only [↓reduceIte] at hr
      obtain ⟨⟨x, behind'⟩, hx, hr⟩ := bind_eq_ok_iff.mp hr
      obtain rfl := h _ _ _ _ _ _ (.refl _) hj hx
      obtain ⟨⟨ys, left'⟩, hys, hr⟩ := bind_eq_ok_iff.mp hr
      cases hr
      exact ih hjs hys

theorem readList_aligned {item : Reader α} (h : Aligned item) : Aligned (readList item) := by
  intro j cs start rest xs left gap spelled hr
  obtain ⟨c, tail, rfl, opens⟩ := spelled.opens
  rw [readList, skipBlanks_of_gap gap opens.not_mark.1] at hr
  split at hr
  · rename_i heq
    cases heq
    obtain ⟨items, -, hinner⟩ := spelled.of_bracket
    obtain ⟨⟨ys, left'⟩, hys, hr⟩ := bind_eq_ok_iff.mp hr
    obtain rfl := itemsUpTo_aligned h hinner hys
    simp only [closeList_cons] at hr
    cases hr
    rfl
  · cases hr

/-! ## Choices -/

theorem readChoice_takes {choices : List (String × α)} {name : String} {x : α}
    (h : choices.lookup name = some x) : Takes (readChoice choices) (.string name) x := by
  intro cs start rest gap spelled
  obtain ⟨inner, rfl, hinner⟩ := spelled
  rw [readChoice, skipBlanks_of_gap gap (by decide)]
  simp [stringBody_of_spells hinner, choose, h]

theorem readNull_aligned {j : Json} {cs start rest left : List Char} (gap : Gap cs start)
    (spelled : Spells j start rest) (h : readNull cs = .ok left) : left = rest := by
  obtain ⟨c, tail, rfl, opens⟩ := spelled.opens
  rw [readNull, skipBlanks_of_gap gap opens.not_mark.1] at h
  split at h
  · rename_i heq
    cases heq
    rw [spelled.of_n, word_append] at h
    cases h
    rfl
  · cases h

theorem readChoice_aligned (choices : List (String × α)) : Aligned (readChoice choices) := by
  intro j cs start rest x left gap spelled h
  obtain ⟨c, tail, rfl, opens⟩ := spelled.opens
  rw [readChoice, skipBlanks_of_gap gap opens.not_mark.1] at h
  split at h
  · cases h
  · rename_i heq
    cases heq
    obtain ⟨s, -, hinner⟩ := spelled.of_quote
    rw [stringBody_of_spells hinner, ok_bind] at h
    obtain ⟨y, -, h⟩ := bind_eq_ok_iff.mp h
    cases h
    rfl
  · rename_i heq
    cases heq
    -- An object has the name in its only member, and null as its value.
    obtain ⟨ms, -, hinner⟩ := spelled.of_brace
    cases ms with
    | nil =>
      rw [SpellsMembers] at hinner
      rw [hasMember_of_gap hinner] at h
      cases h
    | cons m ms =>
      obtain ⟨name, j⟩ := m
      rw [SpellsMembers] at hinner
      obtain ⟨start, named, colon', start', behind, hstart, ⟨inner', rfl, hname⟩, hcolon, hgap,
        hj, hms⟩ := hinner
      rw [hasMember_of_separates hstart, ok_bind] at h
      simp only [↓reduceIte, stringBody_of_spells hname, ok_bind] at h
      obtain ⟨y, -, h⟩ := bind_eq_ok_iff.mp h
      rw [colon_of_gap hcolon, ok_bind] at h
      obtain ⟨behind', hnull, h⟩ := bind_eq_ok_iff.mp h
      obtain rfl := readNull_aligned hgap hj hnull
      cases ms with
      | nil =>
        rw [SpellsMembers] at hms
        rw [skipBlanks_of_gap hms (by decide)] at h
        cases h
        rfl
      | cons m ms =>
        rw [SpellsMembers] at hms
        obtain ⟨_, _, _, _, _, ⟨comma, hcomma, -⟩, -⟩ := hms
        rw [skipBlanks_of_gap hcomma (by decide)] at h
        cases h
  · cases h

/-! ## Records -/

section Fields

variable {σ : Type} {name : String} {value : Reader α} {store : σ → α → σ}

theorem Field.of_takes {j : Json} {x : α} {record filled : σ} (h : Takes value j x)
    (stored : store record x = filled) :
    Takes ((Field.of name value store).read record) j filled := by
  intro cs start rest gap spelled
  simp only [Field.of, h _ _ _ gap spelled, ok_bind, stored]
  rfl

theorem Field.of_aligned (h : Aligned value) (record : σ) :
    Aligned ((Field.of name value store).read record) := by
  intro j cs start rest x left gap spelled hr
  obtain ⟨⟨y, left'⟩, hy, hr⟩ := bind_eq_ok_iff.mp hr
  cases hr
  exact h _ _ _ _ _ _ gap spelled hy

end Fields

namespace RecordForm

variable {σ : Type} {form : RecordForm σ} {ms : List (String × Json)} {first : Bool}
variable {cs start rest left : List Char}

/-- The field of a name. -/
def field? (form : RecordForm σ) (name : String) : Option (Field σ) :=
  form.fields.find? (·.name == name)

/-- The names of members that are names of fields, in the order of the members. -/
def known (form : RecordForm σ) (ms : List (String × Json)) : List String :=
  (ms.map (·.1)).filter fun name => (form.field? name).isSome

theorem known_cons_of_none {name : String} {j : Json} (h : form.field? name = none) :
    form.known ((name, j) :: ms) = form.known ms := by
  simp [known, h]

theorem known_cons_of_some {name : String} {j : Json} {field : Field σ}
    (h : form.field? name = some field) : form.known ((name, j) :: ms) = name :: form.known ms := by
  simp [known, h]

/-- An object is read member by member. Here `state seen` is the record after the fields `seen` have
been read. -/
theorem readMembers_takes {state : List String → σ} {seen : List String} {count : Nat}
    (fills : ∀ m ∈ ms, ∀ field, form.field? m.1 = some field →
      ∀ seen, Takes (field.read (state seen)) m.2 (state (m.1 :: seen)))
    (fresh : (form.known ms).Nodup) (unseen : ∀ name ∈ form.known ms, name ∉ seen)
    (spelled : SpellsMembers first ms cs rest) (enough : ms.length < count) :
    form.readMembers count first seen (state seen) cs =
      match form.missing? ((form.known ms).reverse ++ seen) with
      | some name => .error (.missingField name)
      | none => .ok (state ((form.known ms).reverse ++ seen), rest) := by
  -- By induction on the members: the next one leads on to `state (name :: seen)`, or is unknown.
  induction ms generalizing first seen cs count with
  | nil =>
    obtain ⟨count, rfl⟩ := Nat.exists_eq_succ_of_ne_zero (Nat.ne_zero_of_lt enough)
    rw [SpellsMembers] at spelled
    rw [readMembers, hasMember_of_gap spelled, ok_bind]
    rfl
  | cons m ms ih =>
    obtain ⟨name, j⟩ := m
    obtain ⟨count, rfl⟩ := Nat.exists_eq_succ_of_ne_zero (Nat.ne_zero_of_lt enough)
    have hcount := Nat.lt_of_succ_lt_succ enough
    rw [SpellsMembers] at spelled
    obtain ⟨start, named, colon', start', behind, hstart, ⟨inner, rfl, hname⟩, hcolon, hgap, hj,
      hms⟩ := spelled
    have hmore : ∀ m ∈ ms, ∀ field, form.field? m.1 = some field →
        ∀ seen, Takes (field.read (state seen)) m.2 (state (m.1 :: seen)) :=
      fun m hm => fills m (List.mem_cons_of_mem _ hm)
    rw [readMembers, hasMember_of_separates hstart, ok_bind]
    simp only [↓reduceIte, stringBody_of_spells hname, ok_bind, colon_of_gap hcolon]
    cases hf : form.field? name with
    | none =>
      have hfind : form.fields.find? (·.name == name) = none := hf
      rw [known_cons_of_none hf] at fresh unseen ⊢
      simp only [hfind, skipValue_of_spells hgap hj, ok_bind]
      exact ih hmore fresh unseen hms hcount
    | some field =>
      have hfind : form.fields.find? (·.name == name) = some field := hf
      rw [known_cons_of_some hf] at fresh unseen ⊢
      obtain ⟨hnew, hfresh⟩ := List.nodup_cons.mp fresh
      have hseen : seen.contains name = false := by
        simpa using unseen name List.mem_cons_self
      have hread := fills _ List.mem_cons_self field hf seen _ _ _ hgap hj
      simp only [hfind, hseen, Bool.false_eq_true, ↓reduceIte, hread, ok_bind]
      rw [List.reverse_cons, List.append_assoc, List.singleton_append]
      refine ih hmore hfresh (fun other ho => ?_) hms hcount
      rw [List.mem_cons, not_or]
      exact ⟨fun heq => hnew (heq ▸ ho), unseen other (List.mem_cons_of_mem _ ho)⟩

/-- If an object is read at all, it is read to its end, and no field is given twice. -/
theorem of_readMembers (aligned : ∀ field ∈ form.fields, ∀ record, Aligned (field.read record))
    {seen : List String} {count : Nat} {record x : σ} (spelled : SpellsMembers first ms cs rest)
    (h : form.readMembers count first seen record cs = .ok (x, left)) :
    left = rest ∧ (form.known ms).Nodup ∧ ∀ name ∈ form.known ms, name ∉ seen := by
  -- A name is compared with the earlier ones here, and with the later ones by induction.
  induction ms generalizing first seen record cs count with
  | nil =>
    rw [SpellsMembers] at spelled
    cases count with
    | zero => cases h
    | succ count =>
      rw [readMembers, hasMember_of_gap spelled, ok_bind] at h
      simp only [Bool.false_eq_true, ↓reduceIte] at h
      split at h
      · cases h
      · cases h
        exact ⟨rfl, List.nodup_nil, by simp [known]⟩
  | cons m ms ih =>
    obtain ⟨name, j⟩ := m
    rw [SpellsMembers] at spelled
    obtain ⟨start, named, colon', start', behind, hstart, ⟨inner, rfl, hname⟩, hcolon, hgap, hj,
      hms⟩ := spelled
    cases count with
    | zero => cases h
    | succ count =>
      rw [readMembers, hasMember_of_separates hstart, ok_bind] at h
      simp only [↓reduceIte, stringBody_of_spells hname, ok_bind, colon_of_gap hcolon] at h
      cases hf : form.field? name with
      | none =>
        have hfind : form.fields.find? (·.name == name) = none := hf
        simp only [hfind, skipValue_of_spells hgap hj, ok_bind] at h
        rw [known_cons_of_none hf]
        exact ih hms h
      | some field =>
        have hfind : form.fields.find? (·.name == name) = some field := hf
        simp only [hfind] at h
        split at h
        · cases h
        · rename_i hseen
          obtain ⟨⟨record', behind'⟩, hread, h⟩ := bind_eq_ok_iff.mp h
          obtain rfl := aligned field (List.mem_of_find?_eq_some hf) _ _ _ _ _ _ _ hgap hj hread
          obtain ⟨hleft, hnodup, hunseen⟩ := ih hms h
          rw [known_cons_of_some hf]
          refine ⟨hleft, List.nodup_cons.mpr ⟨fun hn => ?_, hnodup⟩, fun other ho => ?_⟩
          · exact hunseen name hn List.mem_cons_self
          · rcases List.mem_cons.mp ho with rfl | ho
            · simpa using hseen
            · exact fun hs => hunseen other ho (List.mem_cons_of_mem _ hs)

/-- Fields that are given as a list are read from its items. -/
theorem of_readInOrder {fields : List (Field σ)}
    (aligned : ∀ field ∈ fields, ∀ record, Aligned (field.read record)) {js : List Json}
    {index : Nat} {record x : σ} (spelled : SpellsItems (index == 0) js cs rest)
    (h : form.readInOrder fields index record cs = .ok (x, left)) :
    ∃ first js', SpellsItems first js' left rest := by
  induction fields generalizing js index record cs with
  | nil =>
    cases h
    -- There may be items left, which the closing bracket does not take.
    exact ⟨_, js, spelled⟩
  | cons field fields ih =>
    cases js with
    | nil =>
      rw [SpellsItems] at spelled
      rw [readInOrder, hasItem_of_gap spelled, ok_bind] at h
      simp only [Bool.false_eq_true, ↓reduceIte] at h
      split at h
      · cases h
      · cases h
        exact ⟨true, [], .refl _⟩
    | cons j js =>
      rw [SpellsItems] at spelled
      obtain ⟨start, behind, hstart, hj, hjs⟩ := spelled
      rw [readInOrder, hasItem_of_separates hstart hj, ok_bind] at h
      simp only [↓reduceIte] at h
      obtain ⟨⟨record', behind'⟩, hread, h⟩ := bind_eq_ok_iff.mp h
      obtain rfl := aligned field List.mem_cons_self _ _ _ _ _ _ _ (.refl _) hj hread
      have hnext : SpellsItems (index + 1 == 0) js behind' rest := hjs
      exact ih (fun f hf => aligned f (List.mem_cons_of_mem _ hf)) hnext h

end RecordForm

theorem closeList_aligned {js : List Json} {first : Bool} {cs rest left : List Char}
    (spelled : SpellsItems first js cs rest) (h : closeList cs = .ok left) : left = rest := by
  cases js with
  | nil =>
    rw [SpellsItems] at spelled
    rw [closeList, skipBlanks_of_gap spelled (by decide)] at h
    cases h
    rfl
  | cons j js =>
    rw [SpellsItems] at spelled
    -- An item that is left is refused: the first one for itself, another one for its comma.
    obtain ⟨start, behind, hstart, hj, -⟩ := spelled
    cases first with
    | true =>
      obtain ⟨c, tail, rfl, opens⟩ := hj.opens
      obtain ⟨hblank, hclose, -, hcomma, -⟩ := opens.not_mark
      rw [closeList, skipBlanks_of_gap hstart hblank] at h
      simp [hclose, hcomma] at h
    | false =>
      obtain ⟨behind', hcomma, -⟩ := hstart
      rw [closeList, skipBlanks_of_gap hcomma (by decide)] at h
      simp only [Char.reduceEq, ↓reduceIte] at h
      split at h <;> cases h

section Records

variable {σ : Type} {form : RecordForm σ} {ms : List (String × Json)}

/-- A record is read from an object that gives each field at most once and all that are required. -/
theorem readRecord_takes {state : List String → σ} (initial : state [] = form.initial)
    (fills : ∀ m ∈ ms, ∀ field, form.field? m.1 = some field →
      ∀ seen, Takes (field.read (state seen)) m.2 (state (m.1 :: seen)))
    (fresh : (form.known ms).Nodup) (complete : form.missing? (form.known ms).reverse = none) :
    Takes (readRecord form) (.object ms) (state (form.known ms).reverse) := by
  intro cs start rest gap spelled
  obtain ⟨inner, rfl, hinner⟩ := spelled
  have hlength := hinner.length_lt
  have hread := @RecordForm.readMembers_takes _ form ms _ _ _ state [] (inner.length + 1) fills
    fresh (by simp) hinner (by omega)
  rw [List.append_nil, complete, initial] at hread
  rw [readRecord, skipBlanks_of_gap gap (by decide)]
  exact hread

/-- An object that gives a field twice is not read. -/
theorem readRecord_refuses (aligned : ∀ field ∈ form.fields, ∀ record, Aligned (field.read record))
    (twice : ¬ (form.known ms).Nodup) {cs start rest : List Char} (gap : Gap cs start)
    (spelled : Spells (.object ms) start rest) : ∃ fault, readRecord form cs = .error fault := by
  obtain ⟨inner, rfl, hinner⟩ := spelled
  cases h : readRecord form cs with
  | error fault => exact ⟨fault, rfl⟩
  | ok found =>
    obtain ⟨x, left⟩ := found
    rw [readRecord, skipBlanks_of_gap gap (by decide)] at h
    exact absurd (RecordForm.of_readMembers aligned hinner h).2.1 twice

theorem readRecord_aligned
    (aligned : ∀ field ∈ form.fields, ∀ record, Aligned (field.read record)) :
    Aligned (readRecord form) := by
  intro j cs start rest x left gap spelled h
  obtain ⟨c, tail, rfl, opens⟩ := spelled.opens
  rw [readRecord, skipBlanks_of_gap gap opens.not_mark.1] at h
  split at h
  · rename_i heq
    cases heq
    obtain ⟨items, -, hinner⟩ := spelled.of_bracket
    obtain ⟨⟨record, behind⟩, hread, h⟩ := bind_eq_ok_iff.mp h
    have hfirst : SpellsItems (0 == 0) items tail rest := hinner
    obtain ⟨first, js, hrest⟩ := RecordForm.of_readInOrder aligned hfirst hread
    obtain ⟨left', hclose, h⟩ := bind_eq_ok_iff.mp h
    cases h
    exact closeList_aligned hrest hclose
  · rename_i heq
    cases heq
    obtain ⟨ms, -, hinner⟩ := spelled.of_brace
    exact (RecordForm.of_readMembers aligned hinner h).1
  · cases h

end Records

end ProtectedCall.Json
