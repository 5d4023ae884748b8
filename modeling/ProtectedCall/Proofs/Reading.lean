import Mathlib.Data.List.Forall2
import ProtectedCall.Json.Document
import ProtectedCall.Proofs.Scanning

/-!
# Reading spelled documents

* `Takes`: a reader reads the same from all spellings of a document.
* `items_takes`, `members_takes`: what stands inside a list or an object, from its parts.
* `nesting`: how deep lists and objects nest in a document.
* `readDocument_number`: a number, in range or out of it.
* `readDocument_takes`: a document is read as itself, if it does not nest too deep and its numerals
  are in range.
* `readWhole_takes`: whole texts.
-/

namespace ProtectedCall.Json

open Decimal

variable {α : Type}

/-- Wherever the document is spelled, perhaps behind blanks, the reader reads `x` and leaves what is
behind. -/
def Takes (reader : Reader α) (j : Json) (x : α) : Prop :=
  ∀ cs start rest, Gap cs start → Spells j start rest → reader cs = .ok (x, rest)

/-! ## Lists and objects -/

/-- Items are read one by one. -/
theorem itemsUpTo_takes {item : Reader α} {js : List Json} {xs : List α}
    (h : List.Forall₂ (Takes item) js xs) {first : Bool} {count : Nat} {cs rest : List Char}
    (spelled : SpellsItems first js cs rest) (enough : js.length < count) :
    itemsUpTo item count first cs = .ok (xs, ']' :: rest) := by
  induction h generalizing first count cs with
  | nil =>
    obtain ⟨count, rfl⟩ := Nat.exists_eq_succ_of_ne_zero (Nat.ne_zero_of_lt enough)
    rw [SpellsItems] at spelled
    simp [itemsUpTo, hasItem_of_gap spelled]
  | @cons j x js xs hitem _ ih =>
    obtain ⟨count, rfl⟩ := Nat.exists_eq_succ_of_ne_zero (Nat.ne_zero_of_lt enough)
    rw [SpellsItems] at spelled
    obtain ⟨start, behind, hstart, hj, hjs⟩ := spelled
    have hmore := ih hjs (Nat.lt_of_succ_lt_succ enough)
    simp [itemsUpTo, hasItem_of_separates hstart hj, hitem _ _ _ (.refl _) hj, hmore]

theorem items_takes {item : Reader α} {js : List Json} {xs : List α}
    (h : List.Forall₂ (Takes item) js xs) {cs rest : List Char}
    (spelled : SpellsItems true js cs rest) : items item cs = .ok (xs, rest) := by
  have hlength := spelled.length_lt
  have hitems := @itemsUpTo_takes _ _ _ _ h _ (cs.length + 1) _ _ spelled (by omega)
  simp [items, hitems, closeList_cons]

/-- Members are read one by one. -/
theorem membersUpTo_takes {value : Reader α} {ms : List (String × Json)} {xs : List (String × α)}
    (h : List.Forall₂ (fun m x => m.1 = x.1 ∧ Takes value m.2 x.2) ms xs) {first : Bool}
    {count : Nat} {cs rest : List Char} (spelled : SpellsMembers first ms cs rest)
    (enough : ms.length < count) : membersUpTo value count first cs = .ok (xs, rest) := by
  induction h generalizing first count cs with
  | nil =>
    obtain ⟨count, rfl⟩ := Nat.exists_eq_succ_of_ne_zero (Nat.ne_zero_of_lt enough)
    rw [SpellsMembers] at spelled
    simp [membersUpTo, hasMember_of_gap spelled]
  | @cons m x ms xs hm _ ih =>
    obtain ⟨name, j⟩ := m
    obtain ⟨name', x⟩ := x
    obtain ⟨rfl, hvalue⟩ := hm
    obtain ⟨count, rfl⟩ := Nat.exists_eq_succ_of_ne_zero (Nat.ne_zero_of_lt enough)
    rw [SpellsMembers] at spelled
    obtain ⟨start, named, colon, start', behind, hstart, ⟨inner, rfl, hname⟩, hcolon, hgap, hj,
      hms⟩ := spelled
    have hmore := ih hms (Nat.lt_of_succ_lt_succ enough)
    simp [membersUpTo, hasMember_of_separates hstart, stringBody_of_spells hname,
      colon_of_gap hcolon, hvalue _ _ _ hgap hj, hmore]

theorem members_takes {value : Reader α} {ms : List (String × Json)} {xs : List (String × α)}
    (h : List.Forall₂ (fun m x => m.1 = x.1 ∧ Takes value m.2 x.2) ms xs) {cs rest : List Char}
    (spelled : SpellsMembers true ms cs rest) : members value cs = .ok (xs, rest) := by
  have hlength := spelled.length_lt
  exact membersUpTo_takes h spelled (by omega)

/-! ## Documents -/

mutual

/-- How deep lists and objects nest. -/
def nesting : Json → Nat
  | .array items => itemsNesting items + 1
  | .object members => membersNesting members + 1
  | _ => 0

/-- How deep the items nest. -/
def itemsNesting : List Json → Nat
  | [] => 0
  | item :: items => max item.nesting (itemsNesting items)

/-- How deep the values of members nest. -/
def membersNesting : List (String × Json) → Nat
  | [] => 0
  | (_, value) :: members => max value.nesting (membersNesting members)

end

/-- The numeral stands for a number in range. -/
def InRange (n : Numeral) : Prop := (Number.ofNumeral? n).isSome

theorem readNumber_append {n : Numeral} (h : n.WellFormed) (range : InRange n) {rest : List Char}
    (stops : Stops rest) : ∃ value, readNumber (n.chars ++ rest) = .ok ((n, value), rest) := by
  obtain ⟨value, hv⟩ := Option.isSome_iff_exists.mp range
  refine ⟨value, ?_⟩
  simp [readNumber, numeral_append h stops, hv]

/-- A number is read from its numeral, at any depth. -/
theorem readDocument_number {depth : Nat} {n : Numeral} {cs start rest : List Char}
    (gap : Gap cs start) (spelled : Spells (.number n) start rest) :
    readDocument depth cs =
      (readNumber (n.chars ++ rest)).map fun found => (.number found.1.1, found.2) := by
  obtain ⟨c, tail, rfl, opens⟩ := spelled.opens
  obtain ⟨-, hchars, -⟩ := spelled
  obtain ⟨hc, hnull, htrue, hfalse, -⟩ := opens.number
  have hnumeral : (c = '-' || c.isDigit) = true := by simpa using hc
  rw [readDocument, skipBlanks_of_gap gap opens.not_mark.1]
  simp only [hnull, htrue, hfalse, hnumeral, ↓reduceIte, hchars]
  cases readNumber (n.chars ++ rest) <;> rfl

/-- What is neither a list nor an object is read at any depth. -/
theorem readDocument_takes_flat {depth : Nat} {j : Json} (flat : j.nesting = 0)
    (range : j.AllNumerals InRange) : Takes (readDocument depth) j j := by
  intro cs start rest gap spelled
  cases j with
  | null =>
    obtain rfl : start = 'n' :: ("ull".toList ++ rest) := spelled
    rw [readDocument, skipBlanks_of_gap gap (by decide)]
    simp only [↓reduceIte, word_append]
    rfl
  | boolean b =>
    cases b with
    | true =>
      obtain rfl : start = 't' :: ("rue".toList ++ rest) := spelled
      rw [readDocument, skipBlanks_of_gap gap (by decide)]
      simp only [Char.reduceEq, ↓reduceIte, word_append]
      rfl
    | false =>
      obtain rfl : start = 'f' :: ("alse".toList ++ rest) := spelled
      rw [readDocument, skipBlanks_of_gap gap (by decide)]
      simp only [Char.reduceEq, ↓reduceIte, word_append]
      rfl
  | number n =>
    rw [readDocument_number gap spelled]
    obtain ⟨hn, -, stops⟩ := spelled
    obtain ⟨value, hread⟩ := readNumber_append hn range stops
    rw [hread]
    rfl
  | string s =>
    obtain ⟨inner, rfl, hinner⟩ := spelled
    rw [readDocument, skipBlanks_of_gap gap (by decide)]
    simp [stringBody_of_spells hinner]
  | array items => simp [nesting] at flat
  | object members => simp [nesting] at flat

theorem forall₂_items {depth : Nat} {reader : Reader Json} {items : List Json}
    (h : ∀ j : Json, j.nesting ≤ depth → j.AllNumerals InRange → Takes reader j j)
    (deep : itemsNesting items ≤ depth) (range : ItemsAllNumerals InRange items) :
    List.Forall₂ (Takes reader) items items := by
  induction items with
  | nil => exact .nil
  | cons item items ih =>
    rw [itemsNesting, Nat.max_le] at deep
    exact .cons (h item deep.1 range.1) (ih deep.2 range.2)

theorem forall₂_members {depth : Nat} {reader : Reader Json} {members : List (String × Json)}
    (h : ∀ j : Json, j.nesting ≤ depth → j.AllNumerals InRange → Takes reader j j)
    (deep : membersNesting members ≤ depth) (range : MembersAllNumerals InRange members) :
    List.Forall₂ (fun m x => m.1 = x.1 ∧ Takes reader m.2 x.2) members members := by
  induction members with
  | nil => exact .nil
  | cons member members ih =>
    rw [membersNesting, Nat.max_le] at deep
    exact .cons ⟨rfl, h _ deep.1 range.1⟩ (ih deep.2 range.2)

/-- A document is read as itself. -/
theorem readDocument_takes {depth : Nat} {j : Json} (deep : j.nesting ≤ depth)
    (range : j.AllNumerals InRange) : Takes (readDocument depth) j j := by
  -- By induction on the depth that is left: parts nest one less than the whole.
  induction depth generalizing j with
  | zero => exact readDocument_takes_flat (Nat.le_zero.mp deep) range
  | succ depth ih =>
    cases j with
    | array items =>
      intro cs start rest gap spelled
      obtain ⟨inner, rfl, hitems⟩ := spelled
      have hparts := forall₂_items (fun j => @ih j) (Nat.le_of_succ_le_succ deep) range
      simp [readDocument, skipBlanks_of_gap gap (by decide), items_takes hparts hitems]
    | object members =>
      intro cs start rest gap spelled
      obtain ⟨inner, rfl, hmembers⟩ := spelled
      have hparts := forall₂_members (fun j => @ih j) (Nat.le_of_succ_le_succ deep) range
      simp [readDocument, skipBlanks_of_gap gap (by decide), members_takes hparts hmembers]
    | null | boolean | number | string => exact readDocument_takes_flat rfl range

/-! ## Whole texts -/

/-- The text is a spelling of the document, with nothing but blanks around it. -/
def SpellsWhole (j : Json) (text : String) : Prop :=
  ∃ start rest, Gap text.toList start ∧ Spells j start rest ∧ Gap rest []

theorem readWhole_takes {reader : Reader α} {j : Json} {x : α} (h : Takes reader j x)
    {text : String} (spelled : SpellsWhole j text) : readWhole reader text = .ok x := by
  obtain ⟨start, rest, hgap, hj, hrest⟩ := spelled
  have hblank : skipBlanks rest = [] := (skipBlanks_congr hrest).trans rfl
  simp [readWhole, h _ _ _ hgap hj, hblank]

theorem spellsWhole_text {j : Json} (h : j.AllNumerals Numeral.WellFormed) :
    SpellsWhole j j.text := by
  have spelled := spells_chars j h [] stops_nil
  rw [List.append_nil] at spelled
  exact ⟨j.chars, [], by rw [text, String.toList_ofList]; exact .refl _, spelled, .refl _⟩

end ProtectedCall.Json
