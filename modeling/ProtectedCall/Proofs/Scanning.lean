import ProtectedCall.Proofs.Except
import ProtectedCall.Proofs.Spelling

/-!
# Scanning spelled texts

What each piece of the scanner does on a text that is spelled right. It takes the whole piece, and
it leaves what is behind.

* `skipBlanks_of_gap`, `word_append`: blanks and words.
* `numeral_append`: a numeral, if what is behind does not belong to it.
* `stringChars_of_spells`, `stringBody_of_spells`: a string, escapes resolved.
* `hasItem_of_separates`, `hasMember_of_separates`, `colon_of_gap`: what stands between the parts
  of a list or an object.
-/

namespace ProtectedCall.Json

open Decimal

/-! ## Blanks and words -/

theorem skipBlanks_cons {c : Char} (h : isBlank c = false) (cs : List Char) :
    skipBlanks (c :: cs) = c :: cs := by
  simp [skipBlanks, h]

theorem skipBlanks_congr {cs rest : List Char} (h : Gap cs rest) :
    skipBlanks cs = skipBlanks rest := by
  induction h with
  | refl => rfl
  | cons blank _ ih => simpa [skipBlanks, blank] using ih

theorem skipBlanks_of_gap {c : Char} {cs rest : List Char} (h : Gap cs (c :: rest))
    (hc : isBlank c = false) : skipBlanks cs = c :: rest := by
  rw [skipBlanks_congr h, skipBlanks_cons hc]

theorem word_append (expected rest : List Char) : word expected (expected ++ rest) = .ok rest := by
  induction expected with
  | nil => rfl
  | cons c cs ih => simpa [word] using ih

/-! ## Numerals -/

/-- Digits are taken up to a character that is none. -/
theorem digits_append {found rest : List Char} (h : AreDigits found)
    (behind : ∀ c ∈ rest.head?, c.isDigit = false) :
    digits (found ++ rest) = .ok (found, rest) := by
  have htake : rest.takeWhile Char.isDigit = [] ∧ rest.dropWhile Char.isDigit = rest := by
    cases rest with
    | nil => exact ⟨rfl, rfl⟩
    | cons c rest =>
      have hc : c.isDigit = false := behind c rfl
      exact ⟨List.takeWhile_cons_of_neg (by simp [hc]), List.dropWhile_cons_of_neg (by simp [hc])⟩
  unfold digits
  rw [List.takeWhile_append_of_pos h.2, List.dropWhile_append_of_pos h.2, htake.1, htake.2,
    List.append_nil]
  cases found with
  | nil => exact absurd rfl h.1
  | cons c cs => rfl

theorem wholeDigits_append {n : Numeral} (h : n.WellFormed) {rest : List Char}
    (behind : ∀ c ∈ rest.head?, c.isDigit = false) :
    wholeDigits (n.whole ++ rest) = .ok (n.whole, rest) := by
  rw [wholeDigits, digits_append h.whole behind]
  by_cases hz : n.whole.head? = some '0'
  · simp [h.zero hz]
  · simp [hz]

/-- Where the exponent begins, if there is one. -/
theorem exponent_head {e : Option Exponent} {rest : List Char} (stops : Stops rest) :
    ∀ c ∈ ((e.map Exponent.chars).getD [] ++ rest).head?, c.isDigit = false ∧ c ≠ '.' := by
  cases e with
  | none =>
    intro c hc
    obtain ⟨hd, hp, -⟩ := stops c hc
    exact ⟨hd, hp⟩
  | some e =>
    intro c hc
    simp only [Option.map_some, Option.getD_some, Exponent.chars, List.cons_append, List.head?_cons,
      Option.mem_some_iff] at hc
    subst hc
    cases e.capital <;> decide

theorem fractionDigits_append {n : Numeral} (h : n.WellFormed) {rest : List Char}
    (behind : ∀ c ∈ rest.head?, c.isDigit = false ∧ c ≠ '.') :
    fractionDigits (n.fractionChars ++ rest) = .ok (n.fraction, rest) := by
  unfold Numeral.fractionChars
  cases hf : n.fraction with
  | nil =>
    cases rest with
    | nil => rfl
    | cons c rest =>
      have hc : c ≠ '.' := (behind c rfl).2
      unfold fractionDigits
      split
      · rename_i heq
        cases heq
        exact absurd rfl hc
      · rfl
  | cons d ds =>
    have found : AreDigits (d :: ds) := ⟨by simp, hf ▸ h.fraction⟩
    exact digits_append found fun c hc => (behind c hc).1

theorem exponent?_append {e : Option Exponent} (h : ∀ x ∈ e, AreDigits x.digits)
    {rest : List Char} (stops : Stops rest) :
    exponent? ((e.map Exponent.chars).getD [] ++ rest) = .ok (e, rest) := by
  cases e with
  | none =>
    cases rest with
    | nil => rfl
    | cons c rest =>
      obtain ⟨-, -, he, hE⟩ := stops c rfl
      simp [exponent?, he, hE]
  | some e =>
    have found : AreDigits e.digits := h e rfl
    have hdigits := digits_append found fun c hc => (stops c hc).1
    obtain ⟨d, ds, hd⟩ := List.exists_cons_of_ne_nil found.1
    have hdigit : d.isDigit := found.2 d (by rw [hd]; exact List.mem_cons_self)
    have hplus : d ≠ '+' := by
      rintro rfl
      cases hdigit
    have hminus : d ≠ '-' := by
      rintro rfl
      cases hdigit
    obtain ⟨capital, sign, ds'⟩ := e
    simp only at hd hdigits
    subst hd
    cases capital <;> cases sign <;>
      simp_all [exponent?, Exponent.chars, ExponentSign.chars]

/-- A numeral is read as it is written. -/
theorem numeral_append {n : Numeral} (h : n.WellFormed) {rest : List Char} (stops : Stops rest) :
    numeral (n.chars ++ rest) = .ok (n, rest) := by
  have hexponent := exponent?_append h.exponent stops
  have hhead := @exponent_head n.exponent rest stops
  have hfraction := fractionDigits_append h hhead
  have hwhole := @wholeDigits_append n h
    (n.fractionChars ++ ((n.exponent.map Exponent.chars).getD [] ++ rest)) (by
      unfold Numeral.fractionChars
      cases n.fraction with
      | nil => exact fun c hc => (hhead c hc).1
      | cons d ds => simp)
  obtain ⟨d, ds, hd⟩ := List.exists_cons_of_ne_nil h.whole.1
  have hminus : d ≠ '-' := by
    rintro rfl
    have := h.whole.2 '-' (by rw [hd]; exact List.mem_cons_self)
    cases this
  obtain ⟨negative, whole, fraction, exponent⟩ := n
  simp only at hd hwhole hfraction hexponent
  cases negative with
  | true =>
    simp [numeral, Numeral.chars, hwhole, hfraction, hexponent]
  | false =>
    subst hd
    simp_all [numeral, Numeral.chars]

/-! ## Strings -/

theorem hexUnit_of_writes {a b c d : Char} {n : Nat} (h : WritesUnit a b c d n) (cs : List Char) :
    hexUnit (a :: b :: c :: d :: cs) = .ok n := by
  obtain ⟨w, x, y, z, ha, hb, hc, hd, rfl⟩ := h
  simp [hexUnit, ha, hb, hc, hd]

/-- The characters of an escape are passed over once it is resolved. -/
theorem stringChars_append (passed cs : List Char) :
    stringChars passed.length (passed ++ cs) = stringChars 0 cs := by
  induction passed with
  | nil => rfl
  | cons c passed ih => rw [List.length_cons, List.cons_append, stringChars, ih]

theorem stringChars_escape {passed cs rest meant : List Char} {c : Char}
    (h : escape (passed ++ cs) = .ok (c, passed.length))
    (more : stringChars 0 cs = .ok (meant, rest)) :
    stringChars 0 ('\\' :: (passed ++ cs)) = .ok (c :: meant, rest) := by
  rw [stringChars]
  simp [h, stringChars_append, more]

/-- A string is read as what it stands for. -/
theorem stringChars_of_spells {meant cs rest : List Char} (h : SpellsChars meant cs rest) :
    stringChars 0 cs = .ok (meant, rest) := by
  induction h with
  | close rest => simp [stringChars]
  | plain printable quote backslash _ ih =>
    simp [stringChars, quote, backslash, printable, ih]
  | @short letter c meant cs rest hs _ ih =>
    exact @stringChars_escape [letter] _ _ _ _ (by simp [escape, hs]) ih
  | @unit a b c d n meant cs rest unit trailing leading _ ih =>
    refine @stringChars_escape ['u', a, b, c, d] _ _ _ _ ?_ ih
    simp [escape, shortEscape?, unicodeEscape, hexUnit_of_writes unit, trailing, leading]
  | @pair a b c d a' b' c' d' n n' meant cs rest unit leading unit' trailing _ ih =>
    refine @stringChars_escape ['u', a, b, c, d, '\\', 'u', a', b', c', d'] _ _ _ _ ?_ ih
    have hfirst : isTrailing n = false := by
      simp only [isLeading, Bool.and_eq_true, decide_eq_true_eq] at leading
      simp only [isTrailing, Bool.and_eq_false_iff, decide_eq_false_iff_not]
      omega
    simp [escape, shortEscape?, unicodeEscape, hexUnit_of_writes unit, hexUnit_of_writes unit',
      pairMark, hfirst, leading, trailing]

theorem stringBody_of_spells {s : String} {cs rest : List Char}
    (h : SpellsChars s.toList cs rest) : stringBody cs = .ok (s, rest) := by
  simp [stringBody, stringChars_of_spells h]

/-! ## Lists and objects -/

section Parts

variable {first : Bool} {cs start rest : List Char}

theorem hasItem_of_gap (h : Gap cs (']' :: rest)) :
    hasItem first cs = .ok (false, ']' :: rest) := by
  simp [hasItem, skipBlanks_of_gap h (by decide)]

/-- In front of an item there may be a comma, unless it is the first. -/
theorem hasItem_of_separates {j : Json} (h : Separates first cs start)
    (spelled : Spells j start rest) : hasItem first cs = .ok (true, start) := by
  obtain ⟨c, tail, rfl, opens⟩ := spelled.opens
  obtain ⟨hblank, hclose, -⟩ := opens.not_mark
  cases first with
  | true => simp [hasItem, skipBlanks_of_gap h hblank, hclose]
  | false =>
    obtain ⟨behind, hcomma, hgap⟩ := h
    simp [hasItem, skipBlanks_of_gap hcomma (by decide), skipBlanks_of_gap hgap hblank, hclose]

theorem closeList_cons (rest : List Char) : closeList (']' :: rest) = .ok rest := by
  rw [closeList, skipBlanks_cons (by decide)]
  rfl

theorem hasMember_of_gap (h : Gap cs ('\x7d' :: rest)) :
    hasMember first cs = .ok (false, rest) := by
  simp [hasMember, skipBlanks_of_gap h (by decide)]

/-- In front of a member there may be a comma, unless it is the first. -/
theorem hasMember_of_separates (h : Separates first cs ('"' :: rest)) :
    hasMember first cs = .ok (true, rest) := by
  cases first with
  | true =>
    have gap : Gap cs ('"' :: rest) := h
    simp [hasMember, skipBlanks_of_gap gap (by decide)]
  | false =>
    obtain ⟨behind, hcomma, hgap⟩ := h
    simp [hasMember, skipBlanks_of_gap hcomma (by decide), skipBlanks_of_gap hgap (by decide)]

theorem colon_of_gap (h : Gap cs (':' :: rest)) : colon cs = .ok rest := by
  simp [colon, skipBlanks_of_gap h (by decide)]

end Parts

end ProtectedCall.Json
