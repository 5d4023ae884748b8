import Mathlib.Tactic.SplitIfs
import ProtectedCall.Json.Basic
import ProtectedCall.Json.Scanner

/-!
# Spellings of JSON documents

A document can be spelled in many ways: with blanks between its pieces and with escapes inside its
strings. The spellings are given as relations between a text and what is left of it behind the
document, without regard to how a text is read.

* `Gap`: blanks.
* `Decimal.Numeral.WellFormed`, `Stops`: a numeral of JSON, and what may be written behind it.
* `SpellsChars`, `SpellsString`: the spellings of a string.
* `Spells`, `SpellsItems`, `SpellsMembers`: the spellings of a document and of its parts.
* `Opens`: how a spelling begins (`Spells.opens`).
* `Spells.length_lt`: every part takes at least a character.
* `AllNumerals`: a property of all numerals of a document. If they are those of JSON, the compact
  text is a spelling (`spells_chars`).
-/

namespace ProtectedCall

/-! ## Numerals -/

namespace Decimal

/-- At least one digit, and nothing else. -/
def AreDigits (cs : List Char) : Prop := cs ≠ [] ∧ ∀ c ∈ cs, c.isDigit

/-- A numeral of JSON has no leading zero, and it has digits behind a point and in an exponent. -/
structure Numeral.WellFormed (n : Numeral) : Prop where
  whole : AreDigits n.whole
  zero : n.whole.head? = some '0' → n.whole.length = 1
  fraction : ∀ c ∈ n.fraction, c.isDigit
  exponent : ∀ e ∈ n.exponent, AreDigits e.digits

/-- The first character of a numeral. -/
theorem Numeral.WellFormed.head {n : Numeral} (h : n.WellFormed) (rest : List Char) :
    ∃ c tail, n.chars ++ rest = c :: tail ∧ (c = '-' ∨ c.isDigit) := by
  unfold chars
  cases hn : n.negative with
  | true => exact ⟨'-', _, rfl, .inl rfl⟩
  | false =>
    obtain ⟨hne, hd⟩ := h.whole
    obtain ⟨c, cs, hw⟩ := List.exists_cons_of_ne_nil hne
    rw [hw] at hd ⊢
    exact ⟨c, _, rfl, .inr (hd c List.mem_cons_self)⟩

end Decimal

namespace Json

open Decimal

/-- Nothing but blanks stands in front of `rest`. -/
inductive Gap : List Char → List Char → Prop where
  | refl (rest : List Char) : Gap rest rest
  | cons {c : Char} {cs rest : List Char} (blank : isBlank c) (gap : Gap cs rest) :
    Gap (c :: cs) rest

/-- What is written behind a numeral does not belong to it. -/
def Stops (rest : List Char) : Prop :=
  ∀ c ∈ rest.head?, c.isDigit = false ∧ c ≠ '.' ∧ c ≠ 'e' ∧ c ≠ 'E'

theorem stops_nil : Stops [] := by simp [Stops]

theorem stops_cons {c : Char} (h : c.isDigit = false ∧ c ≠ '.' ∧ c ≠ 'e' ∧ c ≠ 'E')
    (rest : List Char) : Stops (c :: rest) := by
  simpa [Stops] using h

/-! ## Strings -/

/-- Four hexadecimal digits of either case write a 16-bit unit. -/
def WritesUnit (a b c d : Char) (unit : Nat) : Prop :=
  ∃ w x y z, hexValue? a = some w ∧ hexValue? b = some x ∧ hexValue? c = some y ∧
    hexValue? d = some z ∧ unit = ((w * 16 + x) * 16 + y) * 16 + z

/-- The characters that a text stands for, up to its closing quote. -/
inductive SpellsChars : List Char → List Char → List Char → Prop where
  | close (rest : List Char) : SpellsChars [] ('"' :: rest) rest
  | plain {c : Char} {meant cs rest : List Char} (printable : ¬ c < ' ') (quote : c ≠ '"')
      (backslash : c ≠ '\\') (more : SpellsChars meant cs rest) :
    SpellsChars (c :: meant) (c :: cs) rest
  | short {letter c : Char} {meant cs rest : List Char} (escape : shortEscape? letter = some c)
      (more : SpellsChars meant cs rest) : SpellsChars (c :: meant) ('\\' :: letter :: cs) rest
  | unit {a b c d : Char} {n : Nat} {meant cs rest : List Char} (unit : WritesUnit a b c d n)
      (trailing : isTrailing n = false) (leading : isLeading n = false)
      (more : SpellsChars meant cs rest) :
    SpellsChars (Char.ofNat n :: meant) ('\\' :: 'u' :: a :: b :: c :: d :: cs) rest
  | pair {a b c d a' b' c' d' : Char} {n n' : Nat} {meant cs rest : List Char}
      (unit : WritesUnit a b c d n) (leading : isLeading n) (unit' : WritesUnit a' b' c' d' n')
      (trailing : isTrailing n') (more : SpellsChars meant cs rest) :
    SpellsChars (ofPair n n' :: meant)
      ('\\' :: 'u' :: a :: b :: c :: d :: '\\' :: 'u' :: a' :: b' :: c' :: d' :: cs) rest

/-- A string between quotes. -/
def SpellsString (s : String) (cs rest : List Char) : Prop :=
  ∃ inner, cs = '"' :: inner ∧ SpellsChars s.toList inner rest

/-! ## Documents -/

/-- What stands in front of a part of a list or an object: a comma, unless it is the first. -/
def Separates (first : Bool) (cs start : List Char) : Prop :=
  if first then Gap cs start else ∃ behind, Gap cs (',' :: behind) ∧ Gap behind start

mutual

/-- The text begins with a spelling of the document, and `rest` is behind it. -/
def Spells : Json → List Char → List Char → Prop
  | .null, cs, rest => cs = 'n' :: ("ull".toList ++ rest)
  | .boolean true, cs, rest => cs = 't' :: ("rue".toList ++ rest)
  | .boolean false, cs, rest => cs = 'f' :: ("alse".toList ++ rest)
  | .number n, cs, rest => n.WellFormed ∧ cs = n.chars ++ rest ∧ Stops rest
  | .string s, cs, rest => SpellsString s cs rest
  | .array items, cs, rest => ∃ inner, cs = '[' :: inner ∧ SpellsItems true items inner rest
  | .object members, cs, rest =>
    ∃ inner, cs = '\x7b' :: inner ∧ SpellsMembers true members inner rest

/-- The items of a list from one on, up to and with the closing bracket. -/
def SpellsItems : Bool → List Json → List Char → List Char → Prop
  | _, [], cs, rest => Gap cs (']' :: rest)
  | first, item :: items, cs, rest => ∃ start behind, Separates first cs start ∧
      Spells item start behind ∧ SpellsItems false items behind rest

/-- The members of an object from one on, up to and with the closing brace. -/
def SpellsMembers : Bool → List (String × Json) → List Char → List Char → Prop
  | _, [], cs, rest => Gap cs ('\x7d' :: rest)
  | first, (name, value) :: members, cs, rest => ∃ start named colon start' behind,
      Separates first cs start ∧ SpellsString name start named ∧ Gap named (':' :: colon) ∧
      Gap colon start' ∧ Spells value start' behind ∧ SpellsMembers false members behind rest

end

/-- How a spelling of the document begins. -/
def Opens : Json → Char → Prop
  | .null, c => c = 'n'
  | .boolean true, c => c = 't'
  | .boolean false, c => c = 'f'
  | .number _, c => c = '-' ∨ c.isDigit
  | .string _, c => c = '"'
  | .array _, c => c = '['
  | .object _, c => c = '\x7b'

theorem Spells.opens {j : Json} {cs rest : List Char} (h : Spells j cs rest) :
    ∃ c tail, cs = c :: tail ∧ j.Opens c := by
  cases j with
  | null => exact ⟨_, _, h, rfl⟩
  | boolean b => cases b <;> exact ⟨_, _, h, rfl⟩
  | number n =>
    obtain ⟨hn, rfl, -⟩ := h
    exact hn.head rest
  | string s =>
    obtain ⟨inner, rfl, -⟩ := h
    exact ⟨_, _, rfl, rfl⟩
  | array items =>
    obtain ⟨inner, rfl, -⟩ := h
    exact ⟨_, _, rfl, rfl⟩
  | object members =>
    obtain ⟨inner, rfl, -⟩ := h
    exact ⟨_, _, rfl, rfl⟩

/-- A numeral does not begin as anything else does. -/
theorem Opens.number {n : Numeral} {c : Char} (h : (Json.number n).Opens c) :
    (c = '-' ∨ c.isDigit) ∧ c ≠ 'n' ∧ c ≠ 't' ∧ c ≠ 'f' ∧ c ≠ '"' ∧ c ≠ '[' ∧ c ≠ '\x7b' := by
  refine ⟨h, ?_⟩
  rcases h with rfl | hd
  · decide
  · refine ⟨?_, ?_, ?_, ?_, ?_, ?_⟩ <;>
    · rintro rfl
      cases hd

/-- No document opens with a blank or with a mark that stands between documents. -/
theorem Opens.not_mark {j : Json} {c : Char} (h : j.Opens c) :
    isBlank c = false ∧ c ≠ ']' ∧ c ≠ '\x7d' ∧ c ≠ ',' ∧ c ≠ ':' := by
  have digit {c : Char} (hd : c.isDigit) :
      isBlank c = false ∧ c ≠ ']' ∧ c ≠ '\x7d' ∧ c ≠ ',' ∧ c ≠ ':' := by
    refine ⟨Bool.eq_false_iff.mpr fun hb => ?_, ?_, ?_, ?_, ?_⟩
    · simp only [isBlank, Bool.or_eq_true, decide_eq_true_eq] at hb
      rcases hb with ((rfl | rfl) | rfl) | rfl <;> cases hd
    all_goals
      rintro rfl
      cases hd
  cases j with
  | boolean b => cases b <;> (cases h; decide)
  | number n =>
    rcases h with rfl | hd
    · decide
    · exact digit hd
  | null | string | array | object => cases h; decide

/-! ## Lengths -/

theorem Gap.length_le {cs rest : List Char} (h : Gap cs rest) : rest.length ≤ cs.length := by
  induction h with
  | refl => exact Nat.le_refl _
  | cons _ _ ih => exact Nat.le_succ_of_le ih

theorem SpellsChars.length_lt {meant cs rest : List Char} (h : SpellsChars meant cs rest) :
    rest.length < cs.length := by
  induction h with
  | close rest => exact Nat.lt_succ_self _
  | plain | short | unit | pair =>
    simp only [List.length_cons]
    omega

theorem SpellsString.length_lt {s : String} {cs rest : List Char} (h : SpellsString s cs rest) :
    rest.length < cs.length := by
  obtain ⟨inner, rfl, hinner⟩ := h
  exact Nat.lt_succ_of_lt hinner.length_lt

theorem Separates.length_le {first : Bool} {cs start : List Char} (h : Separates first cs start) :
    start.length ≤ cs.length := by
  cases first with
  | true => exact Gap.length_le h
  | false =>
    obtain ⟨behind, hcomma, hgap⟩ := h
    have := hcomma.length_le
    have := hgap.length_le
    simp only [List.length_cons] at *
    omega

mutual

/-- A document takes at least a character. -/
theorem Spells.length_lt : ∀ {j : Json} {cs rest : List Char}, Spells j cs rest →
    rest.length < cs.length
  | .null, _, _, h => by
    rw [Spells] at h
    rw [h, List.length_cons, List.length_append]
    omega
  | .boolean true, _, _, h => by
    rw [Spells] at h
    rw [h, List.length_cons, List.length_append]
    omega
  | .boolean false, _, _, h => by
    rw [Spells] at h
    rw [h, List.length_cons, List.length_append]
    omega
  | .number n, _, rest, h => by
    rw [Spells] at h
    obtain ⟨hn, rfl, -⟩ := h
    have := List.length_pos_iff.mpr hn.whole.1
    simp only [Numeral.chars, List.length_append]
    omega
  | .string s, _, _, h => by
    rw [Spells] at h
    exact h.length_lt
  | .array items, _, _, h => by
    rw [Spells] at h
    obtain ⟨inner, rfl, hinner⟩ := h
    have := hinner.length_lt
    simp only [List.length_cons]
    omega
  | .object members, _, _, h => by
    rw [Spells] at h
    obtain ⟨inner, rfl, hinner⟩ := h
    have := hinner.length_lt
    simp only [List.length_cons]
    omega

/-- So does every item. -/
theorem SpellsItems.length_lt : ∀ {items : List Json} {first : Bool} {cs rest : List Char},
    SpellsItems first items cs rest → rest.length + items.length < cs.length
  | [], _, _, _, h => by
    rw [SpellsItems] at h
    have := h.length_le
    simp only [List.length_cons, List.length_nil] at *
    omega
  | item :: items, _, _, _, h => by
    rw [SpellsItems] at h
    obtain ⟨start, behind, hstart, hitem, hitems⟩ := h
    have := hstart.length_le
    have := hitem.length_lt
    have := hitems.length_lt
    simp only [List.length_cons]
    omega

/-- So does every member. -/
theorem SpellsMembers.length_lt : ∀ {members : List (String × Json)} {first : Bool}
    {cs rest : List Char}, SpellsMembers first members cs rest →
    rest.length + members.length < cs.length
  | [], _, _, _, h => by
    rw [SpellsMembers] at h
    have := h.length_le
    simp only [List.length_cons, List.length_nil] at *
    omega
  | (name, value) :: members, _, _, _, h => by
    rw [SpellsMembers] at h
    obtain ⟨start, named, colon, start', behind, hstart, hname, hcolon, hgap, hvalue, hmore⟩ := h
    have := hstart.length_le
    have := hname.length_lt
    have := hcolon.length_le
    have := hgap.length_le
    have := hvalue.length_lt
    have := hmore.length_lt
    simp only [List.length_cons] at *
    omega

end

/-! ## The compact text -/

mutual

/-- All numerals of the document have the property. -/
def AllNumerals (p : Numeral → Prop) : Json → Prop
  | .number n => p n
  | .array items => ItemsAllNumerals p items
  | .object members => MembersAllNumerals p members
  | _ => True

/-- All numerals of the items have the property. -/
def ItemsAllNumerals (p : Numeral → Prop) : List Json → Prop
  | [] => True
  | item :: items => item.AllNumerals p ∧ ItemsAllNumerals p items

/-- All numerals of the values of members have the property. -/
def MembersAllNumerals (p : Numeral → Prop) : List (String × Json) → Prop
  | [] => True
  | (_, value) :: members => value.AllNumerals p ∧ MembersAllNumerals p members

end

mutual

/-- The numerals of a spelling are those of JSON, so a property need only follow for these. -/
theorem Spells.allNumerals {p q : Numeral → Prop} (h : ∀ n, n.WellFormed → p n → q n) :
    ∀ {j : Json} {cs rest : List Char}, Spells j cs rest → j.AllNumerals p → j.AllNumerals q
  | .null, _, _, _, _ => trivial
  | .boolean _, _, _, _, _ => trivial
  | .number n, _, _, spelled, hn => h n spelled.1 hn
  | .string _, _, _, _, _ => trivial
  | .array _, _, _, ⟨_, _, hitems⟩, hall => SpellsItems.allNumerals h hitems hall
  | .object _, _, _, ⟨_, _, hmembers⟩, hall => SpellsMembers.allNumerals h hmembers hall

theorem SpellsItems.allNumerals {p q : Numeral → Prop} (h : ∀ n, n.WellFormed → p n → q n) :
    ∀ {first : Bool} {items : List Json} {cs rest : List Char}, SpellsItems first items cs rest →
      ItemsAllNumerals p items → ItemsAllNumerals q items
  | _, [], _, _, _, _ => trivial
  | _, _ :: _, _, _, ⟨_, _, _, hitem, hitems⟩, hall =>
    ⟨hitem.allNumerals h hall.1, hitems.allNumerals h hall.2⟩

theorem SpellsMembers.allNumerals {p q : Numeral → Prop} (h : ∀ n, n.WellFormed → p n → q n) :
    ∀ {first : Bool} {members : List (String × Json)} {cs rest : List Char},
      SpellsMembers first members cs rest →
      MembersAllNumerals p members → MembersAllNumerals q members
  | _, [], _, _, _, _ => trivial
  | _, (_, _) :: _, _, _, ⟨_, _, _, _, _, _, _, _, _, hvalue, hmembers⟩, hall =>
    ⟨hvalue.allNumerals h hall.1, hmembers.allNumerals h hall.2⟩

end

theorem hexValue?_hexDigit {n : Nat} (h : n < 16) : hexValue? (hexDigit n) = some n := by
  have all : ∀ n < 16, hexValue? (hexDigit n) = some n := by decide
  exact all n h

/-- A character inside quotes as it is written there. -/
theorem spellsChars_escapeChar {c : Char} {meant cs rest : List Char}
    (more : SpellsChars meant cs rest) : SpellsChars (c :: meant) (escapeChar c ++ cs) rest := by
  unfold escapeChar
  split_ifs with quote backslash b t n f r control
  · subst quote
    exact .short rfl more
  · subst backslash
    exact .short rfl more
  · subst b
    exact .short rfl more
  · subst t
    exact .short rfl more
  · subst n
    exact .short rfl more
  · subst f
    exact .short rfl more
  · subst r
    exact .short rfl more
  -- The other control characters are written with four hexadecimal digits, two of them zeros.
  · have hc : c.toNat < 32 := control
    have unit : WritesUnit '0' '0' (hexDigit (c.toNat / 16)) (hexDigit (c.toNat % 16)) c.toNat :=
      ⟨0, 0, c.toNat / 16, c.toNat % 16, rfl, rfl, hexValue?_hexDigit (by omega),
        hexValue?_hexDigit (by omega), by omega⟩
    have spelled := SpellsChars.unit unit (by simp [isTrailing]; omega)
      (by simp [isLeading]; omega) more
    rw [Char.ofNat_toNat] at spelled
    exact spelled
  · exact .plain control quote backslash more

theorem spellsString_quotedChars (s : String) (rest : List Char) :
    SpellsString s (quotedChars s ++ rest) rest := by
  have inner (cs : List Char) : SpellsChars cs (cs.flatMap escapeChar ++ '"' :: rest) rest := by
    induction cs with
    | nil => exact .close rest
    | cons c cs ih =>
      rw [List.flatMap_cons, List.append_assoc]
      exact spellsChars_escapeChar ih
  refine ⟨_, rfl, ?_⟩
  simpa using inner s.toList

theorem stops_furtherItems (items : List Json) (rest : List Char) :
    Stops (furtherItems items ++ rest) := by
  cases items with
  | nil =>
    rw [furtherItems]
    exact stops_cons (by decide) _
  | cons item items =>
    rw [furtherItems]
    exact stops_cons (by decide) _

theorem stops_furtherMembers (members : List (String × Json)) (rest : List Char) :
    Stops (furtherMembers members ++ rest) := by
  cases members with
  | nil =>
    rw [furtherMembers]
    exact stops_cons (by decide) _
  | cons member members =>
    rw [furtherMembers]
    exact stops_cons (by decide) _

mutual

/-- The compact text of a document is a spelling of it. -/
theorem spells_chars : ∀ (j : Json), j.AllNumerals Numeral.WellFormed → ∀ rest,
    Stops rest → Spells j (j.chars ++ rest) rest
  | .null, _, rest, _ => by rw [chars, Spells]; rfl
  | .boolean true, _, rest, _ => by rw [chars, Spells]; rfl
  | .boolean false, _, rest, _ => by rw [chars, Spells]; rfl
  | .number n, h, rest, stops => by
    rw [chars, Spells]
    exact ⟨h, rfl, stops⟩
  | .string s, _, rest, _ => by
    rw [chars, Spells]
    exact spellsString_quotedChars s rest
  | .array [], _, rest, _ => by
    rw [chars, Spells]
    exact ⟨_, rfl, .refl _⟩
  | .array (item :: items), h, rest, _ => by
    obtain ⟨hitem, hitems⟩ := h
    have first := spells_chars item hitem _ (stops_furtherItems items rest)
    rw [chars, Spells, List.cons_append, List.append_assoc]
    exact ⟨_, rfl, _, _, .refl _, first, spellsItems_further items hitems rest⟩
  | .object [], _, rest, _ => by
    rw [chars, Spells]
    exact ⟨_, rfl, .refl _⟩
  | .object ((name, value) :: members), h, rest, _ => by
    obtain ⟨hvalue, hmembers⟩ := h
    have first := spells_chars value hvalue _ (stops_furtherMembers members rest)
    rw [chars, Spells, List.cons_append, List.append_assoc, List.cons_append, List.append_assoc]
    exact ⟨_, rfl, _, _, _, _, _, .refl _, spellsString_quotedChars name _, .refl _, .refl _, first,
      spellsMembers_further members hmembers rest⟩

theorem spellsItems_further : ∀ (items : List Json),
    ItemsAllNumerals Numeral.WellFormed items → ∀ rest,
    SpellsItems false items (furtherItems items ++ rest) rest
  | [], _, rest => by
    rw [furtherItems, SpellsItems]
    exact .refl _
  | item :: items, h, rest => by
    obtain ⟨hitem, hitems⟩ := h
    have next := spells_chars item hitem _ (stops_furtherItems items rest)
    rw [furtherItems, SpellsItems, List.cons_append, List.append_assoc]
    exact ⟨_, _, ⟨_, .refl _, .refl _⟩, next, spellsItems_further items hitems rest⟩

theorem spellsMembers_further : ∀ (members : List (String × Json)),
    MembersAllNumerals Numeral.WellFormed members → ∀ rest,
    SpellsMembers false members (furtherMembers members ++ rest) rest
  | [], _, rest => by
    rw [furtherMembers, SpellsMembers]
    exact .refl _
  | (name, value) :: members, h, rest => by
    obtain ⟨hvalue, hmembers⟩ := h
    have next := spells_chars value hvalue _ (stops_furtherMembers members rest)
    rw [furtherMembers, SpellsMembers, List.cons_append, List.append_assoc, List.cons_append,
      List.append_assoc]
    exact ⟨_, _, _, _, _, ⟨_, .refl _, .refl _⟩, spellsString_quotedChars name _, .refl _, .refl _,
      next, spellsMembers_further members hmembers rest⟩

end

end Json

end ProtectedCall
