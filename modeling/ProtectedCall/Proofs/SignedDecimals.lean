import ProtectedCall.Proofs.Digits
import ProtectedCall.Proofs.PoolSettings

/-!
# Signed decimals

Pool settings are written as signed 32-bit decimals. What that is can be said without regard to how
a text is read, and reading keeps exactly to it, at both ends of the range and for digits without
end.

* `SpellsSigned`: at most one sign, then digits. `splitSign`: the sign and what stands behind it.
* `Exceeds`: digits at the front of a text are too much already. `readMagnitude_spec`: what reading
  digits one after the other comes to.
* `SignedFault.Of`: what is wrong with a text.
* `readInt32_eq_ok_iff`, `readInt32_eq_error_iff`: the texts that are read, and why others are not.
* `PoolOverlay.single_setting`: the whole for a single pool setting.
-/

namespace ProtectedCall

namespace Decimal

/-! ## Signs -/

/-- The text is a signed decimal of the number: at most one sign, then digits, and nothing else. -/
inductive SpellsSigned : List Char → Int → Prop where
  | unsigned {digits : List Char} (h : AreDigits digits) :
    SpellsSigned digits (Nat.ofDigitChars 10 digits 0)
  | plus {digits : List Char} (h : AreDigits digits) :
    SpellsSigned ('+' :: digits) (Nat.ofDigitChars 10 digits 0)
  | minus {digits : List Char} (h : AreDigits digits) :
    SpellsSigned ('-' :: digits) (-(Nat.ofDigitChars 10 digits 0 : Nat))

/-- Whether a minus stands in front of a text, and what stands behind the sign. -/
def splitSign : List Char → Bool × List Char
  | '-' :: digits => (true, digits)
  | '+' :: digits => (false, digits)
  | digits => (false, digits)

/-- The number of a magnitude. -/
def withSign (negative : Bool) (magnitude : Nat) : Int :=
  if negative then -magnitude else magnitude

theorem splitSign_of_unsigned {cs : List Char} (minus : ∀ digits, cs ≠ '-' :: digits)
    (plus : ∀ digits, cs ≠ '+' :: digits) : splitSign cs = (false, cs) := by
  unfold splitSign
  split
  · exact absurd rfl (minus _)
  · exact absurd rfl (plus _)
  · rfl

theorem splitSign_of_digit {c : Char} (h : c.isDigit) (cs : List Char) :
    splitSign (c :: cs) = (false, c :: cs) := by
  refine splitSign_of_unsigned (fun digits heq => ?_) fun digits heq => ?_ <;>
  · obtain ⟨rfl, -⟩ := List.cons.inj heq
    cases h

/-- Digits begin with a digit. -/
theorem AreDigits.exists_cons {digits : List Char} (h : AreDigits digits) :
    ∃ c cs, digits = c :: cs ∧ c.isDigit := by
  obtain ⟨c, cs, rfl⟩ := List.exists_cons_of_ne_nil h.1
  exact ⟨c, cs, rfl, h.2 c List.mem_cons_self⟩

theorem splitSign_of_areDigits {digits : List Char} (h : AreDigits digits) :
    splitSign digits = (false, digits) := by
  obtain ⟨c, cs, rfl, hc⟩ := h.exists_cons
  exact splitSign_of_digit hc cs

theorem spellsSigned_iff {cs : List Char} {n : Int} :
    SpellsSigned cs n ↔ AreDigits (splitSign cs).2 ∧
      n = withSign (splitSign cs).1 (Nat.ofDigitChars 10 (splitSign cs).2 0) := by
  constructor
  · intro h
    cases h with
    | unsigned h =>
      rw [splitSign_of_areDigits h]
      exact ⟨h, rfl⟩
    | plus h => exact ⟨h, rfl⟩
    | minus h => exact ⟨h, rfl⟩
  · rintro ⟨h, rfl⟩
    unfold splitSign at h ⊢
    split at h
    · exact .minus h
    · exact .plus h
    · exact .unsigned h

/-- The plain numeral of a whole number is one of its signed decimals. -/
theorem spellsSigned_ofInt (n : Int) : SpellsSigned (Numeral.ofInt n).chars n := by
  have hdigits := areDigits_natDigits n.natAbs
  have hvalue : Nat.ofDigitChars 10 (natDigits n.natAbs) 0 = n.natAbs :=
    Nat.ofDigitChars_ten_toDigits
  by_cases hn : n < 0
  · have spelled := SpellsSigned.minus hdigits
    rw [hvalue, show -(n.natAbs : Int) = n by omega] at spelled
    simpa [Numeral.ofInt, Numeral.chars, Numeral.fractionChars, hn] using spelled
  · have spelled := SpellsSigned.unsigned hdigits
    rw [hvalue, show (n.natAbs : Int) = n by omega] at spelled
    simpa [Numeral.ofInt, Numeral.chars, Numeral.fractionChars, hn] using spelled

theorem not_spellsSigned_nil {n : Int} : ¬ SpellsSigned [] n := by
  rw [spellsSigned_iff]
  exact fun h => h.1.1 rfl

/-- The signed decimals at the front of a text are the digits at the front of what stands behind
the sign. -/
theorem exists_front_iff {cs : List Char} {p : Int → Prop} :
    (∃ front n, front <+: cs ∧ SpellsSigned front n ∧ p n) ↔
      ∃ front, front <+: (splitSign cs).2 ∧ AreDigits front ∧
        p (withSign (splitSign cs).1 (Nat.ofDigitChars 10 front 0)) := by
  constructor
  · rintro ⟨front, n, hfront, spelled, hp⟩
    cases spelled with
    | unsigned h =>
      obtain ⟨c, digits, rfl, hc⟩ := h.exists_cons
      obtain ⟨rest, rfl⟩ := hfront
      rw [List.cons_append, splitSign_of_digit hc]
      exact ⟨_, List.prefix_append _ rest, h, hp⟩
    | plus h =>
      obtain ⟨rest, rfl⟩ := hfront
      exact ⟨_, List.prefix_append _ rest, h, hp⟩
    | minus h =>
      obtain ⟨rest, rfl⟩ := hfront
      exact ⟨_, List.prefix_append _ rest, h, hp⟩
  · rintro ⟨front, hfront, h, hp⟩
    generalize hsplit : splitSign cs = split at hfront hp
    unfold splitSign at hsplit
    split at hsplit <;> subst hsplit
    · exact ⟨_, _, List.cons_prefix_cons.mpr ⟨rfl, hfront⟩, .minus h, hp⟩
    · exact ⟨_, _, List.cons_prefix_cons.mpr ⟨rfl, hfront⟩, .plus h, hp⟩
    · exact ⟨_, _, hfront, .unsigned h, hp⟩

/-! ## Digits -/

/-- Digits at the front of the text, read behind a magnitude, are more than the limit. -/
def Exceeds (limit magnitude : Nat) (cs : List Char) : Prop :=
  ∃ front, front <+: cs ∧ (∀ c ∈ front, c.isDigit) ∧ limit < Nat.ofDigitChars 10 front magnitude

section

variable {limit magnitude : Nat} {beyond : SignedFault} {c : Char} {cs : List Char}

theorem exceeds_of_lt (h : limit < magnitude) : Exceeds limit magnitude cs :=
  ⟨[], List.nil_prefix, by simp, h⟩

theorem exceeds_nil (h : magnitude ≤ limit) : ¬ Exceeds limit magnitude [] := by
  rintro ⟨front, hfront, -, hlt⟩
  obtain rfl := List.prefix_nil.mp hfront
  exact Nat.not_lt.mpr h hlt

/-- What is not too much yet may be so with the next digit. -/
theorem exceeds_cons (h : magnitude ≤ limit) :
    Exceeds limit magnitude (c :: cs) ↔
      c.isDigit ∧ Exceeds limit (magnitude * 10 + digitValue c) cs := by
  constructor
  · rintro ⟨front, hfront, hdigits, hlt⟩
    rcases List.prefix_cons_iff.mp hfront with rfl | ⟨rest, rfl, hrest⟩
    · exact absurd hlt (Nat.not_lt.mpr h)
    · rw [ofDigitChars_cons] at hlt
      rw [List.forall_mem_cons] at hdigits
      exact ⟨hdigits.1, rest, hrest, hdigits.2, hlt⟩
  · rintro ⟨hc, front, hfront, hdigits, hlt⟩
    refine ⟨c :: front, List.cons_prefix_cons.mpr ⟨rfl, hfront⟩, ?_, ?_⟩
    · exact List.forall_mem_cons.mpr ⟨hc, hdigits⟩
    · rwa [ofDigitChars_cons]

/-- What reading digits comes to: their value, or the fault of what is too much, or else the fault
of what is no digit. -/
theorem readMagnitude_spec (h : magnitude ≤ limit) :
    match readMagnitude limit beyond magnitude cs with
    | .ok n => (∀ c ∈ cs, c.isDigit) ∧ ¬ Exceeds limit magnitude cs ∧
        n = Nat.ofDigitChars 10 cs magnitude
    | .error fault => Exceeds limit magnitude cs ∧ fault = beyond ∨
        ¬ Exceeds limit magnitude cs ∧ (¬ ∀ c ∈ cs, c.isDigit) ∧ fault = .invalidDigit := by
  induction cs generalizing magnitude with
  | nil => exact ⟨by simp, exceeds_nil h, rfl⟩
  | cons c cs ih =>
    rw [readMagnitude, exceeds_cons h, List.forall_mem_cons, ofDigitChars_cons]
    cases hc : c.isDigit with
    | false => simp
    | true =>
      by_cases hlt : limit < magnitude * 10 + digitValue c
      · simp [hlt, exceeds_of_lt hlt]
      · simpa [hlt] using ih (Nat.le_of_not_lt hlt)

/-- Where there are digits only, it takes all of them to tell. -/
theorem exceeds_iff (h : ∀ c ∈ cs, c.isDigit) :
    Exceeds limit magnitude cs ↔ limit < Nat.ofDigitChars 10 cs magnitude := by
  constructor
  · rintro ⟨front, ⟨rest, rfl⟩, -, hlt⟩
    rw [Nat.ofDigitChars_append]
    exact Nat.lt_of_lt_of_le hlt (le_ofDigitChars _ rest)
  · exact fun hlt => ⟨cs, List.prefix_refl cs, h, hlt⟩

/-- The same for all digits behind a sign, of which there must be some. -/
theorem readDigits_spec :
    match readDigits limit beyond cs with
    | .ok n => AreDigits cs ∧ ¬ Exceeds limit 0 cs ∧ n = Nat.ofDigitChars 10 cs 0
    | .error fault => Exceeds limit 0 cs ∧ fault = beyond ∨
        ¬ Exceeds limit 0 cs ∧ ¬ AreDigits cs ∧ fault = .invalidDigit := by
  cases cs with
  | nil => exact .inr ⟨exceeds_nil (Nat.zero_le _), fun h => h.1 rfl, rfl⟩
  | cons c cs =>
    have hdigits : AreDigits (c :: cs) ↔ ∀ d ∈ c :: cs, d.isDigit :=
      and_iff_right (List.cons_ne_nil _ _)
    rw [hdigits]
    exact readMagnitude_spec (Nat.zero_le _)

theorem readDigits_eq_ok_iff {n : Nat} :
    readDigits limit beyond cs = .ok n ↔
      AreDigits cs ∧ n = Nat.ofDigitChars 10 cs 0 ∧ n ≤ limit := by
  have spec := @readDigits_spec limit beyond cs
  constructor
  · intro h
    rw [h] at spec
    obtain ⟨hdigits, hnot, rfl⟩ := spec
    exact ⟨hdigits, rfl, Nat.le_of_not_lt fun hlt => hnot ((exceeds_iff hdigits.2).mpr hlt)⟩
  · rintro ⟨hdigits, rfl, hle⟩
    have hnot : ¬ Exceeds limit 0 cs := fun h =>
      Nat.not_lt.mpr hle ((exceeds_iff hdigits.2).mp h)
    cases hr : readDigits limit beyond cs with
    | ok n =>
      rw [hr] at spec
      rw [spec.2.2]
    | error fault =>
      rw [hr] at spec
      rcases spec with ⟨h, -⟩ | ⟨-, h, -⟩
      · exact absurd h hnot
      · exact absurd hdigits h

theorem readDigits_eq_error_iff {fault : SignedFault} :
    readDigits limit beyond cs = .error fault ↔
      Exceeds limit 0 cs ∧ fault = beyond ∨
        ¬ Exceeds limit 0 cs ∧ ¬ AreDigits cs ∧ fault = .invalidDigit := by
  have spec := @readDigits_spec limit beyond cs
  cases hr : readDigits limit beyond cs with
  | ok n =>
    rw [hr] at spec
    simp [spec.1, spec.2.1]
  | error actual =>
    rw [hr] at spec
    rw [Except.error.injEq]
    rcases spec with ⟨h, rfl⟩ | ⟨h, hnot, rfl⟩
    · simp only [h, true_and, not_true_eq_false, false_and, or_false]
      exact eq_comm
    · simp only [h, hnot, not_false_eq_true, true_and, false_and, false_or]
      exact eq_comm

end

/-! ## Whole texts -/

/-- The greatest magnitude that 32 bits hold behind a sign. -/
def magnitudeLimit (negative : Bool) : Nat := if negative then 2147483648 else 2147483647

/-- What a number is that 32 bits do not hold. -/
def beyondRange (negative : Bool) : SignedFault := if negative then .tooSmall else .tooLarge

/-- What is wrong with a text that is no signed 32-bit decimal: nothing is there, a number at its
front is too large or too small, or else it is no signed decimal at all. -/
def SignedFault.Of (cs : List Char) : SignedFault → Prop
  | .empty => cs = []
  | .tooLarge => ∃ front n, front <+: cs ∧ SpellsSigned front n ∧ 2147483647 < n
  | .tooSmall => ∃ front n, front <+: cs ∧ SpellsSigned front n ∧ n < -2147483648
  | .invalidDigit => cs ≠ [] ∧
      (∀ front, front <+: cs → ∀ n, SpellsSigned front n → -2147483648 ≤ n ∧ n ≤ 2147483647) ∧
      ∀ n, ¬ SpellsSigned cs n

theorem withSign_inRange_iff {negative : Bool} {n : Nat} :
    -2147483648 ≤ withSign negative n ∧ withSign negative n ≤ 2147483647 ↔
      n ≤ magnitudeLimit negative := by
  cases negative <;> simp only [withSign, magnitudeLimit, ↓reduceIte, Bool.false_eq_true] <;> omega

theorem toInt_ofInt_of_inRange {n : Int} (low : -2147483648 ≤ n) (high : n ≤ 2147483647) :
    (Int32.ofInt n).toInt = n :=
  Int32.toInt_ofInt_of_le low (Int.lt_add_one_of_le high)

theorem inRange_toInt (value : Int32) :
    -2147483648 ≤ value.toInt ∧ value.toInt ≤ 2147483647 :=
  ⟨value.le_toInt, Int.le_of_lt_add_one value.toInt_lt⟩

/-- Behind the sign, a text is read as digits. -/
theorem readInt32_eq {text : String} (h : text.toList ≠ []) :
    readInt32 text =
      (readDigits (magnitudeLimit (splitSign text.toList).1)
        (beyondRange (splitSign text.toList).1) (splitSign text.toList).2).map fun n =>
          Int32.ofInt (withSign (splitSign text.toList).1 n) := by
  unfold readInt32
  split
  · rename_i hnil
    exact absurd hnil h
  · rename_i hminus
    rw [hminus]
    exact bind_pure_comp _ _
  · rename_i hplus
    rw [hplus]
    exact bind_pure_comp _ _
  · rename_i hminus hplus
    rw [splitSign_of_unsigned hminus hplus]
    exact bind_pure_comp _ _

/-- Behind the sign are digits whose number 32 bits do not hold. -/
theorem not_inRange_front_iff {cs : List Char} :
    (∃ front n, front <+: cs ∧ SpellsSigned front n ∧ ¬ (-2147483648 ≤ n ∧ n ≤ 2147483647)) ↔
      Exceeds (magnitudeLimit (splitSign cs).1) 0 (splitSign cs).2 := by
  rw [exists_front_iff]
  simp only [withSign_inRange_iff, Nat.not_le]
  constructor
  · rintro ⟨front, hfront, hdigits, hlt⟩
    exact ⟨front, hfront, hdigits.2, hlt⟩
  · rintro ⟨front, hfront, hdigits, hlt⟩
    refine ⟨front, hfront, ⟨?_, hdigits⟩, hlt⟩
    rintro rfl
    exact absurd hlt (Nat.not_lt_zero _)

/-- The texts that are read are the signed decimals whose number 32 bits hold, and they are read as
that number. -/
theorem readInt32_eq_ok_iff {text : String} {value : Int32} :
    readInt32 text = .ok value ↔ SpellsSigned text.toList value.toInt := by
  by_cases hne : text.toList = []
  · rw [spellsSigned_iff, hne]
    simp [readInt32, hne, splitSign, AreDigits]
  · rw [readInt32_eq hne, spellsSigned_iff]
    cases hr : readDigits (magnitudeLimit (splitSign text.toList).1)
      (beyondRange (splitSign text.toList).1) (splitSign text.toList).2 with
    | ok n =>
      obtain ⟨hdigits, rfl, hle⟩ := readDigits_eq_ok_iff.mp hr
      obtain ⟨low, high⟩ := withSign_inRange_iff.mpr hle
      simp only [Except.map, Except.ok.injEq, hdigits, true_and]
      rw [← Int32.toInt_inj, toInt_ofInt_of_inRange low high]
      exact eq_comm
    | error fault =>
      simp only [Except.map, reduceCtorEq, false_iff, not_and]
      intro hdigits hvalue
      have hle := inRange_toInt value
      rw [hvalue, withSign_inRange_iff] at hle
      rw [readDigits_eq_ok_iff.mpr ⟨hdigits, rfl, hle⟩] at hr
      cases hr

/-- A number at the front is too large or too small as its sign has it. -/
theorem beyond_front_iff {cs : List Char} {fault : SignedFault} :
    (∃ front n, front <+: cs ∧ SpellsSigned front n ∧ ¬ (-2147483648 ≤ n ∧ n ≤ 2147483647)) ∧
      fault = beyondRange (splitSign cs).1 ↔
    fault = .tooLarge ∧ (∃ front n, front <+: cs ∧ SpellsSigned front n ∧ 2147483647 < n) ∨
      fault = .tooSmall ∧ ∃ front n, front <+: cs ∧ SpellsSigned front n ∧ n < -2147483648 := by
  simp only [exists_front_iff]
  generalize splitSign cs = split
  obtain ⟨negative, digits⟩ := split
  -- Without a minus no number is too small, and behind one none is too large.
  cases negative with
  | false =>
    have hsmall (n : Nat) : ¬ withSign false n < -2147483648 := by
      simp only [withSign, Bool.false_eq_true, ↓reduceIte]
      omega
    have hlarge (n : Nat) : ¬ (-2147483648 ≤ withSign false n ∧ withSign false n ≤ 2147483647) ↔
        2147483647 < withSign false n := by
      simp only [withSign, Bool.false_eq_true, ↓reduceIte]
      omega
    simp only [hsmall, hlarge, and_false, exists_false, or_false]
    exact and_comm
  | true =>
    have hlarge (n : Nat) : ¬ 2147483647 < withSign true n := by
      simp only [withSign, ↓reduceIte]
      omega
    have hsmall (n : Nat) : ¬ (-2147483648 ≤ withSign true n ∧ withSign true n ≤ 2147483647) ↔
        withSign true n < -2147483648 := by
      simp only [withSign, ↓reduceIte]
      omega
    simp only [hsmall, hlarge, and_false, exists_false, false_or]
    exact and_comm

/-- Why a text is not read. -/
theorem readInt32_eq_error_iff {text : String} {fault : SignedFault} :
    readInt32 text = .error fault ↔ fault.Of text.toList := by
  by_cases hne : text.toList = []
  · simp only [readInt32, hne, Except.error.injEq]
    cases fault <;> simp [SignedFault.Of, not_spellsSigned_nil]
  · have hdigits : ¬ AreDigits (splitSign text.toList).2 ↔ ∀ n, ¬ SpellsSigned text.toList n := by
      simp [spellsSigned_iff]
    have hmap {x : Except SignedFault Nat} {f : Nat → Int32} :
        x.map f = .error fault ↔ x = .error fault := by
      cases x <;> simp [Except.map]
    rw [readInt32_eq hne, hmap, readDigits_eq_error_iff, ← not_inRange_front_iff,
      beyond_front_iff, hdigits]
    cases fault <;> simp [SignedFault.Of, hne]

end Decimal

/-! ## Single settings -/

namespace PoolOverlay

open Decimal

variable {o : PoolOverlay} {e : CallError} {field : PoolField} {text : String}

theorem ofSettings_singleton (s : Setting) : ofSettings [s] = empty.addSetting s := by
  rw [ofSettings, List.foldlM_cons]
  cases empty.addSetting s <;> rfl

theorem ofSettings_singleton_eq_ok_iff :
    ofSettings [⟨field.name, text⟩] = .ok o ↔
      ∃ value : Int32, SpellsSigned text.toList value.toInt ∧ o = empty.set field value := by
  rw [ofSettings_singleton, addSetting_eq_ok_iff]
  simp only [readInt32_eq_ok_iff]
  constructor
  · rintro ⟨other, value, hname, spelled, rfl⟩
    rw [PoolField.name_injective hname]
    exact ⟨value, spelled, rfl⟩
  · rintro ⟨value, spelled, rfl⟩
    exact ⟨field, value, rfl, spelled, rfl⟩

theorem ofSettings_singleton_eq_error_iff :
    ofSettings [⟨field.name, text⟩] = .error e ↔
      ∃ fault : SignedFault, fault.Of text.toList ∧ e = .invalidSetting field.name text fault := by
  rw [ofSettings_singleton, addSetting_eq_error_iff, Setting.fault?_eq_some_iff]
  simp only [readInt32_eq_error_iff]
  constructor
  · rintro (⟨hunknown, -⟩ | ⟨-, hfault⟩)
    · exact absurd rfl (hunknown field)
    · exact hfault
  · exact fun hfault => .inr ⟨⟨field, rfl⟩, hfault⟩

/-- One field is overridden, and no other. -/
theorem eq_set_iff {value : Int32} :
    o = empty.set field value ↔
      ∀ other, o.get other = if other = field then some value else none := by
  constructor
  · rintro rfl other
    rw [get_set, get_empty]
  · intro h
    exact eq_of_get fun other => by rw [h, get_set, get_empty]

/-- What a single setting of one of the six comes to. It is taken if its value is a signed decimal,
that is at most one sign and then digits, with any number of zeros in front, and 32 bits hold the
number. Then exactly that number overrides the field, and no other field is overridden. Every other
value is refused with the name and the value as they are, and there is no overlay. -/
theorem single_setting (field : PoolField) (text : String) :
    (∀ o, ofSettings [⟨field.name, text⟩] = .ok o ↔
      ∃ n, SpellsSigned text.toList n ∧ (-2147483648 ≤ n ∧ n ≤ 2147483647) ∧
        ∃ value : Int32, value.toInt = n ∧
          ∀ other, o.get other = if other = field then some value else none) ∧
    ((∃ e, ofSettings [⟨field.name, text⟩] = .error e) ↔
      ¬ ∃ n, SpellsSigned text.toList n ∧ -2147483648 ≤ n ∧ n ≤ 2147483647) ∧
    (∀ e, ofSettings [⟨field.name, text⟩] = .error e ↔
      ∃ fault : SignedFault, fault.Of text.toList ∧ e = .invalidSetting field.name text fault) := by
  have taken (o : PoolOverlay) : ofSettings [⟨field.name, text⟩] = .ok o ↔
      ∃ n, SpellsSigned text.toList n ∧ (-2147483648 ≤ n ∧ n ≤ 2147483647) ∧
        ∃ value : Int32, value.toInt = n ∧
          ∀ other, o.get other = if other = field then some value else none := by
    simp only [ofSettings_singleton_eq_ok_iff, eq_set_iff]
    constructor
    · rintro ⟨value, spelled, hget⟩
      exact ⟨_, spelled, inRange_toInt value, value, rfl, hget⟩
    · rintro ⟨_, spelled, -, value, rfl, hget⟩
      exact ⟨value, spelled, hget⟩
  refine ⟨taken, ?_, fun e => ofSettings_singleton_eq_error_iff⟩
  constructor
  · rintro ⟨e, he⟩ ⟨n, spelled, low, high⟩
    have hn := toInt_ofInt_of_inRange low high
    have hok := (taken _).mpr ⟨n, spelled, ⟨low, high⟩, _, hn, eq_set_iff.mp rfl⟩
    rw [hok] at he
    cases he
  · intro hnot
    cases ho : ofSettings [⟨field.name, text⟩] with
    | error e => exact ⟨e, rfl⟩
    | ok o =>
      obtain ⟨n, spelled, range, -⟩ := (taken o).mp ho
      exact absurd ⟨n, spelled, range⟩ hnot

example : ofSettings [⟨"coreSize", "-002147483648"⟩] = .ok (withCoreSize {} Int32.minValue) := by
  decide +kernel

example : ofSettings [⟨"coreSize", "2147483648 threads"⟩] =
    .error (.invalidSetting "coreSize" "2147483648 threads" .tooLarge) := by
  decide +kernel

end PoolOverlay

end ProtectedCall
