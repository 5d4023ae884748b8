import ProtectedCall.Json.Number
import ProtectedCall.Proofs.Reading

/-!
# Digits of whole numbers

* `areDigits_natDigits`, `natDigits_head`: the digits of a natural number, without leading zeros.
* `Numeral.ofInt_wellFormed`: so the plain numeral of a whole number is one of JSON.
* `appendDigits_eq`, `eq_of_appendDigits`: reading digits gives their value, if 64 bits hold it.
* `Number.ofNumeral?_eq_integer_iff`: which numerals are read as whole numbers.
  `Number.ofNumeral?_ofInt`: so whole numbers of 64 bits are read as themselves.
-/

namespace ProtectedCall.Decimal

theorem areDigits_natDigits (n : Nat) : AreDigits (natDigits n) :=
  ⟨Nat.toDigits_ne_nil, fun _ hc => Nat.isDigit_of_mem_toDigits (by decide) (by decide) hc⟩

/-- Only zero begins with a zero. -/
theorem natDigits_head {n : Nat} (h : (natDigits n).head? = some '0') : n = 0 := by
  induction n using Nat.strongRecOn with
  | ind n ih =>
    unfold natDigits at h
    by_cases hn : n < 10
    · have all : ∀ k < 10, Nat.digitChar k = '0' → k = 0 := by decide
      rw [Nat.toDigits_of_lt_base hn] at h
      exact all n hn (Option.some.inj h)
    · rw [Nat.toDigits_of_base_le (by decide) (Nat.le_of_not_lt hn),
        List.head?_append_of_ne_nil _ Nat.toDigits_ne_nil] at h
      have := ih (n / 10) (by omega) h
      omega

/-- Digits behind a magnitude are read from the left. -/
theorem ofDigitChars_cons (c : Char) (cs : List Char) (magnitude : Nat) :
    Nat.ofDigitChars 10 (c :: cs) magnitude =
      Nat.ofDigitChars 10 cs (magnitude * 10 + digitValue c) := by
  rw [Nat.ofDigitChars_cons, Nat.mul_comm, digitValue]

/-- More digits do not make a magnitude smaller. -/
theorem le_ofDigitChars (magnitude : Nat) (cs : List Char) :
    magnitude ≤ Nat.ofDigitChars 10 cs magnitude := by
  rw [Nat.ofDigitChars_eq_ofDigitChars_zero]
  exact Nat.le_add_right_of_le (Nat.le_mul_of_pos_left _ (Nat.pow_pos (by decide)))

theorem Numeral.ofInt_wellFormed (n : Int) : (ofInt n).WellFormed where
  whole := areDigits_natDigits _
  zero h := by
    have hn := natDigits_head h
    rw [ofInt, hn]
    rfl
  fraction := by
    intro c hc
    cases hc
  exponent := by
    intro e he
    cases he

/-- The number that the digits in front of a point write, with the sign. -/
def Numeral.wholeValue (n : Numeral) : Int :=
  if n.negative then -(Nat.ofDigitChars 10 n.whole 0 : Nat) else Nat.ofDigitChars 10 n.whole 0

theorem Numeral.wholeValue_ofInt (n : Int) : (ofInt n).wholeValue = n := by
  have hdigits : Nat.ofDigitChars 10 (natDigits n.natAbs) 0 = n.natAbs :=
    Nat.ofDigitChars_ten_toDigits
  simp only [wholeValue, ofInt, hdigits, decide_eq_true_eq]
  split <;> omega

end ProtectedCall.Decimal

namespace ProtectedCall.Json

open Decimal

/-- Digits that 64 bits hold are all taken. -/
theorem appendDigits_eq {ds : List Char} {significand : Nat}
    (h : Nat.ofDigitChars 10 ds significand < significandBound) :
    appendDigits significand ds = (Nat.ofDigitChars 10 ds significand, ds.length) := by
  induction ds generalizing significand with
  | nil => rfl
  | cons c ds ih =>
    rw [ofDigitChars_cons] at h ⊢
    have hle := le_ofDigitChars (significand * 10 + digitValue c) ds
    rw [appendDigits, if_pos (Nat.lt_of_le_of_lt hle h), ih h]
    rfl

/-- Where all digits are taken, 64 bits hold their value. -/
theorem eq_of_appendDigits {ds : List Char} {significand : Nat}
    (h : (appendDigits significand ds).2 = ds.length) :
    (appendDigits significand ds).1 = Nat.ofDigitChars 10 ds significand ∧
      (significand < significandBound → Nat.ofDigitChars 10 ds significand < significandBound) := by
  induction ds generalizing significand with
  | nil => exact ⟨rfl, id⟩
  | cons c ds ih =>
    rw [appendDigits] at h ⊢
    rw [ofDigitChars_cons]
    by_cases hlt : significand * 10 + digitValue c < significandBound
    · rw [if_pos hlt] at h ⊢
      obtain ⟨hvalue, hbound⟩ := ih (Nat.succ.inj h)
      exact ⟨hvalue, fun _ => hbound hlt⟩
    · rw [if_neg hlt] at h
      cases h

theorem Number.ofWhole_eq_integer_iff {negative : Bool} {magnitude : Nat} {k : Int} :
    Number.ofWhole negative magnitude = .integer k ↔
      (if negative then -magnitude else magnitude : Int) = k ∧ -0x8000000000000000 ≤ k ∧
        ¬ (negative ∧ k = 0) := by
  cases negative with
  | false =>
    simp only [ofWhole, Bool.false_eq_true, ↓reduceIte, integer.injEq, false_and, not_false_eq_true,
      and_true, iff_self_and]
    omega
  | true =>
    by_cases hfloat : magnitude = 0 || 0x8000000000000000 < magnitude
    · simp only [ofWhole, hfloat, ↓reduceIte, reduceCtorEq, true_and, false_iff]
      simp only [Bool.or_eq_true, decide_eq_true_eq] at hfloat
      omega
    · simp only [ofWhole, hfloat, ↓reduceIte, Bool.false_eq_true, integer.injEq, true_and]
      simp only [Bool.or_eq_true, decide_eq_true_eq] at hfloat
      omega

/-- A numeral is read as a whole number exactly if it is written as one, without point and exponent,
and 64 bits hold it, signed or not. Minus zero is none. -/
theorem Number.ofNumeral?_eq_integer_iff {n : Numeral} {k : Int} :
    Number.ofNumeral? n = some (.integer k) ↔ n.fraction = [] ∧ n.exponent = none ∧
      n.wholeValue = k ∧ -0x8000000000000000 ≤ k ∧ k < significandBound ∧
      ¬ (n.negative ∧ k = 0) := by
  have htaken := @eq_of_appendDigits n.whole 0
  unfold Number.ofNumeral?
  cases hpair : appendDigits 0 n.whole with | mk whole taken =>
  simp only [hpair] at htaken ⊢
  by_cases hplain : (n.fraction.isEmpty && n.exponent.isNone && taken = n.whole.length) = true
  · rw [if_pos hplain]
    simp only [Bool.and_eq_true, List.isEmpty_iff, Option.isNone_iff_eq_none,
      decide_eq_true_eq] at hplain
    obtain ⟨⟨hfraction, hexponent⟩, hall⟩ := hplain
    obtain ⟨rfl, hbound⟩ := htaken hall
    have hlt := hbound (by decide)
    simp only [hfraction, hexponent, true_and, Option.some.injEq, ofWhole_eq_integer_iff]
    constructor
    · rintro ⟨rfl, hlow, hzero⟩
      refine ⟨rfl, hlow, ?_, hzero⟩
      split <;> omega
    · rintro ⟨hk, hlow, -, hzero⟩
      exact ⟨hk, hlow, hzero⟩
  · rw [if_neg hplain]
    constructor
    · intro h
      obtain ⟨x, -, hx⟩ := Option.map_eq_some_iff.mp h
      cases hx
    · rintro ⟨hfraction, hexponent, rfl, hlow, hhigh, -⟩
      -- A number that 64 bits hold leaves no digit over, so this case was the other one after all.
      have hlt : Nat.ofDigitChars 10 n.whole 0 < significandBound := by
        unfold Numeral.wholeValue at hlow hhigh
        unfold significandBound at hhigh ⊢
        split_ifs at hlow hhigh <;> omega
      rw [appendDigits_eq hlt] at hpair
      cases hpair
      simp [hfraction, hexponent] at hplain

/-- A whole number of 64 bits is read as itself. -/
theorem Number.ofNumeral?_ofInt {n : Int} (low : -0x8000000000000000 ≤ n)
    (high : n < significandBound) : Number.ofNumeral? (.ofInt n) = some (.integer n) := by
  refine ofNumeral?_eq_integer_iff.mpr
    ⟨rfl, rfl, Numeral.wholeValue_ofInt n, low, high, fun ⟨hminus, hzero⟩ => ?_⟩
  have hneg : n < 0 := by simpa [Numeral.ofInt] using hminus
  omega

end ProtectedCall.Json
