import ProtectedCall.Decimal.Numeral
import ProtectedCall.Decimal.Shortest

/-!
# Layout of decimals

* `Layout`: the decisions of an output format about the digits of a float.
* `Layout.numeral`: a decimal laid out as a numeral.
* `Layout.ofDouble?`: the numeral of a finite double.
-/

namespace ProtectedCall.Decimal

/-- The decisions of an output format: how ties between shortest decimals go, for which exponents
of the leading digit no exponent is written, the fraction of a whole number, and the sign written
before an exponent that is not negative. -/
structure Layout where
  tie : Tie
  positional : Int → Bool
  wholeFraction : List Char
  exponentSign : ExponentSign

namespace Layout

/-- The digits around the decimal point, where the first `point` of them are whole. -/
def positionalNumeral (layout : Layout) (negative : Bool) (digits : List Char) (point : Int) :
    Numeral :=
  if point ≤ 0 then
    { negative, whole := ['0'], fraction := List.replicate (-point).toNat '0' ++ digits }
  else if point < digits.length then
    { negative, whole := digits.take point.toNat, fraction := digits.drop point.toNat }
  else
    { negative, whole := digits ++ List.replicate (point.toNat - digits.length) '0',
      fraction := layout.wholeFraction }

/-- The first digit, the others as its fraction, and the exponent of the first digit. -/
def scientificNumeral (layout : Layout) (negative : Bool) (digits : List Char) (leading : Int) :
    Numeral :=
  { negative, whole := digits.take 1, fraction := digits.drop 1,
    exponent := some
      { sign := if leading < 0 then .minus else layout.exponentSign,
        digits := natDigits leading.natAbs } }

/-- A decimal laid out as a numeral. -/
def numeral (layout : Layout) (negative : Bool) (d : Digits) : Numeral :=
  let digits := natDigits d.digits
  let point := digits.length + d.exponent
  if layout.positional (point - 1) then layout.positionalNumeral negative digits point
  else layout.scientificNumeral negative digits (point - 1)

/-- The numeral of a finite double; infinities and what is no number have none. -/
def ofDouble? (layout : Layout) : Double → Option Numeral
  | .nan | .infinite _ => none
  | .zero negative => some (layout.numeral negative ⟨0, 0⟩)
  | .finite negative x => some (layout.numeral negative (x.shortest layout.tie))

end Layout

end ProtectedCall.Decimal
