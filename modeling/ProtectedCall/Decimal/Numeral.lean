/-!
# Written numerals

A numeral is a number as it stands in a text: a sign, whole digits, perhaps a fraction and an
exponent. Two numerals of one value may differ.

* `Numeral`: the parts of a numeral, digits kept as written.
* `Numeral.chars`: its characters.
* `Numeral.ofInt`: the plain numeral of a whole number.
-/

namespace ProtectedCall.Decimal

/-- The sign in front of an exponent, if one is written. -/
inductive ExponentSign where
  | unsigned
  | plus
  | minus
  deriving DecidableEq, Inhabited

/-- The exponent of a numeral: `capital` tells `E` from `e`. -/
structure Exponent where
  capital : Bool := false
  sign : ExponentSign := .unsigned
  digits : List Char
  deriving DecidableEq, Inhabited

/-- A number as written. No fraction digits means that no decimal point is written. -/
structure Numeral where
  negative : Bool := false
  whole : List Char
  fraction : List Char := []
  exponent : Option Exponent := none
  deriving DecidableEq, Inhabited

/-- The characters of an exponent sign. -/
def ExponentSign.chars : ExponentSign → List Char
  | .unsigned => []
  | .plus => ['+']
  | .minus => ['-']

/-- The characters of an exponent. -/
def Exponent.chars (e : Exponent) : List Char :=
  (if e.capital then 'E' else 'e') :: (e.sign.chars ++ e.digits)

/-- The characters of the fraction, its point included. -/
def Numeral.fractionChars (n : Numeral) : List Char :=
  match n.fraction with
  | [] => []
  | digits => '.' :: digits

/-- The characters of a numeral. -/
def Numeral.chars (n : Numeral) : List Char :=
  (if n.negative then ['-'] else []) ++ n.whole ++ n.fractionChars ++
    (n.exponent.map Exponent.chars).getD []

/-- The text of a numeral. -/
def Numeral.text (n : Numeral) : String := String.ofList n.chars

/-- The decimal digits of a natural number. -/
def natDigits (n : Nat) : List Char := Nat.toDigits 10 n

/-- The plain numeral of a whole number. -/
def Numeral.ofInt (n : Int) : Numeral := { negative := n < 0, whole := natDigits n.natAbs }

end ProtectedCall.Decimal
