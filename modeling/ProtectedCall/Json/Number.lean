import ProtectedCall.Decimal.Layout
import ProtectedCall.Decimal.Signed
import ProtectedCall.Json.Basic

/-!
# JSON numbers

* `Number`: what a numeral stands for, a whole number of at most 64 bits or a double.
* `Number.ofNumeral?`: the number that a numeral stands for, if it is in range.
* `floatLayout`: how doubles are written.

A double is found by one multiplication or division: the leading digits that fit in 64 bits become
a double, which is then scaled by a power of ten. That may miss the nearest double by a little.
-/

namespace ProtectedCall.Json

open Decimal

/-- What a numeral stands for. -/
inductive Number where
  | integer (value : Int)
  | float (value : Float)

/-- The bound of what 64 bits can hold. -/
def significandBound : Nat := 0x10000000000000000

/-- Appends digits to a significand as long as 64 bits hold it, and counts them. No digit is taken
after the first one that does not fit. -/
def appendDigits : Nat → List Char → Nat × Nat
  | significand, [] => (significand, 0)
  | significand, c :: rest =>
    if significand * 10 + digitValue c < significandBound then
      let (result, count) := appendDigits (significand * 10 + digitValue c) rest
      (result, count + 1)
    else (significand, 0)

/-- A power of ten as a double. -/
def powerOfTen (n : Nat) : Float := Float.ofScientific 1 false n

/-- Divides by `10 ^ places`, by at most `10 ^ 308` at a time. -/
def scaleDown (x : Float) (places : Nat) : Float :=
  if places ≤ 308 then x / powerOfTen places
  else if x == 0 then x
  else scaleDown (x / powerOfTen 308) (places - 308)
termination_by places

/-- Multiplies by `10 ^ places`, if the product is finite. -/
def scaleUp? (x : Float) (places : Nat) : Option Float :=
  if places ≤ 308 then
    let product := x * powerOfTen places
    if product.isInf then none else some product
  else if x == 0 then some x
  else none

/-- Scales by a power of ten. -/
def scale? (x : Float) (exponent : Int) : Option Float :=
  if exponent < 0 then some (scaleDown x (-exponent).toNat) else scaleUp? x exponent.toNat

/-- The value of a written exponent. -/
def exponentValue : Option Exponent → Int
  | none => 0
  | some e =>
    let magnitude : Nat := e.digits.foldl (fun n c => n * 10 + digitValue c) 0
    if e.sign = .minus then -magnitude else magnitude

/-- A whole number of 64 bits, or a double where only that is left. Minus zero is a double. -/
def Number.ofWhole (negative : Bool) (magnitude : Nat) : Number :=
  if negative then
    if magnitude = 0 || 0x8000000000000000 < magnitude then .float (-(Float.ofNat magnitude))
    else .integer (-magnitude)
  else .integer magnitude

/-- The number that a numeral stands for; none where it exceeds every double. -/
def Number.ofNumeral? (n : Numeral) : Option Number :=
  let (whole, taken) := appendDigits 0 n.whole
  if n.fraction.isEmpty && n.exponent.isNone && taken = n.whole.length then
    some (.ofWhole n.negative whole)
  else
    let (significand, places) := appendDigits whole n.fraction
    let exponent : Int := (n.whole.length - taken : Nat) - (places : Int) + exponentValue n.exponent
    (scale? (Float.ofNat significand) exponent).map fun x => .float (if n.negative then -x else x)

/-- Doubles have a decimal point or an exponent, ties go to the even digit, and an exponent is
written from `1e+16` on and below `1e-5`. -/
def floatLayout : Layout where
  tie := .toEven
  positional leading := -5 ≤ leading && leading < 16
  wholeFraction := ['0']
  exponentSign := .plus

/-- The numeral of a finite double. -/
def floatNumeral? (x : Float) : Option Numeral := floatLayout.ofDouble? (Double.ofFloat x)

/-- The document of a double: what is not finite becomes null. -/
def ofFloat (x : Float) : Json :=
  match floatNumeral? x with
  | some written => .number written
  | none => .null

end ProtectedCall.Json
