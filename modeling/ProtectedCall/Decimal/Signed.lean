/-!
# Signed 32-bit decimals

A whole number is written as an optional single sign and at least one ASCII digit. Reading goes
from left to right and reports the first thing that is wrong.

* `SignedFault`: why a text is no signed 32-bit decimal.
* `readMagnitude`: the digits, as long as the number stays within a limit.
* `readInt32`: the whole text.
-/

namespace ProtectedCall.Decimal

/-- Why a text is no signed 32-bit decimal. -/
inductive SignedFault where
  | empty
  | invalidDigit
  | tooLarge
  | tooSmall
  deriving DecidableEq, Inhabited

/-- The wording of a fault. -/
def SignedFault.message : SignedFault → String
  | .empty => "cannot parse integer from empty string"
  | .invalidDigit => "invalid digit found in string"
  | .tooLarge => "number too large to fit in target type"
  | .tooSmall => "number too small to fit in target type"

/-- The value of an ASCII digit. -/
def digitValue (c : Char) : Nat := c.toNat - '0'.toNat

/-- Appends digits to a magnitude. A character that is no digit is reported before the digits
that would exceed `limit`, and either before anything behind it. -/
def readMagnitude (limit : Nat) (beyond : SignedFault) : Nat → List Char → Except SignedFault Nat
  | magnitude, [] => .ok magnitude
  | magnitude, c :: rest =>
    if !c.isDigit then .error .invalidDigit
    else if limit < magnitude * 10 + digitValue c then .error beyond
    else readMagnitude limit beyond (magnitude * 10 + digitValue c) rest

/-- Reads the digits behind an optional sign; there must be at least one. -/
def readDigits (limit : Nat) (beyond : SignedFault) : List Char → Except SignedFault Nat
  | [] => .error .invalidDigit
  | digits => readMagnitude limit beyond 0 digits

/-- Reads a signed 32-bit decimal. -/
def readInt32 (text : String) : Except SignedFault Int32 :=
  match text.toList with
  | [] => .error .empty
  | '-' :: digits => do return Int32.ofInt (-(← readDigits 0x80000000 .tooSmall digits))
  | '+' :: digits => do return Int32.ofInt (← readDigits 0x7fffffff .tooLarge digits)
  | digits => do return Int32.ofInt (← readDigits 0x7fffffff .tooLarge digits)

end ProtectedCall.Decimal
