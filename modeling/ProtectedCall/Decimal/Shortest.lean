/-!
# The shortest decimal of a double

A double stands for the reals that round to it. Of the decimals among them, the shortest has the
fewest digits, and of those it is the nearest to the double itself.

* `Magnitude`: a positive double as a mantissa and a power of two, and `Double` with sign, zero and
  the values that are not finite.
* `Magnitude.onGrid`: the multiple of a power of ten nearest to a magnitude, if one rounds to it.
* `Magnitude.shortest`: the coarsest grid with such a multiple decides.

All comparisons are between natural numbers, so nothing is rounded on the way.
-/

namespace ProtectedCall.Decimal

/-- What to do when two shortest decimals are equally near. -/
inductive Tie where
  | toEven
  | up
  deriving DecidableEq, Inhabited

/-- The positive number `mantissa * 2 ^ exponent`. The neighbour below is half as far away as the
one above when `narrowBelow` holds, which is the case at a power of two. -/
structure Magnitude where
  mantissa : Nat
  exponent : Int
  narrowBelow : Bool
  deriving DecidableEq, Inhabited

/-- A double taken apart. -/
inductive Double where
  | nan
  | infinite (negative : Bool)
  | zero (negative : Bool)
  | finite (negative : Bool) (magnitude : Magnitude)
  deriving DecidableEq, Inhabited

/-- Takes a double apart by the fields of its 64 bits. -/
def Double.ofFloat (x : Float) : Double :=
  let bits : Nat := x.toBits.toNat
  let negative := bits >>> 63 == 1
  let scale : Nat := bits >>> 52 % 0x800
  let fraction : Nat := bits % 0x10000000000000
  if scale = 2047 then
    if fraction = 0 then .infinite negative else .nan
  else if scale = 0 then
    if fraction = 0 then .zero negative else .finite negative ⟨fraction, -1074, false⟩
  else .finite negative ⟨0x10000000000000 + fraction, (scale : Int) - 1075, fraction = 0 && scale != 1⟩

/-- A decimal: `digits * 10 ^ exponent`. -/
structure Digits where
  digits : Nat
  exponent : Int
  deriving DecidableEq, Inhabited

namespace Magnitude

/-- Of the two multiples of `10 ^ grid` around a magnitude, the nearer one that rounds to it.
The reals between the midpoints to the two neighbours round to it, and an even mantissa wins the
midpoints themselves. Quarters of the mantissa's unit make the bounds whole numbers. -/
def onGrid (tie : Tie) (x : Magnitude) (grid : Int) : Option Nat :=
  let quarter := x.exponent - 2
  let scale := Nat.pow 10 (-grid).toNat <<< quarter.toNat
  let unit := Nat.pow 10 grid.toNat <<< (-quarter).toNat
  let value := 4 * x.mantissa * scale
  let least := (4 * x.mantissa - if x.narrowBelow then 1 else 2) * scale
  let greatest := (4 * x.mantissa + 2) * scale
  let rounds (n : Nat) : Bool :=
    n != 0 && if x.mantissa % 2 = 0 then least ≤ n * unit && n * unit ≤ greatest
      else least < n * unit && n * unit < greatest
  let below := value / unit
  let excess := 2 * (value % unit)
  let nearerBelow := excess < unit ||
    (excess = unit && match tie with
      | .toEven => below % 2 = 0
      | .up => false)
  (if nearerBelow then [below, below + 1] else [below + 1, below]).find? rounds

/-- Tries `count` grids, from `10 ^ grid` downwards. -/
def firstGrid (tie : Tie) (x : Magnitude) : Nat → Int → Option Digits
  | 0, _ => none
  | count + 1, grid =>
    match x.onGrid tie grid with
    | some n => some ⟨n, grid⟩
    | none => firstGrid tie x count (grid - 1)

/-- A grid one or two steps above the leading digit. The leading bit gives an estimate of the
decimal logarithm from below, with 0.30103 for the logarithm of two. -/
def coarseGrid (x : Magnitude) : Int :=
  ((Nat.log2 x.mantissa : Int) + x.exponent) * 30103 / 100000 + 2

/-- The shortest decimal of a magnitude. Seventeen digits always suffice, so one of the first
twenty grids has a hit. -/
def shortest (tie : Tie) (x : Magnitude) : Digits :=
  (x.firstGrid tie 20 x.coarseGrid).getD ⟨0, 0⟩

end Magnitude

end ProtectedCall.Decimal
