import LinkDiscovery.Decimal.Binary
/-!
The shortest decimal that denotes a double. The reals nearest to a double form an interval around
it; among the multiples of powers of ten inside the interval those of the largest power are the
shortest, and of these the one nearest to the double is chosen.
-/

namespace LinkDiscovery.Decimal

/-- Which of two equally near candidates is taken. -/
inductive Tie where
  | larger
  | even
  deriving DecidableEq

/-- The interval of reals that round to a double, in units of `2 ^ exponent`. -/
structure Rounding where
  low : Nat
  value : Nat
  high : Nat
  exponent : Int
  /-- Whether the ends of the interval round to the double as well. -/
  closed : Bool

/-- The interval around the double `significand · 2 ^ exponent`. -/
def Rounding.around (significand : Nat) (exponent : Int) : Rounding where
  low := 4 * significand -
    if significand = Binary.binadeStart ∧ exponent ≠ -1074 then 1 else 2
  value := 4 * significand
  high := 4 * significand + 2
  exponent := exponent - 2
  closed := significand % 2 = 0

/-- The numerator and the denominator of `10 ^ ten / 2 ^ two`. -/
def powerRatio (ten two : Int) : Nat × Nat :=
  (Nat.pow 10 ten.toNat * Nat.pow 2 (-two).toNat, Nat.pow 10 (-ten).toNat * Nat.pow 2 two.toNat)

/-- The multiple of `10 ^ ten` nearest to the double, if one lies in its interval. -/
def Rounding.multiple? (r : Rounding) (tie : Tie) (ten : Int) : Option Nat :=
  let (num, den) := powerRatio ten r.exponent
  let below := r.value * den / num
  let inside (d : Nat) : Bool :=
    if r.closed then r.low * den ≤ d * num && d * num ≤ r.high * den
    else r.low * den < d * num && d * num < r.high * den
  match 0 < below && inside below, inside (below + 1) with
  | true, false => some below
  | false, true => some (below + 1)
  | false, false => none
  | true, true =>
    match compare (2 * r.value * den) ((2 * below + 1) * num) with
    | .lt => some below
    | .gt => some (below + 1)
    | .eq => if tie = .even ∧ below % 2 = 0 then some below else some (below + 1)

/-- A power of ten that is above `significand · 2 ^ exponent`: `30103 / 100000` is above the common
logarithm of two. -/
def leadingPower (significand : Nat) (exponent : Int) : Int :=
  (significand.log2 + 1 + exponent) * 30103 / 100000 + 1

/--
The digits and the power of ten of the shortest decimal that denotes `significand · 2 ^ exponent`.
Seventeen digits tell all doubles apart, so the search ends at the latest with the eighteenth power
below the leading one.
-/
def shortest (tie : Tie) (significand : Nat) (exponent : Int) : Nat × Int :=
  let interval := Rounding.around significand exponent
  let top := leadingPower significand exponent
  let powers := (List.range 20).map fun i => top - Int.ofNat i
  (powers.findSome? fun ten => (interval.multiple? tie ten).map (·, ten)).getD (0, 0)

end LinkDiscovery.Decimal
