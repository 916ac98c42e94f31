import LinkDiscovery.Decimal.Text
import LinkDiscovery.Json.Basic
/-!
What JSON numbers denote and how doubles are written as JSON numbers.

A number is read in two steps, each of them rounded: the leading digits, as many as fit into 64
bits, become a double, which is then multiplied or divided by the double nearest to a power of ten.
-/

namespace LinkDiscovery.Decimal

/-- The largest power of ten that is a finite double. -/
def maxPower : Nat := 308

/-- Appends digits to a significand as long as it stays below `2 ^ 64`; gives the digits left. -/
def absorbDigits (significand : Nat) : List Char → Nat × List Char
  | [] => (significand, [])
  | c :: rest =>
    let next := 10 * significand + digitsValue [c]
    if next < UInt64.size then absorbDigits next rest else (significand, c :: rest)

/-- A double times a power of ten, unless the result is too large. -/
def shift? (x : Float) (ten : Int) : Option Float :=
  if x == 0 then some x
  else match ten with
    | .ofNat n =>
      if n ≤ maxPower then
        let y := x * nearest 1 n
        if y.isInf then none else some y
      else none
    | .negSucc n =>
      if n + 1 ≤ maxPower then some (x / nearest 1 (n + 1 : Nat))
      else if n + 1 ≤ 2 * maxPower then
        some (x / nearest 1 maxPower / nearest 1 (n + 1 - maxPower : Nat))
      else some 0

namespace Numeral

/-- The double that a JSON number denotes, unless it is too large. -/
def jsonValue? (n : Numeral) : Option Float :=
  let (whole, wholeLeft) := absorbDigits 0 n.whole
  let (significand, fractionLeft) := absorbDigits whole n.fraction
  let ten := n.exponent.getD 0 + wholeLeft.length - (n.fraction.length - fractionLeft.length : Nat)
  (shift? (nearest significand 0) ten).map fun x => if n.negative then -x else x

/-- The integer that a JSON number denotes: it has neither a fraction nor a power of ten, is not a
negative zero and fits into 64 bits with or without a sign. -/
def integer? (n : Numeral) : Option Int :=
  let value := digitsValue n.whole
  if n.fraction ≠ [] ∨ n.exponent.isSome then none
  else if n.negative then
    if 0 < value ∧ value ≤ 0x8000000000000000 then some (-Int.ofNat value) else none
  else if value < UInt64.size then some (Int.ofNat value)
  else none

def ofInt (n : Int) : Numeral where
  negative := n < 0
  whole := digits n.natAbs
  fraction := []
  exponent := none

/-- Digits and a power of ten as a JSON number: in full from `0.00001` up to sixteen digits before
the point, and otherwise with one digit before the point. Doubles always show a fraction or a power
of ten. -/
def ofDigits (negative : Bool) (ds : List Char) (ten : Int) : Numeral :=
  let point := ds.length + ten
  if 0 ≤ ten ∧ point ≤ 16 then
    { negative, whole := ds ++ zeros ten.toNat, fraction := ['0'], exponent := none }
  else if 0 < point ∧ point ≤ 16 then
    { negative, whole := ds.take point.toNat, fraction := ds.drop point.toNat, exponent := none }
  else if -5 < point ∧ point ≤ 0 then
    { negative, whole := ['0'], fraction := zeros (-point).toNat ++ ds, exponent := none }
  else
    { negative, whole := ds.take 1, fraction := ds.drop 1, exponent := some (point - 1) }

/-- A finite double as a JSON number, with the shortest digits that denote it. -/
def ofFloat? (x : Float) : Option Numeral :=
  match Binary.ofFloat x with
  | .finite negative significand exponent =>
    if significand = 0 then
      some { negative, whole := ['0'], fraction := ['0'], exponent := none }
    else
      let (d, ten) := shortest .even significand exponent
      some (ofDigits negative (digits d) ten)
  | _ => none

/-- A power of ten after its mark. It always has a sign. -/
def exponentText (ten : Int) : List Char :=
  'e' :: (if ten < 0 then '-' else '+') :: digits ten.natAbs

/-- A numeral as JSON writes it. -/
def text (n : Numeral) : List Char :=
  let exponent := (n.exponent.map exponentText).getD []
  let fraction := if n.fraction = [] then [] else '.' :: n.fraction
  withSign n.negative (n.whole ++ fraction ++ exponent)

end Numeral

end LinkDiscovery.Decimal

namespace LinkDiscovery.Json

/-- A double as JSON; what is no finite number becomes null. -/
def ofFloat (x : Float) : Json :=
  match Decimal.Numeral.ofFloat? x with
  | some n => .number n
  | none => .null

def ofInt (n : Int) : Json :=
  .number (Decimal.Numeral.ofInt n)

def ofNat (n : Nat) : Json :=
  ofInt n

end LinkDiscovery.Json
