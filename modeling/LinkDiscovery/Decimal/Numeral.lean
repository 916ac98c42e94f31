import LinkDiscovery.Text.Scanner
/-!
Decimal numerals as they are written, and the doubles they stand for. A numeral denotes the double
nearest to it; one that is too large denotes an infinity and one that is too small a zero.
-/

namespace LinkDiscovery.Decimal

open Text Text.Scanner

/-- A written decimal: digits before and after the point, and the power of ten, if one is given. -/
structure Numeral where
  negative : Bool
  whole : List Char
  fraction : List Char
  exponent : Option Int
  deriving DecidableEq

/-- The positive infinite double. -/
def infinity : Float := Float.ofBits 0x7FF0000000000000

/-- The double that is no number. -/
def notANumber : Float := Float.ofBits 0x7FF8000000000000

/-- The number that a row of digits stands for. -/
def digitsValue (digits : List Char) : Nat :=
  digits.foldl (fun value c => 10 * value + (c.toNat - 48)) 0

/--
The double nearest to `significand · 10 ^ scale`. Every double lies between `10 ^ -400` and
`10 ^ 400`, so the power is formed only inside these bounds; `significand` is below
`10 ^ (log2 significand / 3 + 1)`.
-/
def nearest (significand : Nat) (scale : Int) : Float :=
  if significand = 0 then 0
  else if 400 < scale then infinity
  else if scale + (significand.log2 / 3 + 1 : Nat) < -400 then 0
  else match scale with
    | .ofNat n => Float.ofScientific significand false n
    | .negSucc n => Float.ofScientific significand true (n + 1)

namespace Numeral

/-- The digits on both sides of the point, as one number. -/
def significand (n : Numeral) : Nat :=
  digitsValue (n.whole ++ n.fraction)

/-- The power of ten of the last digit. -/
def scale (n : Numeral) : Int :=
  n.exponent.getD 0 - n.fraction.length

/-- The double nearest to a numeral. -/
def toFloat (n : Numeral) : Float :=
  let magnitude := nearest n.significand n.scale
  if n.negative then -magnitude else magnitude

end Numeral

/-- Reads a sign, if there is one, and says whether it is a minus. -/
def sign : Scanner Bool :=
  orElse (do token '-'; return true)
    (orElse (do token '+'; return false) (return false))

/-- Reads digits with or without a point; at least one digit stands on one of its sides. -/
def pointed : Scanner (List Char × List Char) :=
  orElse
    (do
      let whole ← word Char.isDigit
      let fraction ← optional (do token '.'; span Char.isDigit)
      return (whole, fraction.getD []))
    (do
      token '.'
      let fraction ← word Char.isDigit
      return ([], fraction))

/-- Reads a power of ten, if one is marked; a mark without digits is a fault. -/
def power : Scanner (Option Int) :=
  optional do
    orElse (token 'e') (token 'E')
    required do
      let negative ← sign
      let digits ← word Char.isDigit
      return if negative then -Int.ofNat (digitsValue digits) else Int.ofNat (digitsValue digits)

/-- Reads a numeral. -/
def numeral : Scanner Numeral := do
  let negative ← sign
  let (whole, fraction) ← pointed
  let exponent ← power
  return { negative, whole, fraction, exponent }

/-- Reads a numeral, a signed infinity or a signed word for what is no number. -/
def signed : Scanner Float := do
  let negative ← sign
  let magnitude ← orElse
    (do
      let (whole, fraction) ← pointed
      let exponent ← power
      return Numeral.toFloat { negative := false, whole, fraction, exponent })
    (orElse (do wordLetters "infinity"; return infinity)
      (orElse (do wordLetters "inf"; return infinity)
        (do wordLetters "nan"; return notANumber)))
  return if negative then -magnitude else magnitude

/-- The double that a whole text denotes, if it denotes one. -/
def ofText? (text : String) : Option Float :=
  whole signed text.toList

end LinkDiscovery.Decimal
