import LinkDiscovery.Decimal.Shortest
/-!
The two texts of a double: in full, with the shortest digits that denote it and without a power of
ten, and cut to two decimal places.
-/

namespace LinkDiscovery.Decimal

/-- The decimal digits of a number. -/
def digits (n : Nat) : List Char :=
  Nat.toDigits 10 n

def zeros (n : Nat) : List Char :=
  List.replicate n '0'

/-- A point before the last `places` digits, with zeros in front as needed. -/
def withPoint (places : Nat) (ds : List Char) : List Char :=
  let padded := zeros (places + 1 - ds.length) ++ ds
  padded.take (padded.length - places) ++ '.' :: padded.drop (padded.length - places)

/-- Digits times a power of ten, written in full. -/
def positional (ds : List Char) : Int → List Char
  | .ofNat n => ds ++ zeros n
  | .negSucc n => withPoint (n + 1) ds

/-- A text with a minus in front where one is due. -/
def withSign (negative : Bool) (text : List Char) : List Char :=
  if negative then '-' :: text else text

/-- Writes a double by way of its exact value. -/
def write (finite : Nat → Int → List Char) (x : Float) : String :=
  match Binary.ofFloat x with
  | .notANumber => "NaN"
  | .infinite negative => String.ofList (withSign negative "inf".toList)
  | .finite negative significand exponent =>
    String.ofList (withSign negative (finite significand exponent))

/-- The shortest digits that denote a double, written in full; of two equally near digit rows the
larger one. Integers have no point. -/
def plain : Float → String :=
  write fun significand exponent =>
    if significand = 0 then ['0']
    else
      let (d, ten) := shortest .larger significand exponent
      positional (digits d) ten

/-- The integer nearest to `num / den`; halves go to the even neighbour. -/
def roundHalfEven (num den : Nat) : Nat :=
  let below := num / den
  match compare (2 * (num % den)) den with
  | .lt => below
  | .gt => below + 1
  | .eq => below + below % 2

/-- The exact value rounded to two decimal places. -/
def twoPlaces : Float → String :=
  write fun significand exponent =>
    let hundredths :=
      roundHalfEven (100 * significand * Nat.pow 2 exponent.toNat) (Nat.pow 2 (-exponent).toNat)
    withPoint 2 (digits hundredths)

end LinkDiscovery.Decimal
