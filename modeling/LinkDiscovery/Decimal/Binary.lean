/-!
Doubles as exact numbers: a finite double is an integer times a power of two.
-/

namespace LinkDiscovery.Decimal

/-- The exact value of a double. -/
inductive Binary where
  | notANumber
  | infinite (negative : Bool)
  /-- The number `± significand · 2 ^ exponent`. -/
  | finite (negative : Bool) (significand : Nat) (exponent : Int)
  deriving DecidableEq

namespace Binary

/-- The significand of the smallest double of its binade, `2 ^ 52`; the next smaller double is half
as far away as the next larger one. -/
def binadeStart : Nat := 0x10000000000000

/-- Splits the 64 bits of a double into sign, exponent and significand. -/
def ofFloat (x : Float) : Binary :=
  let bits := x.toBits.toNat
  let negative := decide (0x8000000000000000 ≤ bits)
  let exponent := bits / binadeStart % 2048
  let fraction := bits % binadeStart
  if exponent = 2047 then
    if fraction = 0 then .infinite negative else .notANumber
  else if exponent = 0 then .finite negative fraction (-1074)
  else .finite negative (binadeStart + fraction) (Int.ofNat exponent - 1075)

end Binary

end LinkDiscovery.Decimal
