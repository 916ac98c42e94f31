/-!
Scores are doubles. The larger and the smaller of two scores pass over what is no number, and an
order of all doubles by their bits arranges scores where each needs a place.
-/

namespace LinkDiscovery.Score

/-- The larger of two scores; where one is no number, the other. -/
def larger (a b : Float) : Float :=
  if a < b || a.isNaN then b else a

/-- The smaller of two scores; where one is no number, the other. -/
def smaller (a b : Float) : Float :=
  if b < a || a.isNaN then b else a

/-- The order of two scores as numbers; what is no number counts as equal to everything. -/
def compare (a b : Float) : Ordering :=
  if a < b then .lt else if b < a then .gt else .eq

/-- The place of a double when all doubles are arranged by sign and then by bits: `-0` comes before
`0`, and what is no number comes last. -/
def rank (x : Float) : Int :=
  let bits := x.toBits.toNat
  if bits < 0x8000000000000000 then Int.ofNat bits
  else -Int.ofNat (bits - 0x8000000000000000) - 1

end LinkDiscovery.Score
