import LinkDiscovery.Measure.Registry
/-!
Scorers: expressions whose measures have been looked up, ready to score pairs of entities.
-/

namespace LinkDiscovery

/-- An expression with its measures. -/
inductive Scorer where
  | comparison (measure : Measure) (sourceProperty targetProperty : String)
  | compound (compound : Compound) (left right : Scorer)

namespace Scorer

/-- The score of a compound from those of its terms. A term that misses its own threshold does not
count, except for the smallest and the largest score and for sums. -/
def combine (c : Compound) (s₁ s₂ : Float) : Float :=
  let counts₁ : Bool := c.left.threshold ≤ s₁
  let counts₂ : Bool := c.right.threshold ≤ s₂
  match c.keyword with
  | .and => if counts₁ && counts₂ then Score.smaller s₁ s₂ else 0
  | .or =>
    if counts₁ && counts₂ then Score.larger s₁ s₂
    else if counts₁ then s₁
    else if counts₂ then s₂
    else 0
  | .xor => if counts₁ && !counts₂ then s₁ else if counts₂ && !counts₁ then s₂ else 0
  | .minus => if counts₁ && !counts₂ then s₁ else 0
  | .min => Score.smaller s₁ s₂
  | .max => Score.larger s₁ s₂
  | .add => c.left.coefficient * s₁ + c.right.coefficient * s₂

/-- The score of two entities. -/
def score (source target : Entity) : Scorer → Float
  | .comparison m p q => m.score p q source target
  | .compound c left right => combine c (left.score source target) (right.score source target)

/-- The expression with the names of its measures and with bare properties. -/
def text : Scorer → String
  | .comparison m p q => s!"{m.name}({p}, {q})"
  | .compound c left right =>
    s!"{c.keyword.text}({left.text}|{Decimal.plain c.left.threshold}, " ++
      s!"{right.text}|{Decimal.plain c.right.threshold})"

end Scorer

namespace Registry

/-- Looks up the measures of an expression with this text, from the outermost level to the innermost
and from left to right, and stops at the first fault of any kind. -/
def resolve (r : Registry) (sourceVar targetVar : String) (text : String) :
    Outline → Except Comparison.Fault Scorer
  | .leaf _ call => do
    let c ← Comparison.ofCall text call sourceVar targetVar
    match r.measure? c.measure with
    | some m => return .comparison m c.sourceProperty c.targetProperty
    | none => throw (.unknownMeasure c.measure)
  | .node c left right =>
    match c.fault? text with
    | some fault => .error (.expression fault)
    | none => do
      let left ← r.resolve sourceVar targetVar c.left.text left
      let right ← r.resolve sourceVar targetVar c.right.text right
      return .compound c left right

/-- Reads an expression and looks up its measures. -/
def compile (r : Registry) (text sourceVar targetVar : String) : Except Comparison.Fault Scorer :=
  match Outline.parse text with
  | .error fault => .error (.expression fault)
  | .ok outline => r.resolve sourceVar targetVar (Text.trim text) outline

end Registry

end LinkDiscovery
