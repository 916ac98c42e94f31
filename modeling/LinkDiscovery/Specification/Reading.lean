import LinkDiscovery.Expression.Grammar
import LinkDiscovery.Specification.Building
/-!
Specifications from expressions. The threshold of the root is given and passed on inwards: most
keywords give their terms the thresholds that are written, `MIN` and `MAX` give both their own, and
`ADD` gives each term the least score that can still lift the sum to its own threshold when the
other score is one.
-/

namespace LinkDiscovery

/-- The thresholds of the two terms of a compound with threshold `θ`. -/
def Compound.thresholds (c : Compound) (θ : Float) : Float × Float :=
  match c.keyword with
  | .min | .max => (θ, θ)
  | .add =>
    ((θ - c.right.coefficient) / c.left.coefficient,
      (θ - c.left.coefficient) / c.right.coefficient)
  | _ => (c.left.threshold, c.right.threshold)

namespace Specification

/-- The leaf that stands for a call. -/
def ofCall (text : String) (call : Call) (θ : Float) : Specification :=
  node
    { threshold := θ
      filter := some text
      full := text
      measure := some call.measure
      property₁ := call.arguments[0]?
      property₂ := call.arguments[1]? } []

/-- The node that stands for a compound over two specifications. -/
def ofCompound (c : Compound) (θ : Float) (left right : Specification) : Specification :=
  let weights :=
    if c.keyword = .add then some (c.left.coefficient, c.right.coefficient) else none
  let full :=
    match weights with
    | some w => summed c.keyword.text w left right
    | none => listed c.keyword.text [left, right]
  node { operator := some c.keyword.operator, threshold := θ, full, weights } [left, right]

/-- The specification with the threshold `θ` that an outline stands for. -/
def ofOutline : Outline → Float → Specification
  | .leaf text call, θ => ofCall text call θ
  | .node c left right, θ =>
    ofCompound c θ (ofOutline left (c.thresholds θ).1) (ofOutline right (c.thresholds θ).2)

/-- Reads a specification with the threshold `θ`. -/
def parse (text : String) (θ : Float) : Except Expression.Fault Specification :=
  return ofOutline (← Outline.read text) θ

end Specification

end LinkDiscovery
