import LinkDiscovery.Plan.Basic
import LinkDiscovery.Score
import LinkDiscovery.Specification.Basic
/-!
The canonical plan of a specification: each leaf is run, and each inner node joins the results of
its children and filters them. Thresholds below zero are raised to zero. The pairs of a sum are
those that both children link, scored anew by the text of the sum.
-/

namespace LinkDiscovery

/-- The operation that joins the links of the children of a node. -/
def Operator.setOperation : Operator → SetOperation
  | .and => .intersection
  | .or => .union
  | .xor => .symmetricDifference
  | .minus => .difference

namespace Specification

/-- A threshold that is met by no more than all links. -/
def planThreshold (l : Label) : Float :=
  Score.larger l.threshold 0

/-- The filter of an inner node. -/
def planFilter (l : Label) : Instruction :=
  match l.weights with
  | some _ => .filteringBy l.full (planThreshold l)
  | none => .filtering (planThreshold l)

mutual

/-- The plan that carries a specification out. -/
def plan : Specification → NestedPlan
  | node l [] =>
    match l.filter with
    | some text => .atomic [.run text (planThreshold l)]
    | none => .empty
  | node l (c :: cs) =>
    .node [] (plan c :: plans cs) (l.operator.map Operator.setOperation) (some (planFilter l))

def plans : List Specification → List NestedPlan
  | [] => []
  | c :: cs => plan c :: plans cs

end

end Specification

end LinkDiscovery
