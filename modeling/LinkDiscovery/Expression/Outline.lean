import LinkDiscovery.Expression.Basic
/-!
The outline of an expression: all its levels down to the calls. The texts of its parts stand in the
terms of its compounds.
-/

namespace LinkDiscovery

/-- An expression with all its levels. -/
inductive Outline where
  /-- A call, with the text it was read from. -/
  | leaf (text : String) (call : Call)
  | node (compound : Compound) (left right : Outline)

namespace Outline

/-- The outermost level. -/
def top : Outline → Expression
  | .leaf _ call => .call call
  | .node compound _ _ => .compound compound

/-- The measures called, from left to right. -/
def measures : Outline → List String
  | .leaf _ call => [call.measure]
  | .node _ left right => left.measures ++ right.measures

/-- What is wrong with the numbers of an expression with this text: the first fault from the
outermost level to the innermost and from left to right. -/
def fault? (text : String) : Outline → Option Expression.Fault
  | .leaf _ _ => none
  | .node c left right =>
    (c.fault? text).or ((left.fault? c.left.text).or (right.fault? c.right.text))

end Outline

end LinkDiscovery
