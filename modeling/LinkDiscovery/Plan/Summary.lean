import LinkDiscovery.Plan.Basic
/-!
Plans for readers: as lines in the order of work, and as trees of labels.
-/

namespace LinkDiscovery

/-- A tree of labels. -/
inductive PlanTree where
  | node (label : String) (children : List PlanTree)

namespace NestedPlan

open Decimal

/-- A filter on one line. -/
def filterLine (f : Instruction) : String :=
  let threshold := plain (f.threshold.getD 0)
  match f.expression with
  | some e => s!"FILTER:{e}-{threshold}"
  | none => s!"FILTER:{threshold}"

/-- The first instruction of an atomic plan, or else its filter. -/
def atomicLine (instructions : List Instruction) (filter : Option Instruction) : String :=
  match instructions, filter with
  | i :: _, _ =>
    let expression := i.expression.getD i.command.text
    s!"{expression}-{plain (i.threshold.getD 0)}"
  | [], some f => filterLine f
  | [], none => "Empty plan"

/-- The lines after those of the plans below: how their results are joined and filtered. -/
def closingLines (operation : Option SetOperation) (filter : Option Instruction) : String :=
  (operation.map fun o => s!"{o.label}\n").getD "" ++
    (filter.map fun f =>
      s!"{filterLine f}\n" ++
        (f.mainThreshold.map fun t => s!"FILTER:{plain t}\n").getD "").getD ""

mutual

/-- The steps of a plan, one a line. An atomic plan alone has no line end. -/
def summary : NestedPlan → String
  | node is [] _ f => atomicLine is f
  | node _ (p :: ps) o f => line p ++ lines ps ++ closingLines o f

/-- The lines of a plan below another one. -/
def line : NestedPlan → String
  | node is [] _ f => s!"RUN:{atomicLine is f}\n"
  | node _ (p :: ps) o f => line p ++ lines ps ++ closingLines o f

def lines : List NestedPlan → String
  | [] => ""
  | p :: ps => line p ++ lines ps

end

/-- The label of an atomic plan. -/
def atomicLabel (instructions : List Instruction) : String :=
  if instructions.isEmpty then "EMPTY" else "; ".intercalate (instructions.map Instruction.text)

/-- The label of a plan with plans below it. -/
def joinLabel (operation : Option SetOperation) (filter : Option Instruction) : String :=
  (operation.map SetOperation.label).getD "SINGLE" ++
    (filter.map fun f => s!" | {filterLine f}").getD ""

mutual

/-- The labels of a plan and of the plans below it. -/
def tree : NestedPlan → PlanTree
  | node is [] _ _ => .node (atomicLabel is) []
  | node _ (p :: ps) o f => .node (joinLabel o f) (tree p :: trees ps)

def trees : List NestedPlan → List PlanTree
  | [] => []
  | p :: ps => tree p :: trees ps

end

end NestedPlan

end LinkDiscovery
