import LinkDiscovery.Expression.Grammar
import LinkDiscovery.Plan.Instruction
/-!
Plans: lists of instructions, and trees of them whose results are joined on the way up.
-/

namespace LinkDiscovery

/-- Instructions in the order in which they are carried out. -/
structure Plan where
  instructions : List Instruction
  deriving BEq

namespace Plan

def empty : Plan where
  instructions := []

def add (p : Plan) (i : Instruction) : Plan where
  instructions := p.instructions ++ [i]

/-- Removes the first instruction equal to `i`, if there is one. -/
def remove? (p : Plan) (i : Instruction) : Option Plan :=
  if p.instructions.contains i then some { instructions := p.instructions.erase i } else none

end Plan

/-- A plan with plans below it. A plan without any is atomic and carries out its instructions; other
plans join the results of those below by an operation and then filter them. -/
inductive NestedPlan where
  | node (instructions : List Instruction) (subPlans : List NestedPlan)
    (operation : Option SetOperation) (filter : Option Instruction)

namespace NestedPlan

def instructions : NestedPlan → List Instruction
  | node is _ _ _ => is

def subPlans : NestedPlan → List NestedPlan
  | node _ ps _ _ => ps

def operation : NestedPlan → Option SetOperation
  | node _ _ o _ => o

def filter : NestedPlan → Option Instruction
  | node _ _ _ f => f

def empty : NestedPlan :=
  node [] [] none none

/-- The plan without plans below it. -/
def atomic (instructions : List Instruction) : NestedPlan :=
  node instructions [] none none

/-- Adds a last instruction. -/
def addInstruction (p : NestedPlan) (i : Instruction) : NestedPlan :=
  node (p.instructions ++ [i]) p.subPlans p.operation p.filter

/-- Adds a plan below, after all others. -/
def addSubPlan (p q : NestedPlan) : NestedPlan :=
  node p.instructions (p.subPlans ++ [q]) p.operation p.filter

def setOperation (p : NestedPlan) (operation : Option SetOperation) : NestedPlan :=
  node p.instructions p.subPlans operation p.filter

def setFilter (p : NestedPlan) (filter : Option Instruction) : NestedPlan :=
  node p.instructions p.subPlans p.operation filter

def isAtomic (p : NestedPlan) : Bool :=
  p.subPlans.isEmpty

/-- Says whether a plan has nothing to do. -/
def isEmpty (p : NestedPlan) : Bool :=
  p.instructions.isEmpty && p.subPlans.isEmpty && p.filter.isNone

mutual

/-- The instructions of a plan and then of the plans below it. -/
def allInstructions : NestedPlan → List Instruction
  | node is ps _ _ => is ++ instructionsOf ps

def instructionsOf : List NestedPlan → List Instruction
  | [] => []
  | p :: ps => allInstructions p ++ instructionsOf ps

end

/-- The plan as one list of instructions. -/
def flatten (p : NestedPlan) : Plan where
  instructions := p.allInstructions

mutual

/-- The number of instructions, filters not counted. -/
def size : NestedPlan → Nat
  | node is ps _ _ => is.length + sizes ps

def sizes : List NestedPlan → Nat
  | [] => 0
  | p :: ps => size p + sizes ps

end

/-- The measures that an instruction calls; an expression that cannot be read calls none. -/
def measuresOf (i : Instruction) : List String :=
  match i.expression.map Expression.measureNames with
  | some (.ok names) => names
  | _ => []

mutual

/-- The measures called by filters and instructions, those of a plan before those of the plans below
it. -/
def measures : NestedPlan → List String
  | node is ps _ f => (f.toList ++ is).flatMap measuresOf ++ measuresBelow ps

def measuresBelow : List NestedPlan → List String
  | [] => []
  | p :: ps => measures p ++ measuresBelow ps

end

/-- The threshold of the filter, zero without one. -/
def threshold (p : NestedPlan) : Float :=
  (p.filter.bind (·.threshold)).getD 0

mutual

/-- Equality of plans: atomic plans are equal when their instructions are, whatever operation and
filter they carry. -/
def same : NestedPlan → NestedPlan → Bool
  | node is [] _ _, node js [] _ _ => is == js
  | node is (p :: ps) o f, node js (q :: qs) o' f' =>
    o == o' && f == f' && is == js && (same p q && sameAll ps qs)
  | _, _ => false

def sameAll : List NestedPlan → List NestedPlan → Bool
  | [], [] => true
  | p :: ps, q :: qs => same p q && sameAll ps qs
  | _, _ => false

end

instance : BEq NestedPlan := ⟨same⟩

end NestedPlan

end LinkDiscovery
