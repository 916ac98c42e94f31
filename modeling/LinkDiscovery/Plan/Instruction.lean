import LinkDiscovery.Decimal.Text
import LinkDiscovery.Links.Algebra
/-!
Instructions of plans: a command and the operands it may need. Results of instructions stand in
numbered slots.
-/

namespace LinkDiscovery

/-- The four ways to join two sets of links. -/
inductive SetOperation where
  | intersection
  | union
  | difference
  | symmetricDifference
  deriving DecidableEq, Repr

/-- What an instruction does. -/
inductive Command where
  /-- Finds links by a measure. -/
  | run
  /-- Keeps the links that reach a threshold. -/
  | filter
  | set (operation : SetOperation)
  /-- Ends the plan with the links of a slot. -/
  | yield
  deriving DecidableEq, Repr

namespace SetOperation

def text : SetOperation → String
  | .intersection => "INTERSECTION"
  | .union => "UNION"
  | .difference => "DIFF"
  | .symmetricDifference => "XOR"

def all : List SetOperation :=
  [.intersection, .union, .difference, .symmetricDifference]

def ofText? (word : String) : Option SetOperation :=
  all.find? fun o => o.text == word

/-- The name of an operation in summaries. -/
def label : SetOperation → String
  | .difference => "DIFFERENCE"
  | o => o.text

/-- Joins two sets of links. -/
def apply : SetOperation → Links → Links → Links
  | .intersection => Links.intersection
  | .union => Links.union
  | .difference => Links.difference
  | .symmetricDifference => Links.symmetricDifference

end SetOperation

namespace Command

def text : Command → String
  | .run => "RUN"
  | .filter => "FILTER"
  | .set o => o.text
  | .yield => "RETURN"

def all : List Command :=
  [.run, .filter, .yield] ++ SetOperation.all.map .set

def ofText? (word : String) : Option Command :=
  all.find? fun c => c.text == word

end Command

/-- A command with its operands. Which of them it needs depends on the command. -/
structure Instruction where
  command : Command
  expression : Option String := none
  threshold : Option Float := none
  /-- The threshold for the smaller one of the old and the new confidence. -/
  mainThreshold : Option Float := none
  source : Option Nat := none
  target : Option Nat := none
  /-- The slot of the result; without one it comes after all others. -/
  result : Option Nat := none
  deriving BEq

namespace Instruction

def run (expression : String) (threshold : Float) : Instruction :=
  { command := .run, expression := some expression, threshold := some threshold }

/-- Keeps the links of a slot that reach a threshold. -/
def filter (slot : Nat) (threshold : Float) : Instruction :=
  { command := .filter, threshold := some threshold, source := some slot }

/-- Scores the links of a slot anew. -/
def rescore (slot : Nat) (expression : String) (threshold : Float)
    (mainThreshold : Option Float) : Instruction :=
  { command := .filter, expression := some expression, threshold := some threshold, mainThreshold,
    source := some slot }

/-- Keeps the links of a joined result that reach a threshold. -/
def filtering (threshold : Float) : Instruction :=
  { command := .filter, threshold := some threshold }

/-- Scores the links of a joined result anew. -/
def filteringBy (expression : String) (threshold : Float) : Instruction :=
  { command := .filter, expression := some expression, threshold := some threshold }

def set (operation : SetOperation) (source target : Nat) : Instruction :=
  { command := .set operation, source := some source, target := some target }

/-- Ends the plan with the links of a slot, or else of the last one. -/
def yield (slot : Option Nat) : Instruction :=
  { command := .yield, source := slot }

/-- The slots that an instruction shows. -/
def slotText (i : Instruction) : String :=
  match i.source, i.target with
  | some s, some t => s!" [{s}, {t}]"
  | some s, none => s!" [{s}]"
  | none, _ => ""

/-- An instruction on one line: the command and the operands that are given. -/
def text (i : Instruction) : String :=
  i.command.text ++
    (i.expression.map fun e => s!" {e}").getD "" ++
    (i.threshold.map fun t => s!" |{Decimal.plain t}").getD "" ++
    (i.mainThreshold.map fun t => s!" main={Decimal.plain t}").getD "" ++
    i.slotText ++
    (i.result.map fun r => s!" -> {r}").getD ""

end Instruction

end LinkDiscovery
