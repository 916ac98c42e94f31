import LinkDiscovery.Json.Number
import LinkDiscovery.Links.Basic
import LinkDiscovery.Measure.Registry
import LinkDiscovery.Plan.Instruction
/-!
What comes of a plan: links with warnings about what had to be left out, or a fault that stops the
plan.
-/

namespace LinkDiscovery

/-- What a plan had to do without. Instructions are numbered from zero. -/
inductive Warning where
  /-- No measure of this name is registered; the result is empty. -/
  | unresolvedMeasure (position : Option Nat) (measure : String)
  /-- No result stands in this slot; it is read as empty. -/
  | missingSlot (position slot length : Nat)
  deriving DecidableEq

namespace Warning

def text : Warning → String
  | .unresolvedMeasure (some position) measure =>
    s!"instruction {position}: unresolved measure `{measure}`, result is empty"
  | .unresolvedMeasure none measure =>
    s!"plan filter: unresolved measure `{measure}`, result is empty"
  | .missingSlot position slot length =>
    s!"instruction {position}: slot {slot} is not populated (buffer holds {length}), read as empty"

def toJson : Warning → Json
  | .unresolvedMeasure position measure =>
    .object [("kind", .string "unresolved_measure"),
      ("position", (position.map Json.ofNat).getD .null), ("measure", .string measure)]
  | .missingSlot position slot length =>
    .object [("kind", .string "missing_slot"), ("position", .ofNat position),
      ("slot", .ofNat slot), ("buffer_len", .ofNat length)]

end Warning

/-- Links and the warnings met on the way to them. -/
structure Execution where
  links : Links := .empty
  warnings : List Warning := []

/-- Says whether nothing had to be left out. -/
def Execution.isClean (e : Execution) : Bool :=
  e.warnings.isEmpty

/-- The operands that an instruction may lack. -/
inductive Operand where
  | expression
  | threshold
  | source
  | target
  deriving DecidableEq

def Operand.text : Operand → String
  | .expression => "measure expression"
  | .threshold => "threshold"
  | .source => "source slot"
  | .target => "target slot"

/-- What stops a plan. -/
inductive Execution.Fault where
  /-- An instruction lacks an operand that its command needs. -/
  | missingOperand (command : Command) (position : Nat) (operand : Operand)
  /-- The call of an instruction does not compare two properties. -/
  | badCall (command : Command) (position : Nat) (fault : Comparison.Fault)
  /-- Several plans are to be joined, and no operation says how. -/
  | noOperation (plans : Nat)
  /-- The filter of a joined result has no threshold. -/
  | noFilterThreshold
  | expression (fault : Expression.Fault)
  | dataAccess (measure : String) (failure : Failure)

namespace Execution.Fault

def message : Execution.Fault → String
  | .missingOperand command position operand =>
    s!"invalid {command.text} instruction at position {position}: missing {operand.text}"
  | .badCall command position fault =>
    s!"invalid {command.text} instruction at position {position}: {fault.message}"
  | .noOperation plans =>
    s!"invalid plan: {plans} sub-plans but no operator to combine them"
  | .noFilterThreshold => "invalid composite filter: missing threshold"
  | .expression fault => fault.message
  | .dataAccess measure failure =>
    s!"data access failed while running `{measure}`: {failure.text}"

/-- A fault with the causes that it has beside its message. -/
def failure (f : Execution.Fault) : Failure where
  text := f.message
  causes :=
    match f with
    | .dataAccess _ failure => failure.chain
    | _ => []

end Execution.Fault

end LinkDiscovery
