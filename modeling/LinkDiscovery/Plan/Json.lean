import LinkDiscovery.Json.Decoder
import LinkDiscovery.Plan.Summary
/-!
Instructions and plans as JSON.
-/

namespace LinkDiscovery

open Json

namespace Instruction

/-- The record of an instruction: the command and the operands that are given. -/
def toJson (i : Instruction) : Json :=
  .ofFields [("command", some (.string i.command.text)),
    ("measure_expression", i.expression.map .string),
    ("threshold", i.threshold.map .ofFloat), ("main_threshold", i.mainThreshold.map .ofFloat),
    ("source_slot", i.source.map .ofNat), ("target_slot", i.target.map .ofNat),
    ("result_slot", i.result.map .ofNat)]

def ofJson? : Decoder Instruction
  | levels + 1, json => do
    let [command, expression, threshold, mainThreshold, source, target, result] ←
      fields? ["command", "measure_expression", "threshold", "main_threshold", "source_slot",
        "target_slot", "result_slot"] json | none
    return {
      command := ← required (Decoder.keyword Command.ofText?) levels command
      expression := ← optional Decoder.text levels expression
      threshold := ← optional Decoder.float levels threshold
      mainThreshold := ← optional Decoder.float levels mainThreshold
      source := ← optional Decoder.nat levels source
      target := ← optional Decoder.nat levels target
      result := ← optional Decoder.nat levels result }
  | 0, _ => none

end Instruction

namespace Plan

def toJson (p : Plan) : Json :=
  .object [("instructions", .array (p.instructions.map Instruction.toJson))]

def ofJson? : Decoder Plan
  | levels + 1, json => do
    let [instructions] ← fields? ["instructions"] json | none
    return {
      instructions := ← required (Decoder.list Instruction.ofJson?) levels instructions }
  | 0, _ => none

end Plan

namespace NestedPlan

mutual

/-- The record of a plan; only its instructions are always written. -/
def toJson : NestedPlan → Json
  | node is ps o f =>
    .ofFields [("instructions", some (.array (is.map Instruction.toJson))),
      ("sub_plans", if ps.isEmpty then none else some (.array (toJsons ps))),
      ("operator", o.map fun o => .string o.text),
      ("filtering_instruction", f.map Instruction.toJson)]

def toJsons : List NestedPlan → List Json
  | [] => []
  | p :: ps => toJson p :: toJsons ps

end

/-- Reads a plan, in which everything may be missing. Both the plan and the list of the plans below
it are containers. -/
def ofJson? : Decoder NestedPlan
  | levels + 1, json => do
    let [instructions, subPlans, operation, filter] ←
      fields? ["instructions", "sub_plans", "operator", "filtering_instruction"] json | none
    let subPlans ←
      match levels, subPlans with
      | _, none => some []
      | deeper + 1, some (.array items) => items.mapM (ofJson? deeper)
      | _, _ => none
    return node (← defaulted (Decoder.list Instruction.ofJson?) [] levels instructions) subPlans
      (← optional (Decoder.keyword SetOperation.ofText?) levels operation)
      (← optional Instruction.ofJson? levels filter)
  | 0, _ => none

end NestedPlan

namespace PlanTree

mutual

/-- The record of a tree; a label without children has no entry for them. -/
def toJson : PlanTree → Json
  | node label children =>
    .ofFields [("label", some (.string label)),
      ("children", if children.isEmpty then none else some (.array (toJsons children)))]

def toJsons : List PlanTree → List Json
  | [] => []
  | t :: ts => toJson t :: toJsons ts

end

end PlanTree

end LinkDiscovery
