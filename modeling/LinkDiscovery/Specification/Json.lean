import LinkDiscovery.Json.Decoder
import LinkDiscovery.Specification.Basic
/-!
Specifications as JSON.
-/

namespace LinkDiscovery.Specification

open Json

/-- The entries of a node after those of its children. -/
def labelFields (l : Label) : List (String × Option Json) :=
  [("filter_expression", l.filter.map .string),
    ("full_expression", some (.string l.full)),
    ("atomic_measure", l.measure.map .string),
    ("property1", l.property₁.map .string),
    ("property2", l.property₂.map .string),
    ("weights", l.weights.map fun (c₁, c₂) => .array [.ofFloat c₁, .ofFloat c₂])]

mutual

/-- The record of a node; a leaf has no entry for children. -/
def toJson : Specification → Json
  | node l cs =>
    .ofFields (
      [("operator", some ((l.operator.map fun o => .string o.text).getD .null)),
        ("threshold", some (.ofFloat l.threshold)),
        ("children", if cs.isEmpty then none else some (.array (toJsons cs)))] ++
      labelFields l)

def toJsons : List Specification → List Json
  | [] => []
  | c :: cs => toJson c :: toJsons cs

end

/-- Reads a node. Only its operator and its threshold are looked for in every record, and both the
node and the list of its children are containers. -/
def ofJson? : Decoder Specification
  | levels + 1, json => do
    let [operator, threshold, children, filter, full, measure, property₁, property₂, weights] ←
      fields? ["operator", "threshold", "children", "filter_expression", "full_expression",
        "atomic_measure", "property1", "property2", "weights"] json | none
    let children ←
      match levels, children with
      | _, none => some []
      | deeper + 1, some (.array items) => items.mapM (ofJson? deeper)
      | _, _ => none
    return node {
      operator := ← optional (Decoder.keyword Operator.ofText?) levels operator
      threshold := ← required Decoder.float levels threshold
      filter := ← optional Decoder.text levels filter
      full := ← defaulted Decoder.text "" levels full
      measure := ← optional Decoder.text levels measure
      property₁ := ← optional Decoder.text levels property₁
      property₂ := ← optional Decoder.text levels property₂
      weights := ← optional (Decoder.pair Decoder.float Decoder.float) levels weights } children
  | 0, _ => none

end LinkDiscovery.Specification
