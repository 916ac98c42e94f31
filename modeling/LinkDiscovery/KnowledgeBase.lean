import LinkDiscovery.Json.Decoder
import LinkDiscovery.Path
import Std.Data.ExtTreeMap
/-!
Descriptions of knowledge bases. Only the variable is read here: it names the knowledge base in the
property paths of expressions.
-/

namespace LinkDiscovery

open Json

structure KnowledgeBase where
  id : String
  endpoint : String := ""
  graph : Option String := none
  /-- The variable that stands for the entities of this knowledge base, such as `?x`. -/
  var : String
  properties : List String := []
  optionalProperties : List String := []
  restrictions : List String := []
  /-- Abbreviations of addresses. -/
  abbreviations : Std.ExtTreeMap String String := ∅
  /-- How many results are asked for at once; `-1` asks for all. -/
  pageSize : Int := -1
  kind : String := "sparql"

namespace KnowledgeBase

def bareVar (kb : KnowledgeBase) : String :=
  Path.bareName kb.var

def toJson (kb : KnowledgeBase) : Json :=
  .ofFields [("id", some (.string kb.id)), ("endpoint", some (.string kb.endpoint)),
    ("graph", kb.graph.map .string), ("var", some (.string kb.var)),
    ("properties", some (.array (kb.properties.map .string))),
    ("optional_properties", some (.array (kb.optionalProperties.map .string))),
    ("restrictions", some (.array (kb.restrictions.map .string))),
    ("prefixes", some (.object (kb.abbreviations.toList.map fun (k, v) => (k, .string v)))),
    ("page_size", some (.ofInt kb.pageSize)), ("kind", some (.string kb.kind))]

/-- Reads a description. Only the name and the variable have to be given; of equal abbreviations
the last counts. -/
def ofJson? : Decoder KnowledgeBase
  | levels + 1, json => do
    let [id, endpoint, graph, var, properties, optionalProperties, restrictions, abbreviations,
      pageSize, kind] ← fields? ["id", "endpoint", "graph", "var", "properties",
        "optional_properties", "restrictions", "prefixes", "page_size", "kind"] json | none
    let texts := Decoder.list Decoder.text
    let abbreviations ← defaulted (Decoder.entries Decoder.text) [] levels abbreviations
    return {
      id := ← required Decoder.text levels id
      endpoint := ← defaulted Decoder.text "" levels endpoint
      graph := ← optional Decoder.text levels graph
      var := ← required Decoder.text levels var
      properties := ← defaulted texts [] levels properties
      optionalProperties := ← defaulted texts [] levels optionalProperties
      restrictions := ← defaulted texts [] levels restrictions
      abbreviations := abbreviations.foldl (fun known (k, v) => known.insert k v) ∅
      pageSize := ← defaulted Decoder.int (-1) levels pageSize
      kind := ← defaulted Decoder.text "sparql" levels kind }
  | 0, _ => none

end KnowledgeBase

end LinkDiscovery
