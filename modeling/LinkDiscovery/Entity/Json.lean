import LinkDiscovery.Entity.Basic
import LinkDiscovery.Json.Decoder
/-!
Entities and collections as JSON.
-/

namespace LinkDiscovery

open Json

def Entity.toJson (e : Entity) : Json :=
  .object [("uri", .string e.uri),
    ("properties", .object (e.properties.toList.map fun (property, values) =>
      (property, .array (values.toList.map .string))))]

/-- Reads an entity; of equal properties the last counts. -/
def Entity.ofJson? : Decoder Entity
  | levels + 1, json => do
    let [uri, properties] ← fields? ["uri", "properties"] json | none
    let properties ←
      defaulted (Decoder.entries (Decoder.list Decoder.text)) [] levels properties
    return {
      uri := ← required Decoder.text levels uri
      properties := properties.foldl (fun known (property, values) =>
        known.insert property (.ofList values)) ∅ }
  | 0, _ => none

def Collection.toJson (c : Collection) : Json :=
  .object [("instances", .object (c.entities.toList.map fun (key, e) => (key, e.toJson)))]

/-- Reads a collection with its keys; of equal keys the last counts. -/
def Collection.ofJson? : Decoder Collection
  | levels + 1, json => do
    let [entities] ← fields? ["instances"] json | none
    let entities ← required (Decoder.entries Entity.ofJson?) levels entities
    return { entities := entities.foldl (fun known (key, e) => known.insert key e) ∅ }
  | 0, _ => none

/-- Reads a list of entities and collects them. -/
def Collection.ofListJson? : Decoder Collection := fun levels json =>
  (Decoder.list Entity.ofJson? levels json).map ofList

end LinkDiscovery
