import LinkDiscovery.Json.Decoder
import LinkDiscovery.Links.Basic
/-!
Links as JSON: the predicate, and for each source its targets with their confidences.
-/

namespace LinkDiscovery.Links

open Json

def toJson (m : Links) : Json :=
  .object [("predicate", .string m.predicate),
    ("links", .object (m.rows.toList.map fun (source, row) =>
      (source, .object (row.toList.map fun (target, confidence) =>
        (target, .ofFloat confidence)))))]

/-- Reads links. Of equal keys the last counts, and a source without targets is left out. -/
def ofJson? : Decoder Links
  | levels + 1, json => do
    let [predicate, rows] ← fields? ["predicate", "links"] json | none
    let predicate ← defaulted Decoder.text sameAs levels predicate
    let rows ← defaulted (Decoder.entries (Decoder.entries Decoder.float)) [] levels rows
    let rows : Std.ExtTreeMap String Row :=
      rows.foldl (fun rows (source, row) =>
        rows.insert source (row.foldl (fun row (target, c) => row.insert target c) ∅)) ∅
    return (withPredicate predicate).addAll (linksOf rows)
  | 0, _ => none

end LinkDiscovery.Links
