import LinkDiscovery.Expression.Table
import LinkDiscovery.Json.Decoder
/-!
Expressions as JSON: a record whose first field tells calls from compounds.
-/

namespace LinkDiscovery

open Json

def Call.fields (c : Call) : List (String × Json) :=
  [("measure", .string c.measure), ("arguments", .array (c.arguments.map .string))]

def Call.toJson (c : Call) : Json :=
  .object c.fields

def Call.ofFields? (levels : Nat) : List (Option Json) → Option Call
  | [measure, arguments] => do
    return {
      measure := ← required Decoder.text levels measure
      arguments := ← required (Decoder.list Decoder.text) levels arguments }
  | _ => none

/-- Reads a keyword, which may stand alone or as the only key, over null or an empty object. -/
def Keyword.ofJson? : Decoder Keyword
  | _, .string s | _, .object [(s, .null)] | _, .object [(s, .object [])] =>
    Keyword.all.find? (·.text = s)
  | _, _ => none

def Compound.fields (c : Compound) : List (String × Json) :=
  [("operator", .string c.keyword.text),
    ("term1", .string c.left.text), ("term2", .string c.right.text),
    ("threshold1", .ofFloat c.left.threshold), ("threshold2", .ofFloat c.right.threshold),
    ("coef1", .ofFloat c.left.coefficient), ("coef2", .ofFloat c.right.coefficient)]

def Compound.ofFields? (levels : Nat) : List (Option Json) → Option Compound
  | [keyword, text₁, text₂, threshold₁, threshold₂, coefficient₁, coefficient₂] => do
    return {
      keyword := ← required Keyword.ofJson? levels keyword
      left := {
        text := ← required Decoder.text levels text₁
        threshold := ← required Decoder.float levels threshold₁
        coefficient := ← required Decoder.float levels coefficient₁ }
      right := {
        text := ← required Decoder.text levels text₂
        threshold := ← required Decoder.float levels threshold₂
        coefficient := ← required Decoder.float levels coefficient₂ } }
  | _ => none

namespace Expression

def toJson : Expression → Json
  | .call c => .object (("kind", .string "atomic") :: c.fields)
  | .compound c => .object (("kind", .string "composite") :: c.fields)

/-- Reads the fields of an expression of this kind. -/
def ofKind? (levels : Nat) (fields : Json) : String → Option Expression
  | "atomic" => do
    return .call (← Call.ofFields? levels (← fields? ["measure", "arguments"] fields))
  | "composite" => do
    return .compound (← Compound.ofFields? levels (← fields?
      ["operator", "term1", "term2", "threshold1", "threshold2", "coef1", "coef2"] fields))
  | _ => none

mutual

/-- Says whether every part of a value can be read, the parts that are passed over included. -/
def isReadable : (levels : Nat) → Json → Bool
  | _, .valueless => false
  | _, .number n => n.jsonValue?.isSome
  | 0, .array _ | 0, .object _ => false
  | levels + 1, .array items => areReadable levels items
  | levels + 1, .object entries => entriesReadable levels entries
  | _, _ => true

def areReadable (levels : Nat) : List Json → Bool
  | [] => true
  | json :: rest => isReadable levels json && areReadable levels rest

def entriesReadable (levels : Nat) : List (String × Json) → Bool
  | [] => true
  | (_, json) :: rest => isReadable levels json && entriesReadable levels rest

end

/-- Reads an expression. As its kind may stand anywhere in the record, all of it is read first. -/
def ofJson? : Decoder Expression
  | levels + 1, json =>
    if isReadable (levels + 1) json then
      match json with
      | .object entries =>
        match entries.filter (·.1 = "kind") with
        | [(_, .string kind)] => ofKind? levels (.object (entries.filter (·.1 ≠ "kind"))) kind
        | _ => none
      | .array (.string kind :: rest) => ofKind? levels (.array rest) kind
      | _ => none
    else none
  | _, _ => none

/-- Reads a table of readings; of equal texts the last counts. -/
def Table.ofJson? : Decoder Table := fun levels json =>
  (Decoder.entries Expression.ofJson? levels json).map fun entries =>
    entries.foldl (fun table (text, e) => table.insert text e) ∅

end Expression

end LinkDiscovery
