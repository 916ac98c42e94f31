import LinkDiscovery.Json.Number
import LinkDiscovery.Json.Reader
/-!
Reading values of known types from JSON. A decoder is told how many arrays and objects it may still
enter, one inside the other. A record is an object or an array of its fields in their order; fields
that are not known are passed over.
-/

namespace LinkDiscovery.Json

/-- Reads a value of a type, entering at most so many containers inside each other. -/
abbrev Decoder (α : Type) := (levels : Nat) → Json → Option α

/-- The number of containers that may be entered inside each other. -/
def maxLevels : Nat := 127

namespace Decoder

variable {α β : Type}

def text : Decoder String
  | _, string s => some s
  | _, _ => none

/-- Reads a double; integers are doubles as well. -/
def float : Decoder Float
  | _, number n => n.jsonValue?
  | _, _ => none

/-- Reads an integer of 64 bits without a sign. -/
def nat : Decoder Nat
  | _, number n =>
    match n.integer? with
    | some (.ofNat k) => some k
    | _ => none
  | _, _ => none

/-- Reads an integer of 64 bits with a sign. -/
def int : Decoder Int
  | _, number n => n.integer?.filter (· < 0x8000000000000000)
  | _, _ => none

/-- Reads a word from a fixed stock, which may stand alone or as the only key, over null. -/
def keyword (ofText? : String → Option α) : Decoder α
  | _, string s => ofText? s
  | _ + 1, object [(key, null)] => ofText? key
  | _, _ => none

/-- Reads a value, or null for none. -/
def orNull (decode : Decoder α) : Decoder (Option α)
  | _, null => some none
  | levels, json => (decode levels json).map some

def list (decode : Decoder α) : Decoder (List α)
  | levels + 1, array items => items.mapM (decode levels)
  | _, _ => none

def pair (first : Decoder α) (second : Decoder β) : Decoder (α × β)
  | levels + 1, array [a, b] => do return (← first levels a, ← second levels b)
  | _, _ => none

/-- Reads an object with arbitrary keys. -/
def entries (decode : Decoder α) : Decoder (List (String × α))
  | levels + 1, object entries => entries.mapM fun (key, json) => (decode levels json).map (key, ·)
  | _, _ => none

end Decoder

/-- The fields of a record with these names, none where a field is missing. A known field stands at
most once in an object, and an array has no more items than there are fields. -/
def fields? (names : List String) : Json → Option (List (Option Json))
  | object entries =>
    names.mapM fun name =>
      match entries.filter (·.1 = name) with
      | [] => some none
      | [(_, json)] => some (some json)
      | _ => none
  | array items =>
    if items.length ≤ names.length then
      some (items.map some ++ List.replicate (names.length - items.length) none)
    else none
  | _ => none

/-- Reads a field that must be there. -/
def required {α : Type} (decode : Decoder α) (levels : Nat) (field : Option Json) : Option α :=
  field.bind (decode levels)

/-- Reads a field that may be missing or null. -/
def optional {α : Type} (decode : Decoder α) (levels : Nat) : Option Json → Option (Option α)
  | none => some none
  | some json => Decoder.orNull decode levels json

/-- Reads a field with a value of its own for when it is missing. -/
def defaulted {α : Type} (decode : Decoder α) (default : α) (levels : Nat) :
    Option Json → Option α
  | none => some default
  | some json => decode levels json

/-- Entries of an object, as far as they are there. -/
def ofFields (fields : List (String × Option Json)) : Json :=
  object (fields.filterMap fun (key, json) => json.map (key, ·))

/-- Reads a whole text. -/
def decode? {α : Type} (decode : Decoder α) (source : String) : Option α := do
  decode maxLevels (← read? source)

end LinkDiscovery.Json
