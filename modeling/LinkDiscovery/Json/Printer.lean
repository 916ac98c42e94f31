import LinkDiscovery.Json.Number
/-!
JSON texts, without blanks or indented by two blanks a level.
-/

namespace LinkDiscovery.Json

open Decimal

/-- A character inside a text. Only quotes, backslashes and control characters are escaped. -/
def escape (c : Char) : List Char :=
  match c with
  | '"' => ['\\', '"']
  | '\\' => ['\\', '\\']
  | '\x08' => ['\\', 'b']
  | '\x0c' => ['\\', 'f']
  | '\n' => ['\\', 'n']
  | '\r' => ['\\', 'r']
  | '\t' => ['\\', 't']
  | c =>
    if c.toNat < 0x20 then
      "\\u00".toList ++ [Nat.digitChar (c.toNat / 16), Nat.digitChar (c.toNat % 16)]
    else [c]

def quote (text : String) : String :=
  String.ofList ('"' :: text.toList.flatMap escape ++ ['"'])

/-- Null, a truth value, a number or a text. -/
def scalar : Json → String
  | bool true => "true"
  | bool false => "false"
  | number n => String.ofList n.text
  | string text => quote text
  | _ => "null"

mutual

/-- A value without blanks. -/
def compact : Json → String
  | array items => "[" ++ compactItems items ++ "]"
  | object entries => "\x7b" ++ compactEntries entries ++ "\x7d"
  | json => scalar json

def compactItems : List Json → String
  | [] => ""
  | [json] => compact json
  | json :: next :: rest => compact json ++ "," ++ compactItems (next :: rest)

def compactEntries : List (String × Json) → String
  | [] => ""
  | [(key, json)] => quote key ++ ":" ++ compact json
  | (key, json) :: next :: rest =>
    quote key ++ ":" ++ compact json ++ "," ++ compactEntries (next :: rest)

end

/-- A line end and the blanks of a level. -/
def newLine (depth : Nat) : String :=
  String.ofList ('\n' :: List.replicate (2 * depth) ' ')

mutual

/-- A value with each part on a line of its own. -/
def indented (depth : Nat) : Json → String
  | array [] => "[]"
  | array (json :: rest) =>
    "[" ++ newLine (depth + 1) ++ indented (depth + 1) json ++ indentedItems (depth + 1) rest ++
      newLine depth ++ "]"
  | object [] => "\x7b\x7d"
  | object ((key, json) :: rest) =>
    "\x7b" ++ newLine (depth + 1) ++ quote key ++ ": " ++ indented (depth + 1) json ++
      indentedEntries (depth + 1) rest ++ newLine depth ++ "\x7d"
  | json => scalar json

def indentedItems (depth : Nat) : List Json → String
  | [] => ""
  | json :: rest => "," ++ newLine depth ++ indented depth json ++ indentedItems depth rest

def indentedEntries (depth : Nat) : List (String × Json) → String
  | [] => ""
  | (key, json) :: rest =>
    "," ++ newLine depth ++ quote key ++ ": " ++ indented depth json ++ indentedEntries depth rest

end

/-- A value over several lines. -/
def pretty (json : Json) : String :=
  indented 0 json

mutual

/-- Arranges the entries of all objects by their keys. -/
def sortKeys : Json → Json
  | array items => array (sortItems items)
  | object entries => object ((sortEntries entries).mergeSort fun a b => a.1 ≤ b.1)
  | json => json

def sortItems : List Json → List Json
  | [] => []
  | json :: rest => sortKeys json :: sortItems rest

def sortEntries : List (String × Json) → List (String × Json)
  | [] => []
  | (key, json) :: rest => (key, sortKeys json) :: sortEntries rest

end

end LinkDiscovery.Json
