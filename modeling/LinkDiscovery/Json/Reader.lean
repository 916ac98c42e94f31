import LinkDiscovery.Json.Basic
/-!
Reading JSON texts strictly: one value with blanks around it.
-/

namespace LinkDiscovery.Json

open Text Text.Scanner

def isSpace (c : Char) : Bool :=
  c == ' ' || c == '\t' || c == '\n' || c == '\r'

def spaces : Scanner Unit := do
  let _ ← span isSpace

/-- Reads a number; its first digit is not zero unless it is the only one before the point. -/
def numeral : Scanner Decimal.Numeral := do
  let negative ← orElse (do token '-'; return true) (return false)
  let whole ← orElse (do token '0'; return ['0']) (word Char.isDigit)
  let fraction ← optional do
    token '.'
    required (word Char.isDigit)
  let exponent ← Decimal.power
  return { negative, whole, fraction := fraction.getD [], exponent }

/-- The value of a digit to the base sixteen. -/
def hexDigit? (c : Char) : Option Nat :=
  if c.isDigit then some (c.toNat - 48)
  else if 'a' ≤ c ∧ c ≤ 'f' then some (c.toNat - 87)
  else if 'A' ≤ c ∧ c ≤ 'F' then some (c.toNat - 55)
  else none

/-- The value of four digits to the base sixteen. -/
def hexWord? (a b c d : Char) : Option Nat := do
  return ((← hexDigit? a) * 16 + (← hexDigit? b)) * 256 + (← hexDigit? c) * 16 + (← hexDigit? d)

/-- The character that a short escape stands for. -/
def shortEscape? : Char → Option Char
  | '"' => some '"'
  | '\\' => some '\\'
  | '/' => some '/'
  | 'b' => some '\x08'
  | 'f' => some '\x0c'
  | 'n' => some '\n'
  | 'r' => some '\r'
  | 't' => some '\t'
  | _ => none

/-- Reads the characters of a text up to the quote that closes it, as code units: a character is its
own unit, and a long escape names one. -/
def units : Scanner (List Nat)
  | [] => .missing
  | '"' :: rest => .found [] rest
  | '\\' :: 'u' :: a :: b :: c :: d :: rest =>
    match hexWord? a b c d, units rest with
    | some unit, .found others rest => .found (unit :: others) rest
    | _, _ => .missing
  | '\\' :: c :: rest =>
    match shortEscape? c, units rest with
    | some c, .found others rest => .found (c.toNat :: others) rest
    | _, _ => .missing
  | c :: rest =>
    if c.toNat < 0x20 ∨ c = '\\' then .missing
    else match units rest with
      | .found others rest => .found (c.toNat :: others) rest
      | _ => .missing

/-- The text that code units stand for, if the halves of surrogate pairs stand together. -/
def ofUnits? : List Nat → Option (List Char)
  | [] => some []
  | [unit] => if unit.isValidChar then some [Char.ofNat unit] else none
  | unit :: next :: rest =>
    if unit.isValidChar then (ofUnits? (next :: rest)).map (Char.ofNat unit :: ·)
    else if unit < 0xDC00 ∧ 0xDC00 ≤ next ∧ next < 0xE000 then
      (ofUnits? rest).map (Char.ofNat (0x10000 + (unit - 0xD800) * 0x400 + (next - 0xDC00)) :: ·)
    else none

/-- Reads a text after its opening quote; a text without a value is passed over. -/
def text : Scanner (Option String) := do
  return (ofUnits? (← units)).map String.ofList

/-- Reads at most `bound` items, separated by commas, and the character that closes them. -/
def items {α : Type} (item : Scanner α) (close : Char) : (bound : Nat) → Scanner (List α)
  | 0 => fun _ => .missing
  | bound + 1 => do
    let first ← item
    spaces
    orElse (do token close; return [first])
      (do token ','; return first :: (← items item close bound))

/-- Reads an entry of an object, with its key if that has a value. -/
def entry (value : Scanner Json) : Scanner (Option String × Json) := do
  spaces
  token '"'
  let key ← text
  spaces
  token ':'
  return (key, ← value)

/-- An object whose keys all have a value. -/
def ofEntries (entries : List (Option String × Json)) : Json :=
  match entries.mapM fun (key, value) => key.map (·, value) with
  | some entries => .object entries
  | none => .valueless

/-- Reads a word that stands for a value. -/
def constant (name : String) (json : Json) : Scanner Json := fun input =>
  if input.take name.toList.length = name.toList then
    .found json (input.drop name.toList.length)
  else .missing

/-- Reads a value; `bound` limits both the depth and the number of items side by side. -/
def value : (bound : Nat) → Scanner Json
  | 0 => fun _ => .missing
  | bound + 1 => do
    spaces
    orElse (do
        token '"'
        return (← text).elim .valueless .string)
      (orElse (do
        token '['
        orElse (do spaces; token ']'; return .array [])
          (do return .array (← items (value bound) ']' bound)))
      (orElse (do
        token '\x7b'
        orElse (do spaces; token '\x7d'; return .object [])
          (do return ofEntries (← items (entry (value bound)) '\x7d' bound)))
      (orElse (constant "null" .null)
      (orElse (constant "true" (.bool true))
      (orElse (constant "false" (.bool false))
        (do return .number (← numeral)))))))

/-- Reads a whole text; no value in it has more parts or levels than the text has characters. -/
def read? (source : String) : Option Json :=
  let chars := source.toList
  Scanner.whole (do let json ← value (chars.length + 1); spaces; return json) chars

end LinkDiscovery.Json
