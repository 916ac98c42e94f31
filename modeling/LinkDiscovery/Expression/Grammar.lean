import LinkDiscovery.Decimal.Numeral
import LinkDiscovery.Expression.Outline
import LinkDiscovery.Text.Blank
/-!
The grammar of expressions:

    expression = call | compound
    call       = name "(" argument ("," argument)* ")"
    compound   = keyword "(" term "," term ")"
    term       = [number "*"] expression "|" number

Blanks, tabs and line ends may stand around the terms and their parts and before a parenthesis that
opens.
-/

namespace LinkDiscovery.Grammar

open Text Text.Scanner

/-- Blanks, tabs and line ends. -/
def isSpace (c : Char) : Bool :=
  c == ' ' || c == '\t' || c == '\n' || c == '\r'

def spaces : Scanner Unit := do
  let _ ← span isSpace

def isNameChar (c : Char) : Bool :=
  c.isAlphanum || c == '_' || c == '-'

def name : Scanner String := do
  return String.ofList (← word isNameChar)

/-- A number of the language: a numeral, or one of the words `nan` and `inf` in any case. -/
def number : Scanner Float :=
  orElse (do return (← Decimal.numeral).toFloat)
    (orElse (do wordLetters "nan"; return Decimal.notANumber)
      (do wordLetters "inf"; return Decimal.infinity))

/-- The argument whose characters are given last first; an argument is not blank. -/
def argument? (reversed : List Char) : Option String :=
  match trimChars reversed.reverse with
  | [] => none
  | cs => some (String.ofList cs)

/-- Reads arguments and the parenthesis that closes them; `reversed` holds the part of the current
argument that has been read, last character first. -/
def arguments (reversed : List Char) : Scanner (List String)
  | [] => .missing
  | c :: rest =>
    if c = ')' then
      match argument? reversed with
      | some last => .found [last] rest
      | none => .missing
    else if c = ',' then
      match argument? reversed, arguments [] rest with
      | some first, .found others rest => .found (first :: others) rest
      | _, _ => .missing
    else if c = '(' ∨ c = '|' then .missing
    else arguments (c :: reversed) rest

def call : Scanner Call := do
  let measure ← name
  spaces
  token '('
  let arguments ← arguments []
  return { measure, arguments }

def keyword : Scanner Keyword := fun input =>
  match word isNameChar input with
  | .found letters rest =>
    match Keyword.ofLetters? letters with
    | some keyword => .found keyword rest
    | none => .missing
  | _ => .missing

/-- A term, with the outline of its expression as `inner` reads it. -/
@[inline] def term (inner : Scanner Outline) : Scanner (Term × Outline) := do
  spaces
  let coefficient ← optional do
    let value ← number
    spaces
    token '*'
    return value
  spaces
  let (text, outline) ← spelled inner
  spaces
  token '|'
  spaces
  let threshold ← number
  spaces
  return ({ coefficient := coefficient.getD 1, text, threshold }, outline)

/-- A compound over expressions that `inner` reads. -/
@[inline] def compound (inner : Scanner Outline) : Scanner Outline := do
  let keyword ← keyword
  spaces
  token '('
  let (left, leftOutline) ← term inner
  token ','
  let (right, rightOutline) ← term inner
  token ')'
  return .node { keyword, left, right } leftOutline rightOutline

/-- An expression in which compounds are nested less than `depth` deep. -/
def outline : (depth : Nat) → Scanner Outline
  | 0 => fun _ => .missing
  | depth + 1 =>
    orElse (compound (outline depth))
      (do let (text, call) ← spelled call; return .leaf text call)

end LinkDiscovery.Grammar

namespace LinkDiscovery

open Text

/-- Reads a text as a call, blanks around it left out. -/
def Call.read (text : String) : Except Expression.Fault Call :=
  let trimmed := trimChars text.toList
  match Grammar.call.whole trimmed with
  | some call => .ok call
  | none => .error (.malformed (String.ofList trimmed))

/-- The outline of a text that follows the grammar, blanks around it left out; its numbers may be
any. Each level of nesting takes a character at least, so the length bounds the depth. -/
def Outline.parse (text : String) : Except Expression.Fault Outline :=
  let trimmed := trimChars text.toList
  match (Grammar.outline trimmed.length).whole trimmed with
  | some outline => .ok outline
  | none => .error (.malformed (String.ofList trimmed))

/-- Reads a text with all its levels and checks all their numbers. -/
def Outline.read (text : String) : Except Expression.Fault Outline := do
  let outline ← Outline.parse text
  match outline.fault? (trim text) with
  | some fault => throw fault
  | none => return outline

namespace Expression

/-- Reads the outermost level of a text and checks its numbers. -/
def read (text : String) : Except Fault Expression := do
  match (← Outline.parse text).top with
  | .call c => return .call c
  | .compound c =>
    match c.fault? (trim text) with
    | some fault => throw fault
    | none => return .compound c

/-- The measures that the text of an expression calls, from left to right. -/
def measureNames (text : String) : Except Fault (List String) :=
  return (← Outline.read text).measures

end Expression

end LinkDiscovery
