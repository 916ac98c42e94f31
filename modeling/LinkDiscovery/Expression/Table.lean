import LinkDiscovery.Expression.Grammar
import Std.Data.ExtTreeMap
/-!
Expressions with given readings: a table assigns readings to texts, and all other texts are read by
the grammar. A reading shows one level only, so the text of each term is read in turn.
-/

namespace LinkDiscovery

/-- A way to see the outermost level of an expression's text. -/
abbrev Expression.Reader := String → Except Expression.Fault Expression

/-- Reads the levels of a text from the outermost to the innermost and from left to right, and stops
at the first fault. Texts nested `depth` deep or deeper are refused. -/
def Outline.readWithin (reader : Expression.Reader) :
    (depth : Nat) → String → Except Expression.Fault Outline
  | 0, text => .error (.malformed (Text.trim text))
  | depth + 1, text => do
    match ← reader (Text.trim text) with
    | .call c => return .leaf (Text.trim text) c
    | .compound c =>
      let left ← readWithin reader depth c.left.text
      let right ← readWithin reader depth c.right.text
      return .node c left right

namespace Expression

/-- Readings given for whole texts. -/
abbrev Table := Std.ExtTreeMap String Expression

namespace Table

/-- Looks a text up, and reads it by the grammar where the table has nothing. -/
def reader (table : Table) : Reader := fun text =>
  match table[text]? with
  | some e => .ok e
  | none => read text

/-- The length of the longest text that a reading of the table leads to. -/
def longest (table : Table) : Nat :=
  table.foldl (fun longest _ e =>
    match e with
    | .call _ => longest
    | .compound c => max longest (max c.left.text.length c.right.text.length)) 0

/-- The outline of a text. On the way inwards no entry of the table is met twice, unless it contains
itself, and between two of them the texts become shorter; this bounds the depth. -/
def outline (table : Table) (text : String) : Except Fault Outline :=
  Outline.readWithin table.reader
    ((table.size + 1) * (max text.length table.longest + 1)) text

end Table

end Expression

end LinkDiscovery
