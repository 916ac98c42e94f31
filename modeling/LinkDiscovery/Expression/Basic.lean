import LinkDiscovery.Decimal.Text
/-!
Expressions of the specification language: a call of a measure with its arguments, or a keyword
over two weighted terms. An expression shows one level only; its terms are kept as text.
-/

namespace LinkDiscovery

/-- The seven operator keywords. -/
inductive Keyword where
  | and
  | or
  | xor
  | minus
  | min
  | max
  | add
  deriving DecidableEq, Repr

namespace Keyword

def all : List Keyword :=
  [.and, .or, .xor, .minus, .min, .max, .add]

/-- The spelling of a keyword in capitals. -/
def text : Keyword → String
  | .and => "AND"
  | .or => "OR"
  | .xor => "XOR"
  | .minus => "MINUS"
  | .min => "MIN"
  | .max => "MAX"
  | .add => "ADD"

/-- The keyword that a word spells, in any case. -/
def ofLetters? (word : List Char) : Option Keyword :=
  match word.map Char.toLower with
  | ['a', 'n', 'd'] => some .and
  | ['o', 'r'] => some .or
  | ['x', 'o', 'r'] => some .xor
  | ['m', 'i', 'n', 'u', 's'] => some .minus
  | ['m', 'i', 'n'] => some .min
  | ['m', 'a', 'x'] => some .max
  | ['a', 'd', 'd'] => some .add
  | _ => none

end Keyword

/-- A measure applied to property paths. -/
structure Call where
  measure : String
  arguments : List String
  deriving DecidableEq

/-- One side of a compound: the text of an expression, its coefficient and its threshold. -/
structure Term where
  coefficient : Float
  text : String
  threshold : Float
  deriving BEq

/-- A keyword over two terms. -/
structure Compound where
  keyword : Keyword
  left : Term
  right : Term
  deriving BEq

/-- The outermost level of an expression. -/
inductive Expression where
  | call (call : Call)
  | compound (compound : Compound)
  deriving BEq

namespace Expression

def isCall : Expression → Bool
  | .call _ => true
  | .compound _ => false

/-- What can be wrong with the text of an expression. -/
inductive Fault where
  /-- The text does not follow the grammar. -/
  | malformed (text : String)
  /-- A threshold is infinite or no number. -/
  | threshold (text : String) (value : Float)
  /-- A coefficient of a sum is not a positive finite number. -/
  | coefficient (text : String) (value : Float)
  deriving BEq

def Fault.message : Fault → String
  | .malformed text => s!"malformed specification expression: `{text}`"
  | .threshold text value =>
    s!"threshold `{Decimal.plain value}` in `{text}` is not a finite number"
  | .coefficient text value =>
    s!"ADD coefficient `{Decimal.plain value}` in `{text}` must be a positive finite number"

end Expression

namespace Compound

/-- The first number of a compound that it must not hold. Thresholds are finite; the coefficients
of a sum are finite and positive, and all other coefficients are ignored. -/
def fault? (text : String) (c : Compound) : Option Expression.Fault :=
  match [c.left.threshold, c.right.threshold].find? fun v => !v.isFinite with
  | some value => some (.threshold text value)
  | none =>
    if c.keyword = .add then
      ([c.left.coefficient, c.right.coefficient].find? fun v => !v.isFinite || v ≤ 0).map
        (.coefficient text)
    else none

end Compound

end LinkDiscovery
