import LinkDiscovery.Entity.Basic
import LinkDiscovery.Expression.Grammar
import LinkDiscovery.Measure.Basic
import LinkDiscovery.Path
/-!
Comparisons: calls of a measure on one property of each side.
-/

namespace LinkDiscovery

/-- The two collections to be linked, and the variables that name them in expressions. -/
structure Sides where
  source : Collection
  target : Collection
  sourceVar : String
  targetVar : String

/-- A measure's name and the properties it compares. -/
structure Comparison where
  measure : String
  sourceProperty : String
  targetProperty : String
  deriving DecidableEq

namespace Comparison

/-- What can keep an expression from scoring pairs. -/
inductive Fault where
  | expression (fault : Expression.Fault)
  | unknownMeasure (name : String)
  /-- A call does not have exactly two arguments. -/
  | arity (text : String)
  deriving BEq

def Fault.message : Fault → String
  | .expression fault => fault.message
  | .unknownMeasure name => s!"unknown measure `{name}`"
  | .arity text => s!"measure expression `{text}` needs exactly two property paths"

/-- The comparison that a call with this text stands for: it has two property paths, one for each
variable. -/
def ofCall (text : String) (call : Call) (sourceVar targetVar : String) :
    Except Fault Comparison :=
  match call.arguments with
  | [first, second] =>
    .ok {
      measure := call.measure
      sourceProperty := Path.property first sourceVar
      targetProperty := Path.property second targetVar }
  | _ => .error (.arity text)

/-- Reads a comparison. -/
def read (text sourceVar targetVar : String) : Except Fault Comparison :=
  match Call.read text with
  | .error fault => .error (.expression fault)
  | .ok call => ofCall (Text.trim text) call sourceVar targetVar

end Comparison

/-- The score of two entities by one property each; zero if one of them lacks its property. -/
def Measure.score (m : Measure) (sourceProperty targetProperty : String)
    (source target : Entity) : Float :=
  match source.properties[sourceProperty]?, target.properties[targetProperty]? with
  | some as, some bs => m.setSimilarity as bs
  | _, _ => 0

end LinkDiscovery
