import LinkDiscovery.Execution.Engine
import LinkDiscovery.Text.Quoted
/-!
How mappers, registries and engines are listed for a reader: by the names of what they hold.
-/

namespace LinkDiscovery

/-- The mapper that scores every pair with a measure, by the name of the measure. -/
def Measure.mapperListing (m : Measure) : String :=
  let name := Text.quoted m.name
  s!"NaiveMapper \x7b measure: {name} \x7d"

/-- A registry by the names under which measures and mappers are found. -/
def Registry.listing (r : Registry) : String :=
  let measures := Text.quotedList r.measures.keys
  let mappers := Text.quotedList r.mappers.keys
  s!"MeasureRegistry \x7b measures: {measures}, mappers: {mappers} \x7d"

/-- An engine by the sizes of its collections, its variables and its registry. -/
def Engine.listing {φ : Type} (e : Engine φ) : String :=
  let source := e.sides.source.size
  let target := e.sides.target.size
  let sourceVar := Text.quoted e.sides.sourceVar
  let targetVar := Text.quoted e.sides.targetVar
  let registry := e.registry.listing
  s!"SimpleExecutionEngine \x7b source: {source}, target: {target}, " ++
    s!"source_var: {sourceVar}, target_var: {targetVar}, registry: {registry} \x7d"

end LinkDiscovery
