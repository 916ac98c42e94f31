import LinkDiscovery.KnowledgeBase
import LinkDiscovery.Text.Blank
/-!
Run configurations: the two knowledge bases, the expression that scores their pairs, and the
thresholds from which links are accepted or reviewed.
-/

namespace LinkDiscovery

open Json

structure Configuration where
  source : KnowledgeBase
  target : KnowledgeBase
  /-- The expression that scores pairs. -/
  metric : String
  /-- Links are accepted from this confidence on. -/
  acceptance : Float
  /-- Links are reviewed from this confidence on. -/
  verification : Float
  acceptanceFile : Option String
  verificationFile : Option String

namespace Configuration

/-- What can be wrong with a configuration that can be read. -/
inductive Fault where
  | emptyMetric
  | outOfRange (name : String) (value : Float)
  /-- The threshold of review is above that of acceptance. -/
  | inverted (verification acceptance : Float)
  /-- The variable of a knowledge base has no name. -/
  | noVariable (id : String)
  deriving BEq

/-- What is wrong, without saying where. -/
def Fault.text : Fault → String
  | .emptyMetric => "metric is empty"
  | .outOfRange name value => s!"{name} must lie in [0, 1], got {Decimal.plain value}"
  | .inverted verification acceptance =>
    s!"verification_threshold {Decimal.plain verification} exceeds " ++
      s!"acceptance_threshold {Decimal.plain acceptance}"
  | .noVariable id => s!"knowledge base `{id}` has no variable"

def Fault.message (f : Fault) : String :=
  s!"configuration error: {f.text}"

/-- Says whether a number lies between zero and one. -/
def inUnit (x : Float) : Bool :=
  0 ≤ x && x ≤ 1

/-- The first fault of a configuration. -/
def fault? (c : Configuration) : Option Fault :=
  if Text.isBlankText c.metric then some .emptyMetric
  else if !inUnit c.acceptance then some (.outOfRange "acceptance_threshold" c.acceptance)
  else if !inUnit c.verification then some (.outOfRange "verification_threshold" c.verification)
  else if c.acceptance < c.verification then some (.inverted c.verification c.acceptance)
  else if c.source.bareVar.isEmpty then some (.noVariable c.source.id)
  else if c.target.bareVar.isEmpty then some (.noVariable c.target.id)
  else none

/-- A configuration has no fault if none of its checks finds one. -/
theorem fault?_eq_none {c : Configuration} :
    c.fault? = none ↔
      Text.isBlankText c.metric = false ∧ inUnit c.acceptance = true ∧ inUnit c.verification = true ∧
        ¬ c.acceptance < c.verification ∧ c.source.bareVar ≠ "" ∧ c.target.bareVar ≠ "" := by
  have hcheck (p : Prop) [Decidable p] (f : Fault) (rest : Option Fault) :
      (if p then some f else rest) = none ↔ ¬ p ∧ rest = none := by
    split
    · simp [*]
    · simp [*]
  simp only [fault?, hcheck, Bool.not_eq_true, Bool.not_eq_false', String.isEmpty_iff, and_true, ne_eq]

def toJson (c : Configuration) : Json :=
  .ofFields [("source", some c.source.toJson), ("target", some c.target.toJson),
    ("metric", some (.string c.metric)),
    ("acceptance_threshold", some (.ofFloat c.acceptance)),
    ("verification_threshold", some (.ofFloat c.verification)),
    ("acceptance_file", c.acceptanceFile.map .string),
    ("verification_file", c.verificationFile.map .string)]

def ofJson? : Decoder Configuration
  | levels + 1, json => do
    let [source, target, metric, acceptance, verification, acceptanceFile, verificationFile] ←
      fields? ["source", "target", "metric", "acceptance_threshold", "verification_threshold",
        "acceptance_file", "verification_file"] json | none
    return {
      source := ← required KnowledgeBase.ofJson? levels source
      target := ← required KnowledgeBase.ofJson? levels target
      metric := ← required Decoder.text levels metric
      acceptance := ← required Decoder.float levels acceptance
      verification := ← required Decoder.float levels verification
      acceptanceFile := ← optional Decoder.text levels acceptanceFile
      verificationFile := ← optional Decoder.text levels verificationFile }
  | 0, _ => none

end Configuration

end LinkDiscovery
