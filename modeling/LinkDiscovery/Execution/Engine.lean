import LinkDiscovery.Execution.Buffer
import LinkDiscovery.Execution.Filter
import LinkDiscovery.Execution.Outcome
import LinkDiscovery.Plan.Basic
/-!
Carrying out plans. A flat plan places the result of each instruction in a buffer; a tree of plans
joins results on the way up.
-/

namespace LinkDiscovery

/-- What plans are carried out with. -/
structure Engine (φ : Type := Registry) where
  sides : Sides
  /-- The measures and mappers that find links. -/
  registry : Registry
  /-- The measures that score links anew, or another filter in their place. -/
  filterRegistry : φ

namespace Engine

/-- An engine that finds links and scores them with the same measures. -/
def ofRegistry (sides : Sides) (registry : Registry) : Engine :=
  { sides, registry, filterRegistry := registry }

/-- An engine with the measures that are always known. -/
def standard (sides : Sides) : Engine :=
  ofRegistry sides .standard

section

variable {φ : Type}

/-- An operand that an instruction must have. -/
def require {α : Type} (i : Instruction) (position : Nat) (operand : Operand) :
    Option α → Except Execution.Fault α
  | some value => .ok value
  | none => .error (.missingOperand i.command position operand)

/-- The result in a slot. -/
def readSlot (buffer : SlotBuffer) (slot position : Nat) : Execution :=
  match buffer.get? slot with
  | some links => { links }
  | none => { warnings := [.missingSlot position slot buffer.length] }

/-- Finds the links of an instruction. -/
def run (e : Engine φ) (i : Instruction) (position : Nat) : Except Execution.Fault Execution := do
  let text ← require i position .expression i.expression
  let threshold ← require i position .threshold i.threshold
  match Comparison.read text e.sides.sourceVar e.sides.targetVar with
  | .error (.expression fault) => throw (.expression fault)
  | .error fault => throw (.badCall i.command position fault)
  | .ok comparison =>
    match e.registry.mapper? comparison.measure with
    | none => return { warnings := [.unresolvedMeasure (some position) comparison.measure] }
    | some mapper =>
      match mapper.run e.sides text threshold with
      | .ok links => return { links }
      | .error failure => throw (.dataAccess comparison.measure failure)

variable [LinkFilter φ]

/-- Filters links by an instruction; a filter of joined results has no position. -/
def applyFilter (e : Engine φ) (i : Instruction) (links : Links) (position : Option Nat) :
    Except Execution.Fault Execution :=
  match i.threshold, position with
  | none, some position => .error (.missingOperand i.command position .threshold)
  | none, none => .error .noFilterThreshold
  | some threshold, _ =>
    match i.expression with
    | none => .ok { links := LinkFilter.atLeast e.filterRegistry links threshold }
    | some text =>
      match e.registry.unresolved text with
      | .error fault => .error (.expression fault)
      | .ok (m :: ms) => .ok { warnings := (m :: ms).map (.unresolvedMeasure position) }
      | .ok [] =>
        match LinkFilter.rescoreBy e.filterRegistry links e.sides text threshold i.mainThreshold with
        | .ok links => .ok { links }
        | .error failure => .error (.dataAccess text failure)

/-- Carries out one instruction that has a result. -/
def step (e : Engine φ) (i : Instruction) (position : Nat) (buffer : SlotBuffer) :
    Except Execution.Fault Execution :=
  match i.command with
  | .run => e.run i position
  | .filter => do
    let slot ← require i position .source i.source
    let input := readSlot buffer slot position
    let output ← e.applyFilter i input.links (some position)
    return { links := output.links, warnings := input.warnings ++ output.warnings }
  | .set operation => do
    let source ← require i position .source i.source
    let target ← require i position .target i.target
    let left := readSlot buffer source position
    let right := readSlot buffer target position
    return {
      links := operation.apply left.links right.links
      warnings := left.warnings ++ right.warnings }
  | .yield => return {}

/-- The result that ends a plan. An empty buffer has an empty result, whatever slot is named. -/
def yielded (slot : Option Nat) (position : Nat) (buffer : SlotBuffer) : Execution :=
  if buffer.isEmpty then {}
  else
    match slot with
    | none => { links := buffer.last?.getD .empty }
    | some slot => readSlot buffer slot position

/-- Carries out instructions, the first of which stands at `position`. -/
def executeFrom (e : Engine φ) (position : Nat) (buffer : SlotBuffer) (warnings : List Warning) :
    List Instruction → Except Execution.Fault (Execution × SlotBuffer)
  | [] => .ok ({ links := buffer.last?.getD .empty, warnings }, buffer)
  | i :: rest =>
    if i.command = .yield then
      let last := yielded i.source position buffer
      .ok ({ links := last.links, warnings := warnings ++ last.warnings }, buffer)
    else
      match e.step i position buffer with
      | .error fault => .error fault
      | .ok result =>
        e.executeFrom (position + 1) (buffer.place i.result result.links)
          (warnings ++ result.warnings) rest

/-- Carries out a flat plan; gives the buffer at its end as well. -/
def executeTraced (e : Engine φ) (p : Plan) : Except Execution.Fault (Execution × SlotBuffer) :=
  e.executeFrom 0 .empty [] p.instructions

/-- Carries out a flat plan. -/
def execute (e : Engine φ) (p : Plan) : Except Execution.Fault Execution :=
  (e.executeTraced p).map (·.1)

/-- Joins results from left to right; without an operation the first one stays. -/
def join (operation : Option SetOperation) (first : Links) (others : List Links) : Links :=
  match operation with
  | some o => others.foldl o.apply first
  | none => first

/-- Filters a joined result, if there is a filter. -/
def filterJoined (e : Engine φ) (filter : Option Instruction) (links : Links) :
    Except Execution.Fault Execution :=
  match filter with
  | some f => e.applyFilter f links none
  | none => .ok { links }

mutual

/-- Carries out a tree of plans. -/
def executeNested (e : Engine φ) : NestedPlan → Except Execution.Fault Execution
  | .node is [] _ _ => e.execute { instructions := is }
  | .node _ (p :: ps) operation filter => do
    if operation.isNone && !ps.isEmpty then throw (.noOperation (ps.length + 1))
    let first ← e.executeNested p
    let others ← e.executeAll ps
    let result ←
      e.filterJoined filter (join operation first.links (others.map (·.links)))
    return {
      links := result.links
      warnings := first.warnings ++ others.flatMap (·.warnings) ++ result.warnings }

/-- Carries out trees of plans from left to right. -/
def executeAll (e : Engine φ) : List NestedPlan → Except Execution.Fault (List Execution)
  | [] => .ok []
  | p :: ps => do
    let first ← e.executeNested p
    let others ← e.executeAll ps
    return first :: others

end

end

end Engine

end LinkDiscovery
