import LinkDiscovery.Execution.Engine
import LinkDiscovery.Plan.Canonical
import LinkDiscovery.Proofs.Execution.Pairs
import LinkDiscovery.Specification.Reading
/-!
What the plan of an expression makes of a single pair of entities. The pair has a confidence in each
part of the plan or none, and the confidences of the parts are joined on the way up.
-/

namespace LinkDiscovery

/-- What an operation makes of the two confidences of a pair. -/
def SetOperation.joined : SetOperation → Option Float → Option Float → Option Float
  | .intersection, c, d => c.bind fun x => d.map (Score.smaller x)
  | .union, c, d => Links.merged c d
  | .difference, c, d => if d.isSome then none else c
  | .symmetricDifference, some _, some _ => none
  | .symmetricDifference, some c, none => some c
  | .symmetricDifference, none, d => d

theorem SetOperation.find?_apply (o : SetOperation) (m other : Links) (s t : String) :
    (o.apply m other).find? s t = o.joined (m.find? s t) (other.find? s t) := by
  cases o with
  | intersection => exact Links.find?_intersection m other
  | union => exact Links.find?_union m other
  | difference =>
      change (m.difference other).find? s t = _
      rw [Links.find?_difference, Links.contains, joined]
  | symmetricDifference =>
      change (m.symmetricDifference other).find? s t = _
      rw [Links.find?_symmetricDifference]
      cases m.find? s t <;> cases other.find? s t <;> rfl

@[simp]
theorem SetOperation.joined_none (o : SetOperation) : o.joined none none = none := by
  cases o <;> rfl

namespace Sides

variable (sides : Sides) (s t : String) (f g : Entity → Entity → Option Float)

theorem joined_onPair (o : SetOperation) :
    o.joined (sides.onPair s t f) (sides.onPair s t g) =
      sides.onPair s t fun a b => o.joined (f a b) (g a b) := by
  unfold onPair
  cases sides.source.find? s <;> cases sides.target.find? t <;> simp

theorem onPair_bind (k : Float → Option Float) :
    (sides.onPair s t f).bind k = sides.onPair s t fun a b => (f a b).bind k := by
  simp only [onPair, Option.bind_assoc]

theorem onPair_bind_onPair (k : Float → Entity → Entity → Option Float) :
    ((sides.onPair s t f).bind fun c => sides.onPair s t (k c)) =
      sides.onPair s t fun a b => (f a b).bind fun c => k c a b := by
  unfold onPair
  cases sides.source.find? s <;> cases sides.target.find? t <;> simp

end Sides

/-- The confidence that the plan of an expression with a threshold gives to two entities. The pairs
of a sum are scored anew. -/
def Scorer.linked (source target : Entity) : Scorer → Float → Option Float
  | .comparison m p q, θ => reached (Score.larger θ 0) (m.score p q source target)
  | .compound c left right, θ =>
    (c.keyword.operator.setOperation.joined (left.linked source target (c.thresholds θ).1)
        (right.linked source target (c.thresholds θ).2)).bind fun confidence =>
      if c.keyword = .add then
        let score := combine c (left.score source target) (right.score source target)
        if score < Score.larger θ 0 then none else some score
      else reached (Score.larger θ 0) confidence

namespace Engine

variable {e : Engine}

/-- Carrying out a plan over two others. -/
theorem executeNested_pair {p q : NestedPlan} {o : SetOperation} {f : Instruction}
    {left right result : Execution} (hp : e.executeNested p = .ok left)
    (hq : e.executeNested q = .ok right)
    (hf : e.applyFilter f (o.apply left.links right.links) none = .ok result) :
    e.executeNested (.node [] [p, q] (some o) (some f)) =
      .ok {
        links := result.links
        warnings := left.warnings ++ right.warnings ++ result.warnings } := by
  simp [executeNested, executeAll, hp, hq, filterJoined, join, hf, bind, Except.bind, pure,
    Except.pure]

theorem applyFilter_filtering (threshold : Float) (links : Links) :
    e.applyFilter (.filtering threshold) links none = .ok { links := links.atLeast threshold } :=
  rfl

/-- Scoring links anew needs an expression whose measures are all known. -/
theorem applyFilter_filteringBy {text : String} {threshold : Float} {links : Links}
    {scorer : Scorer} (hknown : e.registry.unresolved text = .ok [])
    (hcompile : e.filterRegistry.compile text e.sides.sourceVar e.sides.targetVar = .ok scorer) :
    e.applyFilter (.filteringBy text threshold) links none =
      .ok { links := links.rescore e.sides scorer threshold none } := by
  simp [applyFilter, Instruction.filteringBy, hknown, Links.rescoreBy, hcompile]

/-- Carrying out a single run. -/
theorem execute_run {text : String} {threshold : Float} {c : Comparison} {m : Measure}
    (hread : Comparison.read text e.sides.sourceVar e.sides.targetVar = .ok c)
    (hm : e.registry.mapper? c.measure = some (.pairwise m)) :
    e.executeNested (.atomic [.run text threshold]) =
      .ok {
        links := Links.ofList (Mapper.pairsAtLeast e.sides
          (m.score c.sourceProperty c.targetProperty) threshold) } := by
  simp [NestedPlan.atomic, executeNested, execute, executeTraced, executeFrom, Instruction.run,
    step, run, require, hread, hm, Mapper.run, bind, Except.bind, pure, Except.pure, Except.map,
    SlotBuffer.place, SlotBuffer.last?]

end Engine

namespace Links

/-- Scoring links anew depends on the confidence of a pair and on its entities. -/
theorem find?_rescored (m : Links) (sides : Sides) (scorer : Scorer) (threshold : Float)
    (main : Option Float) (s t : String) :
    (m.rescore sides scorer threshold main).find? s t =
      (m.find? s t).bind fun c => sides.onPair s t fun x y =>
        (Link.mk s t c).rescored (scorer.score x y) threshold main := by
  rw [Links.rescore, find?_select]
  congr 1
  funext c
  unfold Sides.onPair
  cases sides.source.find? s <;> cases sides.target.find? t <;> rfl

theorem find?_rescore (m : Links) (sides : Sides) (scorer : Scorer) (threshold : Float)
    (s t : String) :
    (m.rescore sides scorer threshold none).find? s t =
      (m.find? s t).bind fun _ => sides.onPair s t fun a b =>
        if scorer.score a b < threshold then none else some (scorer.score a b) :=
  m.find?_rescored sides scorer threshold none s t

end Links

end LinkDiscovery
