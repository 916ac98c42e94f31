import LinkDiscovery.Decimal.Text
import Std.Data.ExtTreeMap
/-!
Sets of scored links between two collections of entities. A pair of entities is linked at most once;
when it is added again, the larger confidence stays.
-/

namespace LinkDiscovery

/-- A pair of entities with the confidence that they belong together. -/
structure Link where
  source : String
  target : String
  confidence : Float
  deriving BEq

/-- Links stand by their sources, and those of one source by their targets. -/
def Link.order (a b : Link) : Ordering :=
  (compare a.source b.source).then (compare a.target b.target)

/-- The targets of one source, with their confidences. -/
abbrev Row := Std.ExtTreeMap String Float

/-- Scored links, arranged by source and target. A source may have an empty row. -/
structure Links where
  rows : Std.ExtTreeMap String Row
  /-- The number of links, kept by every operation that adds some. -/
  size : Nat
  /-- The relation that the links stand for. -/
  predicate : String
  deriving BEq

namespace Links

/-- The relation that links stand for unless another one is named: both entities are the same. -/
def sameAs : String := "http://www.w3.org/2002/07/owl#sameAs"

/-- No links under a predicate. -/
def withPredicate (predicate : String) : Links where
  rows := ∅
  size := 0
  predicate := predicate

def empty : Links :=
  withPredicate sameAs

instance : Inhabited Links := ⟨empty⟩

/-- Takes all links away, and names the usual relation again. -/
def clear (m : Links) : Links :=
  { m with rows := ∅, size := 0, predicate := sameAs }

def setPredicate (m : Links) (predicate : String) : Links :=
  { m with predicate }

def isEmpty (m : Links) : Bool :=
  m.size == 0

/-- The confidence of a pair, if it is linked. -/
def find? (m : Links) (source target : String) : Option Float :=
  m.rows[source]?.bind (·[target]?)

/-- The confidence of a pair, zero if it is not linked. -/
def confidence (m : Links) (source target : String) : Float :=
  (m.find? source target).getD 0

def contains (m : Links) (source target : String) : Bool :=
  (m.find? source target).isSome

/-- Adds a link; of two confidences of a pair the larger one stays. -/
def add (m : Links) (source target : String) (confidence : Float) : Links :=
  let row := m.rows.getD source ∅
  match row[target]? with
  | some old =>
    if old < confidence then
      { m with rows := m.rows.insert source (row.insert target confidence) }
    else m
  | none =>
    { m with
      rows := m.rows.insert source (row.insert target confidence)
      size := m.size + 1 }

/-- Adds all targets of a source. A source without a row takes the row as it is, even if empty. -/
def addRow (m : Links) (source : String) (row : Row) : Links :=
  match m.rows[source]? with
  | none => { m with rows := m.rows.insert source row, size := m.size + row.size }
  | some _ => row.foldl (fun m target confidence => m.add source target confidence) m

/-- The links in rows, row by row. -/
def linksOf (rows : Std.ExtTreeMap String Row) : List Link :=
  rows.toList.flatMap fun (source, row) =>
    row.toList.map fun (target, confidence) => { source, target, confidence }

/-- All links. Nothing is promised about their order. -/
def links (m : Links) : List Link :=
  linksOf m.rows

/-- The number of links, counted row by row. -/
def count (m : Links) : Nat :=
  m.rows.foldl (fun count _ row => count + row.size) 0

def addLink (m : Links) (l : Link) : Links :=
  m.add l.source l.target l.confidence

/-- Links added one by one. -/
def addAll (m : Links) (ls : List Link) : Links :=
  ls.foldl addLink m

def ofList (ls : List Link) : Links :=
  empty.addAll ls

/-- The links to which `score` gives a confidence, each with the confidence given. -/
def select (m : Links) (score : Link → Option Float) : Links :=
  m.links.foldl (fun out l =>
    match score l with
    | some c => out.add l.source l.target c
    | none => out) (withPredicate m.predicate)

/-! Writing links down. A walk through the links may meet them in any order; before they are written they
are sorted. -/

/-- The links by source and then by target. -/
def sorted (ls : List Link) : List Link :=
  ls.mergeSort fun a b => (a.order b).isLE

/-- The pairs, one a line, without their confidences. -/
def pairsTextOf (ls : List Link) : String :=
  String.join ((sorted ls).map fun l => s!"{l.source},{l.target}\n")

/-- The links, one a line. -/
def displayOf (ls : List Link) : String :=
  String.join ((sorted ls).map fun l =>
    s!"[{l.source} -> ({l.target}|{Decimal.plain l.confidence})]\n")

def pairsText (m : Links) : String :=
  pairsTextOf m.links

def display (m : Links) : String :=
  displayOf m.links

end Links

end LinkDiscovery
