import LinkDiscovery.Proofs.Execution.Agreement
import LinkDiscovery.Proofs.Execution.Alike
import LinkDiscovery.Proofs.Execution.Outcomes
/-!
Plans are carried out pair by pair. Two runs of a plan on different collections come to the same fault
or to the same warnings and alike links. What is linked between parts of two collections is therefore
what is linked between the whole collections, restricted to the parts.
-/

namespace LinkDiscovery

namespace Registry

/-- Every mapper scores all pairs by a measure. -/
def MapsPairwise (r : Registry) : Prop :=
  ∀ name mapper, r.mapper? name = some mapper → ∃ m, mapper = .pairwise m

theorem Pairwise.mapsPairwise {r : Registry} (h : r.Pairwise) : r.MapsPairwise := by
  intro name mapper hmapper
  rw [h, Option.map_eq_some_iff] at hmapper
  obtain ⟨m, -, rfl⟩ := hmapper
  exact ⟨m, rfl⟩

end Registry

/-- Both sides name their collections by the same variables. -/
structure Sides.SameVariables (a b : Sides) : Prop where
  source : a.sourceVar = b.sourceVar
  target : a.targetVar = b.targetVar

namespace Engine

/-- The same engine with other collections. -/
def withSides (e : Engine) (sides : Sides) : Engine :=
  { e with sides }

variable {e : Engine} {a b : Sides}

theorem readSlot_alike {x y : SlotBuffer} (h : x.Alike a b y) (slot position : ℕ) :
    (readSlot x slot position).Alike a b (readSlot y slot position) := by
  unfold readSlot
  have hslot := h.get? slot
  cases hx : x.get? slot <;> cases hy : y.get? slot <;> rw [hx, hy] at hslot <;> cases hslot
  · exact ⟨.empty, by simp [h.length_eq]⟩
  · rename_i hlinks
    exact ⟨hlinks, rfl⟩

theorem yielded_alike {x y : SlotBuffer} (h : x.Alike a b y) (slot : Option ℕ)
    (position : ℕ) : (yielded slot position x).Alike a b (yielded slot position y) := by
  unfold yielded
  rw [h.isEmpty_eq]
  split
  · exact ⟨.empty, rfl⟩
  · cases slot with
    | none => exact ⟨h.last, rfl⟩
    | some slot => exact readSlot_alike h slot position

theorem join_alike (o : Option SetOperation) {m n : Links} (h : m.Alike a b n) {xs ys : List Links}
    (hs : List.Forall₂ (Links.Alike a b) xs ys) :
    (join o m xs).Alike a b (join o n ys) := by
  cases o with
  | none => exact h
  | some o =>
      simp only [join]
      induction hs generalizing m n with
      | nil => exact h
      | cons hlinks _ ih => exact ih (h.apply hlinks o)

theorem links_alike {xs ys : List Execution} (h : List.Forall₂ (Execution.Alike a b) xs ys) :
    List.Forall₂ (Links.Alike a b) (xs.map (·.links)) (ys.map (·.links)) := by
  rw [List.forall₂_map_left_iff, List.forall₂_map_right_iff]
  exact h.imp fun _ _ hxy => hxy.links

theorem warnings_alike {xs ys : List Execution} (h : List.Forall₂ (Execution.Alike a b) xs ys) :
    xs.flatMap (·.warnings) = ys.flatMap (·.warnings) := by
  induction h with
  | nil => rfl
  | cons hxy _ ih => rw [List.flatMap_cons, List.flatMap_cons, hxy.warnings, ih]

theorem applyFilter_alike (hvars : a.SameVariables b) {m n : Links} (h : m.Alike a b n)
    (i : Instruction) (position : Option ℕ) :
    Agree (Execution.Alike a b) ((e.withSides a).applyFilter i m position)
      ((e.withSides b).applyFilter i n position) := by
  unfold applyFilter
  cases i.threshold with
  | none => cases position <;> exact .error _
  | some threshold =>
      simp only [withSides, LinkFilter.rescoreBy_registry, Links.rescoreBy, hvars.source, hvars.target]
      cases i.expression with
      | none => exact .ok ⟨h.atLeast threshold, rfl⟩
      | some text =>
          simp only []
          cases e.registry.unresolved text with
          | error fault => exact .error _
          | ok names =>
              cases names with
              | cons name names => exact .ok ⟨.empty, rfl⟩
              | nil =>
                  simp only []
                  cases e.filterRegistry.compile text b.sourceVar b.targetVar with
                  | error fault => exact .error _
                  | ok scorer => exact .ok ⟨h.rescore scorer threshold _, rfl⟩

theorem filterJoined_alike (hvars : a.SameVariables b) {m n : Links} (h : m.Alike a b n)
    (f : Option Instruction) :
    Agree (Execution.Alike a b) ((e.withSides a).filterJoined f m)
      ((e.withSides b).filterJoined f n) := by
  cases f with
  | none => exact .ok ⟨h, rfl⟩
  | some f => exact applyFilter_alike hvars h f none

section

variable (hr : e.registry.MapsPairwise) (ha : a.Keyed) (hb : b.Keyed) (hvars : a.SameVariables b)
include hr ha hb hvars

theorem run_alike (i : Instruction) (position : ℕ) :
    Agree (Execution.Alike a b) ((e.withSides a).run i position)
      ((e.withSides b).run i position) := by
  unfold run
  refine Agree.bind (Agree.of_self (fun _ => rfl) _) ?_
  rintro text _ rfl
  refine Agree.bind (Agree.of_self (fun _ => rfl) _) ?_
  rintro threshold _ rfl
  simp only [withSides, Mapper.run, hvars.source, hvars.target]
  cases Comparison.read text b.sourceVar b.targetVar with
  | error fault => cases fault <;> exact .error _
  | ok c =>
      simp only []
      cases hmapper : e.registry.mapper? c.measure with
      | none => exact .ok ⟨.empty, rfl⟩
      | some mapper =>
          obtain ⟨m, rfl⟩ := hr _ _ hmapper
          exact .ok ⟨.pairsAtLeast ha hb _ _, rfl⟩

/-- A step on alike buffers has alike results. -/
theorem step_alike {x y : SlotBuffer} (h : x.Alike a b y) (i : Instruction)
    (position : ℕ) :
    Agree (Execution.Alike a b) ((e.withSides a).step i position x)
      ((e.withSides b).step i position y) := by
  unfold step
  cases i.command with
  | run => exact run_alike hr ha hb hvars i position
  | filter =>
      refine Agree.bind (Agree.of_self (fun _ => rfl) _) ?_
      rintro slot _ rfl
      have hinput := readSlot_alike h slot position
      refine Agree.bind (applyFilter_alike hvars hinput.links i _) ?_
      intro output output' houtput
      exact .ok ⟨houtput.links, by rw [hinput.warnings, houtput.warnings]⟩
  | set o =>
      refine Agree.bind (Agree.of_self (fun _ => rfl) _) ?_
      rintro source _ rfl
      refine Agree.bind (Agree.of_self (fun _ => rfl) _) ?_
      rintro target _ rfl
      have hleft := readSlot_alike h source position
      have hright := readSlot_alike h target position
      exact .ok ⟨hleft.links.apply hright.links o, by rw [hleft.warnings, hright.warnings]⟩
  | yield => exact .ok ⟨.empty, rfl⟩

/-- A run of instructions on alike buffers has alike results. -/
theorem executeFrom_alike (is : List Instruction) (position : ℕ) {x y : SlotBuffer}
    (h : x.Alike a b y) (warnings : List Warning) :
    Agree (fun r r' => r.1.Alike a b r'.1 ∧ r.2.Alike a b r'.2)
      ((e.withSides a).executeFrom position x warnings is)
      ((e.withSides b).executeFrom position y warnings is) := by
  induction is generalizing position x y warnings with
  | nil => exact .ok ⟨⟨h.last, rfl⟩, h⟩
  | cons i is ih =>
      simp only [executeFrom]
      split
      · have hlast := yielded_alike h i.source position
        exact .ok ⟨⟨hlast.links, by rw [hlast.warnings]⟩, h⟩
      · have hstep := step_alike (e := e) hr ha hb hvars h i position
        generalize (e.withSides a).step i position x = result at hstep ⊢
        generalize (e.withSides b).step i position y = result' at hstep ⊢
        cases hstep with
        | error fault => exact .error fault
        | ok hresult =>
            simp only [hresult.warnings]
            exact ih _ (h.place hresult.links i.result) _

theorem execute_alike (p : Plan) :
    Agree (Execution.Alike a b) ((e.withSides a).execute p) ((e.withSides b).execute p) :=
  (executeFrom_alike hr ha hb hvars p.instructions 0 .nil []).map fun _ _ h => h.1

end

mutual

/-- A tree of plans has alike results on both sides. -/
theorem executeNested_alike (hr : e.registry.MapsPairwise) (ha : a.Keyed) (hb : b.Keyed)
    (hvars : a.SameVariables b) : ∀ p : NestedPlan,
    Agree (Execution.Alike a b) ((e.withSides a).executeNested p)
      ((e.withSides b).executeNested p)
  | .node is [] _ _ => by
      simp only [executeNested]
      exact execute_alike hr ha hb hvars _
  | .node _ (p :: ps) o f => by
      simp only [executeNested]
      split
      · exact .error _
      refine Agree.bind (executeNested_alike hr ha hb hvars p) ?_
      intro first first' hfirst
      refine Agree.bind (executeAll_alike hr ha hb hvars ps) ?_
      intro others others' hothers
      have hjoined := join_alike o hfirst.links (links_alike hothers)
      refine Agree.bind (filterJoined_alike hvars hjoined f) ?_
      intro result result' hresult
      refine .ok ⟨hresult.links, ?_⟩
      rw [hfirst.warnings, warnings_alike hothers, hresult.warnings]

theorem executeAll_alike (hr : e.registry.MapsPairwise) (ha : a.Keyed) (hb : b.Keyed)
    (hvars : a.SameVariables b) : ∀ ps : List NestedPlan,
    Agree (List.Forall₂ (Execution.Alike a b)) ((e.withSides a).executeAll ps)
      ((e.withSides b).executeAll ps)
  | [] => .ok .nil
  | p :: ps => by
      simp only [executeAll]
      refine Agree.bind (executeNested_alike hr ha hb hvars p) ?_
      intro first first' hfirst
      refine Agree.bind (executeAll_alike hr ha hb hvars ps) ?_
      intro others others' hothers
      exact .ok (.cons hfirst hothers)

end

end Engine

namespace Collection

variable {c d : Collection}

/-- Both collections lack an address, or both hold it with the same properties. -/
def SameAt (c d : Collection) (uri : String) : Prop :=
  (c.find? uri).map (·.properties) = (d.find? uri).map (·.properties)

/-- The first collection holds entities of the second only. -/
def IsPart (c d : Collection) : Prop :=
  ∀ uri x, c.find? uri = some x → d.find? uri = some x

theorem SameAt.find?_eq {uri : String} (h : c.SameAt d uri) (hc : c.Keyed) (hd : d.Keyed) :
    c.find? uri = d.find? uri := by
  unfold SameAt at h
  cases hx : c.find? uri with
  | none =>
      rw [hx, Option.map_none, eq_comm, Option.map_eq_none_iff] at h
      exact h.symm
  | some x =>
      rw [hx, Option.map_some, eq_comm, Option.map_eq_some_iff] at h
      obtain ⟨y, hy, hproperties⟩ := h
      have huri : x.uri = y.uri := (hc uri x hx).trans (hd uri y hy).symm
      rw [hy]
      cases x
      cases y
      simp_all

end Collection

/-- What a run on two collections has in common with a run on two others: the warnings, and the
confidence of every pair on which the collections agree. On parts of the other two, the run links
what the other run links between the parts. -/
structure Execution.Local (a b : Sides) (x y : Execution) : Prop where
  warnings : x.warnings = y.warnings
  confidence : ∀ s t, a.source.SameAt b.source s → a.target.SameAt b.target t →
    x.links.find? s t = y.links.find? s t
  restriction : a.source.IsPart b.source → a.target.IsPart b.target → ∀ s t,
    x.links.find? s t =
      if (a.source.find? s).isSome ∧ (a.target.find? t).isSome then y.links.find? s t else none

theorem Execution.Alike.toLocal {a b : Sides} {x y : Execution} (h : x.Alike a b y) (ha : a.Keyed)
    (hb : b.Keyed) : x.Local a b y := by
  obtain ⟨f, hx, hy⟩ := h.links
  refine ⟨h.warnings, fun s t hs ht => ?_, fun hsource htarget s t => ?_⟩
  · rw [hx, hy, Sides.onPair, Sides.onPair, hs.find?_eq ha.1 hb.1, ht.find?_eq ha.2 hb.2]
  · rw [hx, hy, Sides.onPair, Sides.onPair]
    cases hs : a.source.find? s with
    | none => simp
    | some u =>
        cases ht : a.target.find? t with
        | none => simp
        | some v => simp [hsource s u hs, htarget t v ht]

namespace Engine

/-- Plans are carried out pair by pair. On two pairs of collections, a plan of either kind comes to
the same fault, or to results that agree on all pairs on which the collections agree. -/
theorem execute_local {e : Engine} (hr : e.registry.MapsPairwise) {a b : Sides} (ha : a.Keyed)
    (hb : b.Keyed) (hvars : a.SameVariables b) :
    (∀ p : Plan,
      Agree (Execution.Local a b) ((e.withSides a).execute p) ((e.withSides b).execute p)) ∧
      ∀ p : NestedPlan, Agree (Execution.Local a b) ((e.withSides a).executeNested p)
        ((e.withSides b).executeNested p) :=
  ⟨fun p => (execute_alike hr ha hb hvars p).imp fun _ _ h => h.toLocal ha hb,
    fun p => (executeNested_alike hr ha hb hvars p).imp fun _ _ h => h.toLocal ha hb⟩

theorem execute_local_sample :
    let e := standard sampleSides
    let b := { sampleSides with source := sampleSides.source.addEntity (Entity.ofUri "r") }
    let run := Instruction.run "exactmatch(x.a,y.a)" 0.5
    Agree (Execution.Local sampleSides b)
        ((e.withSides sampleSides).execute { instructions := [run, .set .union 0 1, .yield none] })
        ((e.withSides b).execute { instructions := [run, .set .union 0 1, .yield none] }) ∧
      Agree (Execution.Local sampleSides b)
        ((e.withSides sampleSides).executeNested (.node [] [.atomic [run]] none none))
        ((e.withSides b).executeNested (.node [] [.atomic [run]] none none)) := by
  intro e b run
  have hb : b.Keyed := ⟨sampleSides_keyed.1.addEntity _, sampleSides_keyed.2⟩
  have h := execute_local (e := e) Registry.standard_pairwise.mapsPairwise sampleSides_keyed hb
    ⟨rfl, rfl⟩
  exact ⟨h.1 _, h.2 _⟩

end Engine

end LinkDiscovery
