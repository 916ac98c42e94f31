import LinkDiscovery.Proofs.Execution.Agreement
import LinkDiscovery.Proofs.Execution.Outcomes
/-!
The tree of plans of a specification, and the flat plan that lists its instructions in post-order.
Carrying out either one comes to the same, apart from the positions that warnings and faults name:
each plan below leaves its links in the last slot that its instructions fill.
-/

namespace LinkDiscovery

/-- An instruction that reads a slot. -/
def Instruction.reading (i : Instruction) (slot : ℕ) : Instruction :=
  { i with source := some slot }

namespace NestedPlan

/-- The instructions of a tree that joins plans two by two, in post-order. The result of the first
one stands in the slot `start`, and each join reads the last slots of both plans below. -/
def postOrderFrom : NestedPlan → ℕ → List Instruction
  | node _ [p, q] (some o) (some f), start =>
    let left := p.postOrderFrom start
    let right := q.postOrderFrom (start + left.length)
    let joined := start + left.length + right.length
    left ++ (right ++
      [.set o (start + left.length - 1) (joined - 1), f.reading joined])
  | node is _ _ _, _ => is

/-- The flat plan of a tree that joins plans two by two. -/
def postOrder (p : NestedPlan) : Plan where
  instructions := p.postOrderFrom 0

example (i j k f g : Instruction) :
    let inner := node [] [.atomic [i], .atomic [j]] (some .union) (some f)
    (node [] [inner, .atomic [k]] (some .difference) (some g)).postOrder.instructions =
      [i, j, .set .union 0 1, f.reading 2, k, .set .difference 3 4, g.reading 5] :=
  rfl

end NestedPlan

/-- A filter with a threshold, whose result comes after all others. -/
structure Instruction.IsFilter (f : Instruction) : Prop where
  command : f.command = .filter
  threshold : f.threshold.isSome
  result : f.result = none

theorem Instruction.IsFilter.not_yield {f : Instruction} (hf : f.IsFilter) (slot : ℕ) :
    (f.reading slot).command ≠ .yield := by
  simp [Instruction.reading, hf.command]

/-- Trees of runs whose results are joined two by two and filtered. -/
inductive NestedPlan.JoinsRuns : NestedPlan → Prop where
  | run (text : String) (threshold : Float) : JoinsRuns (.atomic [.run text threshold])
  | join {p q : NestedPlan} (o : SetOperation) {f : Instruction} (hp : p.JoinsRuns)
    (hq : q.JoinsRuns) (hf : f.IsFilter) : JoinsRuns (.node [] [p, q] (some o) (some f))

/-- The plans of outlines join runs. -/
theorem Specification.plan_joinsRuns (o : Outline) (θ : Float) : (ofOutline o θ).plan.JoinsRuns := by
  induction o generalizing θ with
  | leaf text call => exact .run text _
  | node c left right ihl ihr =>
      rw [ofOutline, plan_ofCompound]
      refine .join _ (ihl _) (ihr _) ?_
      split
      · exact ⟨rfl, rfl, rfl⟩
      · exact ⟨rfl, rfl, rfl⟩

theorem NestedPlan.JoinsRuns.not_yield {p : NestedPlan} (hp : p.JoinsRuns) (start : ℕ) :
    ∀ i ∈ p.postOrderFrom start, i.command ≠ .yield := by
  induction hp generalizing start with
  | run text threshold =>
      intro i hi
      obtain rfl := List.mem_singleton.mp hi
      exact nofun
  | join o _ _ hf ihp ihq =>
      intro i hi
      simp only [postOrderFrom, List.mem_append, List.mem_cons, List.not_mem_nil, or_false] at hi
      rcases hi with hi | hi | rfl | rfl
      · exact ihp _ i hi
      · exact ihq _ i hi
      · simp [Instruction.set]
      · exact hf.not_yield _

/-- A warning without the position that it names. -/
def Warning.placeless : Warning → Warning
  | unresolvedMeasure _ measure => .unresolvedMeasure none measure
  | missingSlot _ slot length => .missingSlot 0 slot length

/-- A fault without the position that it names. -/
def Execution.Fault.placeless : Execution.Fault → Execution.Fault
  | missingOperand command _ operand => .missingOperand command 0 operand
  | badCall command _ fault => .badCall command 0 fault
  | fault => fault

/-- No warning is about a slot without a result. -/
def NoMissingSlots (ws : List Warning) : Prop :=
  ∀ position slot length, .missingSlot position slot length ∉ ws

theorem NoMissingSlots.append {ws ws' : List Warning} (h : NoMissingSlots ws)
    (h' : NoMissingSlots ws') : NoMissingSlots (ws ++ ws') := by
  intro position slot length hmem
  rcases List.mem_append.mp hmem with hmem | hmem
  · exact h position slot length hmem
  · exact h' position slot length hmem

/-- The same links, and the same warnings in the same order apart from the positions that they name,
none of them about a slot without a result. -/
structure Execution.SameButPlaces (x y : Execution) : Prop where
  links : x.links = y.links
  warnings : x.warnings.map Warning.placeless = y.warnings.map Warning.placeless
  populated : NoMissingSlots x.warnings ∧ NoMissingSlots y.warnings

theorem Execution.sameButPlaces_clean (links : Links) :
    SameButPlaces { links } { links } :=
  ⟨rfl, rfl, nofun, nofun⟩

theorem Execution.sameButPlaces_unresolved (names : List String) (position position' : Option ℕ) :
    SameButPlaces { warnings := names.map (.unresolvedMeasure position) }
      { warnings := names.map (.unresolvedMeasure position') } :=
  ⟨rfl, by simp [Warning.placeless, Function.comp_def], by simp [NoMissingSlots]⟩

/-- One execution after another, with the links of the later one. -/
theorem Execution.SameButPlaces.andThen {x x' y y' : Execution} (hx : x.SameButPlaces x')
    (hy : y.SameButPlaces y') :
    SameButPlaces { links := y.links, warnings := x.warnings ++ y.warnings }
      { links := y'.links, warnings := x'.warnings ++ y'.warnings } where
  links := hy.links
  warnings := by rw [List.map_append, List.map_append, hx.warnings, hy.warnings]
  populated := ⟨hx.populated.1.append hy.populated.1, hx.populated.2.append hy.populated.2⟩

namespace Engine

variable {e : Engine}

/-- The position of a run is named in warnings and faults only. -/
theorem run_placeless (i : Instruction) (m n : ℕ) :
    Agree Execution.SameButPlaces ((e.run i m).mapError Execution.Fault.placeless)
      ((e.run i n).mapError Execution.Fault.placeless) := by
  unfold run
  cases i.expression with
  | none => exact .error _
  | some text =>
      cases i.threshold with
      | none => exact .error _
      | some threshold =>
          simp only [require, bind, Except.bind]
          cases Comparison.read text e.sides.sourceVar e.sides.targetVar with
          | error fault => cases fault <;> exact .error _
          | ok c =>
              simp only []
              cases e.registry.mapper? c.measure with
              | none => exact .ok (Execution.sameButPlaces_unresolved [c.measure] _ _)
              | some mapper =>
                  simp only []
                  cases mapper.run e.sides text threshold with
                  | error failure => exact .error _
                  | ok links => exact .ok (Execution.sameButPlaces_clean links)

/-- The position of a filter is named in warnings and faults only. -/
theorem applyFilter_placeless {f : Instruction} (hf : f.IsFilter) (links : Links)
    (m n : Option ℕ) :
    Agree Execution.SameButPlaces ((e.applyFilter f links m).mapError Execution.Fault.placeless)
      ((e.applyFilter f links n).mapError Execution.Fault.placeless) := by
  obtain ⟨threshold, hthreshold⟩ := Option.isSome_iff_exists.mp hf.threshold
  simp only [applyFilter, hthreshold]
  cases f.expression with
  | none => exact .ok (Execution.sameButPlaces_clean _)
  | some text =>
      simp only []
      cases e.registry.unresolved text with
      | error fault => exact .error _
      | ok names =>
          cases names with
          | cons name names => exact .ok (Execution.sameButPlaces_unresolved _ _ _)
          | nil =>
              simp only []
              cases LinkFilter.rescoreBy e.filterRegistry links e.sides text threshold
                f.mainThreshold with
              | error failure => exact .error _
              | ok links => exact .ok (Execution.sameButPlaces_clean links)

/-! Flat plans whose results come one after the other. -/

/-- An instruction that names no slot for its result places it after all others. -/
theorem executeFrom_cons {i : Instruction} (hi : i.command ≠ .yield) (hresult : i.result = none)
    (position : ℕ) (b : SlotBuffer) (ws : List Warning) (rest : List Instruction) :
    e.executeFrom position b ws (i :: rest) = (do
      let r ← e.step i position b
      e.executeFrom (position + 1) ⟨b.slots ++ [r.links]⟩ (ws ++ r.warnings) rest) := by
  rw [executeFrom, if_neg hi, hresult]
  cases e.step i position b with
  | error fault => rfl
  | ok r => simp [bind, Except.bind, SlotBuffer.place, SlotBuffer.slotFor]

/-- Instructions after others that do not end the plan. -/
theorem executeFrom_append {is : List Instruction} (his : ∀ i ∈ is, i.command ≠ .yield)
    (position : ℕ) (b : SlotBuffer) (ws : List Warning) (rest : List Instruction) :
    e.executeFrom position b ws (is ++ rest) = (do
      let r ← e.executeFrom position b ws is
      e.executeFrom (position + is.length) r.2 r.1.warnings rest) := by
  induction is generalizing position b ws with
  | nil => rfl
  | cons i is ih =>
      obtain ⟨hi, his⟩ := List.forall_mem_cons.mp his
      simp only [List.cons_append, executeFrom, if_neg hi]
      cases e.step i position b with
      | error fault => rfl
      | ok r =>
          simp only [ih his, List.length_cons]
          rw [Nat.add_right_comm, Nat.add_assoc]

/-- Reading a slot that holds a result. -/
theorem readSlot_placed {b : SlotBuffer} {before after : List Links} {m : Links}
    (hb : b.slots = before ++ m :: after) {slot : ℕ} (hslot : slot = before.length)
    (position : ℕ) : readSlot b slot position = { links := m } := by
  simp [readSlot, SlotBuffer.get?, hb, hslot]

theorem step_set {b : SlotBuffer} {m n : Links} {left right position : ℕ}
    (hleft : readSlot b left position = { links := m })
    (hright : readSlot b right position = { links := n }) (o : SetOperation) :
    e.step (.set o left right) position b = .ok { links := o.apply m n } := by
  simp [step, Instruction.set, require, hleft, hright, bind, Except.bind, pure, Except.pure]

theorem step_reading {b : SlotBuffer} {f : Instruction} (hf : f.IsFilter) {m : Links}
    {slot position : ℕ} (h : readSlot b slot position = { links := m }) :
    e.step (f.reading slot) position b = e.applyFilter f m (some position) := by
  have hsame : e.applyFilter (f.reading slot) m (some position) =
      e.applyFilter f m (some position) := rfl
  simp only [step, Instruction.reading, hf.command, require, h, bind, Except.bind] at hsame ⊢
  rw [hsame]
  cases e.applyFilter f m (some position) with
  | error fault => rfl
  | ok r => rfl

/-- Joining the results of two slots and filtering what comes of it. -/
theorem executeFrom_join {b : SlotBuffer} {m n : Links} {left right position : ℕ}
    (hleft : readSlot b left position = { links := m })
    (hright : readSlot b right position = { links := n }) (o : SetOperation)
    {f : Instruction} (hf : f.IsFilter) (ws : List Warning) :
    e.executeFrom position b ws [.set o left right, f.reading b.length] = (do
      let r ← e.applyFilter f (o.apply m n) (some (position + 1))
      return ({ links := r.links, warnings := ws ++ r.warnings },
        ⟨b.slots ++ [o.apply m n] ++ [r.links]⟩)) := by
  have hjoined : readSlot ⟨b.slots ++ [o.apply m n]⟩ b.length (position + 1) =
      { links := o.apply m n } := readSlot_placed rfl rfl _
  have hset : (Instruction.set o left right).command ≠ .yield := by simp [Instruction.set]
  rw [executeFrom_cons hset rfl, step_set hleft hright]
  change e.executeFrom _ _ _ _ = _
  rw [executeFrom_cons (hf.not_yield _) hf.result, step_reading hf hjoined]
  simp [executeFrom, SlotBuffer.last?, pure, Except.pure]

/-- Where the instructions of a plan are carried out after others, they fill some slots, the last one
with the links of the plan, and give its warnings after those that there were. -/
def Follows (b : SlotBuffer) (ws : List Warning) (count : ℕ) (x : Execution)
    (r : Execution × SlotBuffer) : Prop :=
  ∃ between y, x.SameButPlaces y ∧ r.1 = { links := y.links, warnings := ws ++ y.warnings } ∧
    r.2.slots = b.slots ++ between ++ [y.links] ∧ r.2.length = b.length + count

/-- The instructions of a tree, listed from the first free slot, come to what the tree comes to. -/
theorem executeFrom_postOrderFrom {p : NestedPlan} (hp : p.JoinsRuns) (b : SlotBuffer)
    (ws : List Warning) :
    Agree (Follows b ws (p.postOrderFrom b.length).length)
      ((e.executeNested p).mapError Execution.Fault.placeless)
      ((e.executeFrom b.length b ws (p.postOrderFrom b.length)).mapError
        Execution.Fault.placeless) := by
  induction hp generalizing b ws with
  | run text threshold =>
      have hrun : (Instruction.run text threshold).command ≠ .yield := by simp [Instruction.run]
      change Agree _ _ ((e.executeFrom b.length b ws [.run text threshold]).mapError _)
      rw [executeNested_run, executeFrom_cons hrun rfl,
        ← bind_pure (e.run (.run text threshold) 0)]
      refine (run_placeless _ 0 b.length).bind_mapError fun x y hxy => ?_
      have hlength : SlotBuffer.length ⟨b.slots ++ [y.links]⟩ = b.length + 1 := by
        simp [SlotBuffer.length]
      exact .ok ⟨[], y, hxy, by simp [SlotBuffer.last?], by simp, hlength⟩
  | @join p q o f hp hq hf ihp ihq =>
      rw [NestedPlan.postOrderFrom, executeNested_join, executeFrom_append (hp.not_yield _)]
      refine (ihp b ws).bind_mapError ?_
      rintro left ⟨_, b₁⟩ ⟨between, y, hleft, rfl, hb₁, hlength₁⟩
      dsimp only at hb₁ hlength₁
      rw [← hlength₁, executeFrom_append (hq.not_yield _)]
      refine (ihq b₁ _).bind_mapError ?_
      rintro right ⟨_, b₂⟩ ⟨between', y', hright, rfl, hb₂, hlength₂⟩
      dsimp only at hb₂ hlength₂
      rw [← hlength₂]
      -- the last slots that both plans fill hold what the plans come to
      have hslotLeft : b₂.slots = (b.slots ++ between) ++ left.links ::
          (between' ++ [right.links]) := by
        simp [hb₂, hb₁, hleft.links, hright.links]
      have hslotRight : b₂.slots = (b₁.slots ++ between') ++ [right.links] := by
        rw [hb₂, hright.links]
      have hreadLeft : readSlot b₂ (b₁.length - 1) b₂.length = { links := left.links } :=
        readSlot_placed hslotLeft (by simp [SlotBuffer.length, hb₁]) _
      have hreadRight : readSlot b₂ (b₂.length - 1) b₂.length = { links := right.links } :=
        readSlot_placed hslotRight (by simp [SlotBuffer.length, hb₂]) _
      rw [executeFrom_join hreadLeft hreadRight o hf]
      refine (applyFilter_placeless hf _ _ _).bind_mapError fun z z' hz => ?_
      have hlength : SlotBuffer.length
          ⟨b₂.slots ++ [o.apply left.links right.links] ++ [z'.links]⟩ = b₂.length + 2 := by
        simp [SlotBuffer.length]
      refine .ok ⟨between ++ y.links :: between' ++ [y'.links, o.apply left.links right.links], _,
        (hleft.andThen hright).andThen hz, by simp, by simp [hb₂, hb₁], ?_⟩
      rw [hlength, hlength₂, hlength₁]
      simp [Nat.add_assoc]

theorem execute_postOrder_of_joinsRuns {p : NestedPlan} (hp : p.JoinsRuns) :
    Agree Execution.SameButPlaces ((e.executeNested p).mapError Execution.Fault.placeless)
      ((e.execute p.postOrder).mapError Execution.Fault.placeless) := by
  have hexecute : e.execute p.postOrder = (do
      let r ← e.executeFrom 0 .empty [] (p.postOrderFrom 0)
      return r.1) := by
    unfold execute executeTraced NestedPlan.postOrder
    cases e.executeFrom 0 .empty [] (p.postOrderFrom 0) <;> rfl
  rw [hexecute, ← bind_pure (e.executeNested p)]
  refine (executeFrom_postOrderFrom hp .empty []).bind_mapError ?_
  rintro x ⟨_, b⟩ ⟨_, y, hxy, rfl, -⟩
  exact .ok hxy

/-- The canonical plan of a text and its instructions in post-order, as a flat plan, come to the same
fault, or to the same links and the same warnings, apart from positions. No slot is read before it
has a result. -/
theorem execute_postOrder (e : Engine) {text : String} {θ : Float} {s : Specification}
    (hs : Specification.parse text θ = .ok s) :
    Agree Execution.SameButPlaces ((e.executeNested s.plan).mapError Execution.Fault.placeless)
      ((e.execute s.plan.postOrder).mapError Execution.Fault.placeless) := by
  obtain ⟨o, -, -, rfl⟩ := Specification.parse_eq_ok.mp hs
  exact execute_postOrder_of_joinsRuns (Specification.plan_joinsRuns o θ)

/-- The filter of a sum scores links anew. -/
theorem execute_postOrder_sample :
    let w := Grammar.Spelling.sample .add ['A', 'd', 'd']
    let e := standard sampleSides
    Specification.parse (String.ofList w.chars) 0.5 = .ok (w.tree 0.5) ∧
      Agree Execution.SameButPlaces
        ((e.executeNested (w.tree 0.5).plan).mapError Execution.Fault.placeless)
        ((e.execute (w.tree 0.5).plan.postOrder).mapError Execution.Fault.placeless) := by
  intro w e
  have hw : w.WrittenOut := Grammar.Spelling.sample_writtenOut rfl
  obtain ⟨-, hs⟩ := hw.parse_chars 0.5
  rw [← Grammar.Spelling.ofOutline_eq_tree]
  exact ⟨hs, execute_postOrder e hs⟩

end Engine

end LinkDiscovery
