import LinkDiscovery.Proofs.Execution.Stages
/-!
Warnings about slots without a result. Which of them a flat plan gives can be read off its instructions:
the length of the buffer depends on the slots that they ask for, and on no links.
-/

namespace LinkDiscovery

/-- Says whether a warning is about a slot without a result. -/
def Warning.isMissingSlot : Warning → Bool
  | unresolvedMeasure _ _ => false
  | missingSlot _ _ _ => true

namespace Instruction

/-- The slots that an instruction reads where the buffer has some length. The ending of a plan reads
nothing from an empty buffer. -/
def slotsRead (i : Instruction) (length : ℕ) : List ℕ :=
  match i.command with
  | .run => []
  | .filter => i.source.toList
  | .set _ => i.source.toList ++ i.target.toList
  | .yield => if length = 0 then [] else i.source.toList

/-- A warning for each slot that is read past the end of a buffer of some length. -/
def missingSlots (i : Instruction) (position length : ℕ) : List Warning :=
  ((i.slotsRead length).filter (length ≤ ·)).map (.missingSlot position · length)

/-- The length of a buffer that had some length before the instruction. -/
def lengthAfter (i : Instruction) (length : ℕ) : ℕ :=
  max length (i.result.getD 0) + 1

end Instruction

namespace Plan

/-- The length of a buffer after instructions. -/
def lengthFrom (length : ℕ) (is : List Instruction) : ℕ :=
  is.foldl (fun length i => i.lengthAfter length) length

/-- The warnings about slots that instructions give, the first of which stands at a position and finds a
buffer of some length. -/
def missingSlotsFrom (position length : ℕ) : List Instruction → List Warning
  | [] => []
  | i :: is => i.missingSlots position length ++
      missingSlotsFrom (position + 1) (i.lengthAfter length) is

/-- The length of the last buffer of a plan. -/
def bufferLength (p : Plan) : ℕ :=
  lengthFrom 0 p.executed

/-- The warnings about slots that a plan gives. -/
def missingSlots (p : Plan) : List Warning :=
  missingSlotsFrom 0 0 (p.executed ++ p.ending?.toList)

theorem missingSlotsFrom_append (position length : ℕ) (is js : List Instruction) :
    missingSlotsFrom position length (is ++ js) =
      missingSlotsFrom position length is ++
        missingSlotsFrom (position + is.length) (lengthFrom length is) js := by
  induction is generalizing position length with
  | nil => rfl
  | cons i is ih =>
      rw [List.cons_append, missingSlotsFrom, ih, missingSlotsFrom, List.append_assoc,
        List.length_cons, Nat.add_right_comm, Nat.add_assoc]
      rfl

end Plan

namespace Engine

variable {φ : Type} {e : Engine φ} {i : Instruction} {position : ℕ} {b b' : SlotBuffer}
  {ss : List Stage}

/-- A run gives a warning if and only if its measure has no mapper. -/
theorem warnings_of_run {r : Execution} (h : e.run i position = .ok r) :
    ∃ text c, i.expression = some text ∧
      Comparison.read text e.sides.sourceVar e.sides.targetVar = .ok c ∧
      r.warnings = if (e.registry.mapper? c.measure).isNone
        then [.unresolvedMeasure (some position) c.measure] else [] := by
  simp only [run, bind_eq_ok, require_eq_ok] at h
  obtain ⟨text, htext, threshold, -, h⟩ := h
  cases hread : Comparison.read text e.sides.sourceVar e.sides.targetVar with
  | error fault => cases fault <;> simp [hread] at h
  | ok c =>
      refine ⟨text, c, htext, hread, ?_⟩
      simp only [hread] at h
      cases hmapper : e.registry.mapper? c.measure with
      | none =>
          simp only [hmapper] at h
          obtain rfl := Except.ok.inj h
          rfl
      | some mapper =>
          cases hlinks : mapper.run e.sides text threshold with
          | error failure => simp [hmapper, hlinks] at h
          | ok links =>
              simp only [hmapper, hlinks] at h
              obtain rfl := Except.ok.inj h
              rfl

variable [LinkFilter φ]

/-- A filter gives a warning for each measure of its expression that is not known. -/
theorem warnings_of_applyFilter {links : Links} {place : Option ℕ} {r : Execution}
    (h : e.applyFilter i links place = .ok r) :
    ∃ names, i.expression.elim (.ok []) e.registry.unresolved = .ok names ∧
      r.warnings = names.map (.unresolvedMeasure place) := by
  cases hthreshold : i.threshold with
  | none => cases place <;> simp [applyFilter, hthreshold] at h
  | some threshold =>
      cases htext : i.expression with
      | none =>
          simp only [applyFilter, hthreshold, htext] at h
          obtain rfl := Except.ok.inj h
          exact ⟨[], rfl, rfl⟩
      | some text =>
          simp only [applyFilter, hthreshold, htext] at h
          cases hnames : e.registry.unresolved text with
          | error fault => simp [hnames] at h
          | ok names =>
              refine ⟨names, hnames, ?_⟩
              simp only [hnames] at h
              cases names with
              | cons name names =>
                  obtain rfl := Except.ok.inj h
                  rfl
              | nil =>
                  cases hlinks : LinkFilter.rescoreBy e.filterRegistry links e.sides text threshold
                      i.mainThreshold with
                  | error failure => simp [hlinks] at h
                  | ok rescored =>
                      simp only [hlinks] at h
                      obtain rfl := Except.ok.inj h
                      rfl

theorem warnings_of_readSlot (b : SlotBuffer) (slot position : ℕ) :
    (readSlot b slot position).warnings =
      if b.length ≤ slot then [.missingSlot position slot b.length] else [] := by
  rw [readSlot]
  cases hslot : b.get? slot with
  | none => rw [if_pos (SlotBuffer.get?_eq_none_iff.mp hslot)]
  | some links =>
      rw [if_neg fun hle => by simp [SlotBuffer.get?_eq_none_iff.mpr hle] at hslot]

theorem filter_readSlot (b : SlotBuffer) (slot position : ℕ) :
    (readSlot b slot position).warnings.filter Warning.isMissingSlot =
      ([slot].filter (b.length ≤ ·)).map (.missingSlot position · b.length) := by
  rw [warnings_of_readSlot]
  by_cases hle : b.length ≤ slot <;> simp [hle, Warning.isMissingSlot]

@[simp]
theorem filter_unresolved (names : List String) (place : Option ℕ) :
    (names.map (.unresolvedMeasure place)).filter Warning.isMissingSlot = [] := by
  simp [Warning.isMissingSlot]

/-- An instruction with a result gives the warnings about slots that its slots give. -/
theorem missingSlots_of_step {r : Execution} (hi : i.command ≠ .yield)
    (h : e.step i position b = .ok r) :
    r.warnings.filter Warning.isMissingSlot = i.missingSlots position b.length := by
  rw [Instruction.missingSlots, Instruction.slotsRead]
  obtain ⟨hcommand, hrun⟩ | ⟨hcommand, slot, output, hslot, houtput, rfl⟩ |
    ⟨o, hcommand, source, target, hsource, htarget, rfl⟩ | ⟨hcommand, -⟩ := step_cases h
  · obtain ⟨text, c, -, -, hwarnings⟩ := warnings_of_run hrun
    rw [hcommand, hwarnings]
    split <;> rfl
  · obtain ⟨names, -, hwarnings⟩ := warnings_of_applyFilter houtput
    simp only [hcommand, hslot, hwarnings, List.filter_append, filter_readSlot, filter_unresolved,
      Option.toList_some, List.append_nil]
  · simp only [hcommand, hsource, htarget, List.filter_append, filter_readSlot, List.map_append,
      Option.toList_some]
  · exact absurd hcommand hi

/-- The ending of a plan gives the warnings about slots that its slot gives. -/
theorem missingSlots_of_finish (ending : Option Instruction) (hending : ∀ i ∈ ending, i.command = .yield)
    (position : ℕ) (b : SlotBuffer) :
    (finish ending position b).warnings.filter Warning.isMissingSlot =
      Plan.missingSlotsFrom position b.length ending.toList := by
  cases ending with
  | none => rfl
  | some i =>
      have hi := hending i rfl
      simp only [finish, yielded, Option.toList_some, Plan.missingSlotsFrom, List.append_nil,
        Instruction.missingSlots, Instruction.slotsRead, hi]
      obtain ⟨slots⟩ := b
      cases slots with
      | nil => rfl
      | cons links slots =>
          cases i.source with
          | none => rfl
          | some slot => exact filter_readSlot _ slot position

/-- Stages lengthen the buffer and warn about slots as their instructions tell. -/
theorem Passes.missingSlots (h : e.Passes position b ss b') :
    (ss.flatMap (·.outcome.warnings)).filter Warning.isMissingSlot =
        Plan.missingSlotsFrom position b.length (ss.map (·.instruction)) ∧
      b'.length = Plan.lengthFrom b.length (ss.map (·.instruction)) := by
  induction h with
  | nil => exact ⟨rfl, rfl⟩
  | @cons position s ss b' hresult hstep hrest ih =>
      have hlength : s.after.length = s.instruction.lengthAfter s.before.length :=
        SlotBuffer.length_place _ _ _
      rw [hlength] at ih
      refine ⟨?_, ih.2⟩
      rw [List.flatMap_cons, List.filter_append, missingSlots_of_step hresult hstep, ih.1]
      rfl

theorem missingSlots_of_executeTraced {p : Plan} {x : Execution}
    (h : e.executeTraced p = .ok (x, b)) :
    x.warnings.filter Warning.isMissingSlot = p.missingSlots ∧ b.length = p.bufferLength := by
  obtain ⟨ss, hpasses, hexecuted, rfl⟩ := passes_of_executeFrom h
  obtain ⟨hwarnings, hlength⟩ := hpasses.missingSlots
  rw [hexecuted] at hwarnings hlength
  refine ⟨?_, hlength⟩
  have hending : ∀ i ∈ p.ending?, i.command = .yield := fun i hi => by
    simpa using List.find?_some hi
  have hcount : ss.length = p.executed.length := by
    rw [← List.length_map (·.instruction), hexecuted]
  rw [List.nil_append, List.filter_append, hwarnings, missingSlots_of_finish _ hending, hlength,
    hcount, Plan.missingSlots, Plan.missingSlotsFrom_append]
  rfl

/-- The warnings of a flat plan about slots without a result are those that its instructions tell, in
their order, and so is the length of the last buffer. Neither depends on collections, measures or
filters. -/
theorem missingSlots_exact {p : Plan} {x : Execution} (h : e.executeTraced p = .ok (x, b)) :
    x.warnings.filter Warning.isMissingSlot = p.missingSlots ∧ b.length = p.bufferLength ∧
      ∀ (ψ : Type) [LinkFilter ψ] (other : Engine ψ) (y : Execution) (c : SlotBuffer),
        other.executeTraced p = .ok (y, c) →
          y.warnings.filter Warning.isMissingSlot = x.warnings.filter Warning.isMissingSlot := by
  obtain ⟨hwarnings, hlength⟩ := missingSlots_of_executeTraced h
  refine ⟨hwarnings, hlength, fun ψ _ other y c hother => ?_⟩
  rw [hwarnings, (missingSlots_of_executeTraced hother).1]

/-- The same plan, without any entities and measures. -/
theorem missingSlots_exact_sample :
    let e := standard sampleSides
    let other := ofRegistry { sampleSides with source := .empty } .empty
    ∃ x b y c, e.executeTraced samplePlan = .ok (x, b) ∧ other.executeTraced samplePlan = .ok (y, c) ∧
      samplePlan.missingSlots = [.missingSlot 1 5 3, .missingSlot 2 9 4] ∧
      x.warnings.filter Warning.isMissingSlot = samplePlan.missingSlots ∧ b.length = 5 ∧
      y.warnings.filter Warning.isMissingSlot = x.warnings.filter Warning.isMissingSlot := by
  intro e other
  have hruns : (e.executeTraced samplePlan).isOk && (other.executeTraced samplePlan).isOk := by
    decide +kernel
  cases h : e.executeTraced samplePlan with
  | error fault => simp [h, Except.isOk, Except.toBool] at hruns
  | ok r =>
      cases hother : other.executeTraced samplePlan with
      | error fault => simp [hother, Except.isOk, Except.toBool] at hruns
      | ok r' =>
          obtain ⟨hwarnings, hlength, hsame⟩ := missingSlots_exact h
          exact ⟨r.1, r.2, r'.1, r'.2, rfl, rfl, rfl, hwarnings, hlength, hsame _ _ _ _ hother⟩

end Engine

end LinkDiscovery
