import LinkDiscovery.Proofs.Execution.Agreement
import LinkDiscovery.Proofs.Execution.Outcomes
/-!
The stages of a flat plan: each instruction finds a buffer, and its result is placed behind what is there.
No stage changes what an earlier one has placed, so that the last buffer holds the result of every
instruction, with nothing but empty results between them.
-/

namespace LinkDiscovery

/-! Buffers. -/

namespace SlotBuffer

variable {b b' : SlotBuffer} {slot : ℕ}

/-- What is read from a slot: its result, or nothing if it has none. -/
def entry (b : SlotBuffer) (slot : ℕ) : Links :=
  (b.get? slot).getD .empty

/-- A buffer holds all results of another one in their slots. -/
def Extends (b' b : SlotBuffer) : Prop :=
  b.slots <+: b'.slots

theorem Extends.refl (b : SlotBuffer) : b.Extends b :=
  List.prefix_refl _

theorem Extends.trans {b'' : SlotBuffer} (h : b''.Extends b') (h' : b'.Extends b) : b''.Extends b :=
  List.IsPrefix.trans h' h

theorem Extends.get? (h : b'.Extends b) {links : Links} (hslot : b.get? slot = some links) :
    b'.get? slot = some links := by
  obtain ⟨others, hothers⟩ := h
  have hlt : slot < b.slots.length := (List.getElem?_eq_some_iff.mp hslot).1
  rw [SlotBuffer.get?, ← hothers, List.getElem?_append_left hlt]
  exact hslot

theorem get?_eq_none_iff : b.get? slot = none ↔ b.length ≤ slot :=
  List.getElem?_eq_none_iff

theorem length_place (b : SlotBuffer) (result : Option ℕ) (links : Links) :
    (b.place result links).length = max b.length (result.getD 0) + 1 := by
  simp only [place, slotFor, length, List.length_append, List.length_replicate, List.length_singleton]
  omega

theorem extends_place (b : SlotBuffer) (result : Option ℕ) (links : Links) :
    (b.place result links).Extends b := by
  rw [Extends, place, List.append_assoc]
  exact List.prefix_append _ _

/-- A result that is placed stands in the slot asked for, or in the first free one. -/
theorem get?_place (b : SlotBuffer) (result : Option ℕ) (links : Links) :
    (b.place result links).get? (max b.length (result.getD 0)) = some links := by
  have hlength : (b.slots ++ List.replicate (b.slotFor result - b.length) Links.empty).length =
      max b.length (result.getD 0) := by
    simp only [slotFor, length, List.length_append, List.length_replicate]
    omega
  rw [get?, place, ← hlength]
  simp

/-- The slots that are passed over hold empty results. -/
theorem get?_place_padding (result : Option ℕ) (links : Links) (hslot : b.length ≤ slot)
    (hlt : slot < max b.length (result.getD 0)) :
    (b.place result links).get? slot = some .empty := by
  have hpadding : slot - b.slots.length < b.slotFor result - b.length := by
    simp only [slotFor, length] at hlt ⊢
    simp only [length] at hslot
    omega
  simp only [get?, place, List.append_assoc]
  rw [List.getElem?_append_right hslot, List.getElem?_append_left (by simpa using hpadding)]
  simp [hpadding]

end SlotBuffer

namespace Plan

/-- The instructions that are carried out: those before the first one that ends the plan. -/
def executed (p : Plan) : List Instruction :=
  p.instructions.takeWhile fun i => i.command ≠ .yield

/-- The instruction that ends the plan, if there is one. -/
def ending? (p : Plan) : Option Instruction :=
  p.instructions.find? fun i => i.command = .yield

end Plan

/-- An instruction that has been carried out, with the buffer that it found and what came of it. -/
structure Stage where
  instruction : Instruction
  before : SlotBuffer
  outcome : Execution

namespace Stage

/-- The slot of the result: the one asked for, or the first free one. -/
def slot (s : Stage) : ℕ :=
  max s.before.length (s.instruction.result.getD 0)

/-- The buffer with the result in its slot. -/
def after (s : Stage) : SlotBuffer :=
  s.before.place s.instruction.result s.outcome.links

end Stage

namespace Engine

variable {φ : Type} [LinkFilter φ] {e : Engine φ} {i : Instruction} {position : ℕ} {b b' : SlotBuffer}
  {ss : List Stage}

theorem readSlot_links (b : SlotBuffer) (slot position : ℕ) :
    (readSlot b slot position).links = b.entry slot := by
  rw [readSlot, SlotBuffer.entry]
  cases b.get? slot <;> rfl

theorem require_eq_ok {α : Type} {operand : Operand} {value? : Option α} {value : α} :
    require i position operand value? = .ok value ↔ value? = some value := by
  cases value? <;> simp [require]

/-- What an instruction that has a result does. -/
theorem step_cases {r : Execution} (h : e.step i position b = .ok r) :
    (i.command = .run ∧ e.run i position = .ok r) ∨
    (i.command = .filter ∧ ∃ slot output, i.source = some slot ∧
      e.applyFilter i (b.entry slot) (some position) = .ok output ∧
      r = {
        links := output.links
        warnings := (readSlot b slot position).warnings ++ output.warnings }) ∨
    (∃ o, i.command = .set o ∧ ∃ source target, i.source = some source ∧ i.target = some target ∧
      r = {
        links := o.apply (b.entry source) (b.entry target)
        warnings := (readSlot b source position).warnings ++ (readSlot b target position).warnings }) ∨
    (i.command = .yield ∧ r = {}) := by
  simp only [step] at h
  split at h
  case h_1 hcommand => exact .inl ⟨hcommand, h⟩
  case h_2 hcommand =>
    simp only [bind_eq_ok, require_eq_ok, readSlot_links] at h
    obtain ⟨slot, hslot, output, houtput, hr⟩ := h
    exact .inr (.inl ⟨hcommand, slot, output, hslot, houtput, (Except.ok.inj hr).symm⟩)
  case h_3 o hcommand =>
    simp only [bind_eq_ok, require_eq_ok, readSlot_links] at h
    obtain ⟨source, hsource, target, htarget, hr⟩ := h
    exact .inr (.inr (.inl ⟨o, hcommand, source, target, hsource, htarget, (Except.ok.inj hr).symm⟩))
  case h_4 hcommand => exact .inr (.inr (.inr ⟨hcommand, (Except.ok.inj h).symm⟩))

/-- Stages that follow each other: each one carries out its instruction at its position, and leaves the
buffer that the next one finds. None of the instructions ends a plan. -/
inductive Passes (e : Engine φ) : ℕ → SlotBuffer → List Stage → SlotBuffer → Prop where
  | nil (position : ℕ) (b : SlotBuffer) : Passes e position b [] b
  | cons {position : ℕ} {s : Stage} {ss : List Stage} {b : SlotBuffer}
    (hresult : s.instruction.command ≠ .yield)
    (hstep : e.step s.instruction position s.before = .ok s.outcome)
    (hrest : Passes e (position + 1) s.after ss b) : Passes e position s.before (s :: ss) b

/-- What a plan gives back at its end: the links of the slot that its ending names, or else those of the
last slot. -/
def finish (ending : Option Instruction) (position : ℕ) (b : SlotBuffer) : Execution :=
  match ending with
  | some i => yielded i.source position b
  | none => { links := b.last?.getD .empty }

/-- Instructions that have a result pass through stages. -/
theorem passes_of_executeFrom {is : List Instruction} {ws : List Warning} {x : Execution}
    (h : e.executeFrom position b ws is = .ok (x, b')) :
    ∃ ss, e.Passes position b ss b' ∧
      ss.map (·.instruction) = (Plan.mk is).executed ∧
      x = {
        links := (finish (Plan.mk is).ending? (position + ss.length) b').links
        warnings := ws ++ ss.flatMap (·.outcome.warnings) ++
          (finish (Plan.mk is).ending? (position + ss.length) b').warnings } := by
  induction is generalizing position b ws with
  | nil =>
      obtain ⟨rfl, rfl⟩ := Prod.mk.inj (Except.ok.inj h)
      exact ⟨[], .nil position b, rfl, by simp [finish, Plan.ending?]⟩
  | cons i is ih =>
      rw [executeFrom] at h
      by_cases hi : i.command = .yield
      · rw [if_pos hi] at h
        obtain ⟨rfl, rfl⟩ := Prod.mk.inj (Except.ok.inj h)
        refine ⟨[], .nil position b, by simp [Plan.executed, hi], ?_⟩
        simp [finish, Plan.ending?, hi]
      · rw [if_neg hi] at h
        cases hstep : e.step i position b with
        | error fault => simp [hstep] at h
        | ok r =>
            simp only [hstep] at h
            obtain ⟨ss, hpasses, hss, rfl⟩ := ih h
            refine ⟨⟨i, b, r⟩ :: ss, Passes.cons (s := ⟨i, b, r⟩) hi hstep hpasses, ?_, ?_⟩
            · simpa [Plan.executed, hi] using hss
            · simp [Plan.ending?, hi, Nat.add_right_comm, Nat.add_assoc]

namespace Passes

theorem extends_start (h : e.Passes position b ss b') : b'.Extends b := by
  induction h with
  | nil position b => exact .refl b
  | cons hresult hstep hrest ih => exact ih.trans (SlotBuffer.extends_place _ _ _)

/-- Each stage finds all that was there at the beginning. -/
theorem before_extends (h : e.Passes position b ss b') : ∀ s ∈ ss, s.before.Extends b := by
  induction h with
  | nil => simp
  | cons hresult hstep hrest ih =>
      refine List.forall_mem_cons.mpr ⟨.refl _, fun t ht => ?_⟩
      exact (ih t ht).trans (SlotBuffer.extends_place _ _ _)

/-- The last buffer holds all that is there after any of the stages. -/
theorem extends_after (h : e.Passes position b ss b') : ∀ s ∈ ss, b'.Extends s.after := by
  induction h with
  | nil => simp
  | cons hresult hstep hrest ih => exact List.forall_mem_cons.mpr ⟨hrest.extends_start, ih⟩

/-- Later stages find all that earlier ones leave. -/
theorem pairwise (h : e.Passes position b ss b') :
    ss.Pairwise fun s t => t.before.Extends s.after := by
  induction h with
  | nil => exact .nil
  | cons hresult hstep hrest ih => exact List.pairwise_cons.mpr ⟨hrest.before_extends, ih⟩

theorem get?_slot (h : e.Passes position b ss b') {s : Stage} (hs : s ∈ ss) :
    b'.get? s.slot = some s.outcome.links :=
  (h.extends_after s hs).get? (SlotBuffer.get?_place _ _ _)

/-- The slots that are filled by no instruction hold empty results. -/
theorem get?_padding (h : e.Passes position b ss b') {slot : ℕ} (hslot : b.length ≤ slot)
    (hlt : slot < b'.length) (hss : ∀ s ∈ ss, slot ≠ s.slot) : b'.get? slot = some .empty := by
  induction h with
  | nil => omega
  | @cons position s ss b' hresult hstep hrest ih =>
      obtain ⟨hs, hss⟩ := List.forall_mem_cons.mp hss
      have hlength := SlotBuffer.length_place s.before s.instruction.result s.outcome.links
      rcases Nat.lt_or_ge slot s.slot with hbelow | habove
      · exact hrest.extends_start.get? (SlotBuffer.get?_place_padding _ _ hslot hbelow)
      · refine ih ?_ hlt hss
        rw [Stage.after, hlength]
        rw [Stage.slot] at hs habove
        omega

theorem step_eq (h : e.Passes position b ss b') (i : ℕ) (hi : i < ss.length) :
    ss[i].instruction.command ≠ .yield ∧
      e.step ss[i].instruction (position + i) ss[i].before = .ok ss[i].outcome := by
  induction h generalizing i with
  | nil => simp at hi
  | cons hresult hstep hrest ih =>
      cases i with
      | zero => exact ⟨hresult, hstep⟩
      | succ i =>
          have hi' := ih i (Nat.lt_of_succ_lt_succ hi)
          rw [Nat.add_right_comm, Nat.add_assoc] at hi'
          exact hi'

end Passes

end Engine

/-- The links that a plan gives back: those of the slot that its ending names, and of the last slot if
it names none. -/
def SlotBuffer.selected (b : SlotBuffer) (ending : Option Instruction) : Links :=
  match ending.bind (·.source) with
  | some slot => b.entry slot
  | none => b.last?.getD .empty

/-- Filters and set operations work on what stands in the slots that they name. -/
def Stage.ReadsEntries {φ : Type} [LinkFilter φ] (s : Stage) (e : Engine φ) (position : ℕ) : Prop :=
  match s.instruction.command with
  | .run => e.run s.instruction position = .ok s.outcome
  | .filter => ∃ slot output, s.instruction.source = some slot ∧
      e.applyFilter s.instruction (s.before.entry slot) (some position) = .ok output ∧
      s.outcome.links = output.links
  | .set o => ∃ source target, s.instruction.source = some source ∧
      s.instruction.target = some target ∧
      s.outcome.links = o.apply (s.before.entry source) (s.before.entry target)
  | .yield => False

namespace Engine

variable {φ : Type} [LinkFilter φ] {e : Engine φ} {b : SlotBuffer}

theorem finish_links (ending : Option Instruction) (position : ℕ) (b : SlotBuffer) :
    (finish ending position b).links = b.selected ending := by
  cases ending with
  | none => rfl
  | some i =>
      obtain ⟨slots⟩ := b
      cases hslot : i.source with
      | none => cases slots <;> simp [finish, SlotBuffer.selected, yielded, hslot, SlotBuffer.isEmpty,
          SlotBuffer.last?]
      | some slot =>
          -- an empty buffer has nothing in any slot
          cases slots with
          | nil => simp [finish, SlotBuffer.selected, yielded, hslot, SlotBuffer.isEmpty,
              SlotBuffer.entry, SlotBuffer.get?]
          | cons links slots => simp [finish, SlotBuffer.selected, yielded, hslot,
              SlotBuffer.isEmpty, readSlot_links]

theorem readsEntries_of_step {s : Stage} {position : ℕ} (hresult : s.instruction.command ≠ .yield)
    (h : e.step s.instruction position s.before = .ok s.outcome) : s.ReadsEntries e position := by
  rw [Stage.ReadsEntries]
  obtain ⟨hcommand, hrun⟩ | ⟨hcommand, slot, output, hslot, houtput, hr⟩ |
    ⟨o, hcommand, source, target, hsource, htarget, hr⟩ | ⟨hcommand, -⟩ := step_cases h
  · rw [hcommand]
    exact hrun
  · rw [hcommand, hr]
    exact ⟨slot, output, hslot, houtput, rfl⟩
  · rw [hcommand, hr]
    exact ⟨source, target, hsource, htarget, rfl⟩
  · exact absurd hcommand hresult

/-- What a flat plan with a result leaves of its stages in the last buffer, and what it gives back. -/
structure AppendOnly (e : Engine φ) (p : Plan) (x : Execution) (b : SlotBuffer) (ss : List Stage) :
    Prop where
  /-- The stages are those of the plan, from the empty buffer to the last one. -/
  passes : e.Passes 0 .empty ss b
  executed : ss.map (·.instruction) = p.executed
  placed : ∀ s ∈ ss, s.after.get? s.slot = some s.outcome.links
  /-- No later stage changes what is in a slot. -/
  kept : ss.Pairwise fun s t => t.before.Extends s.after
  last : ∀ s ∈ ss, b.Extends s.after
  stored : ∀ s ∈ ss, b.get? s.slot = some s.outcome.links
  padded : ∀ slot < b.length, (∀ s ∈ ss, slot ≠ s.slot) → b.get? slot = some .empty
  reads : ∀ (i : ℕ) (hi : i < ss.length), ss[i].ReadsEntries e i
  returned : x.links = b.selected p.ending?

/-- The buffer of a flat plan is only ever added to: the result of each instruction takes the slot asked
for, or the first free one, and stays there; the slots that are passed over are empty. Instructions work
on what stands in their slots when they are carried out, and the plan gives back what stands in the slot
of its ending. -/
theorem executeTraced_appendOnly {p : Plan} {x : Execution}
    (h : e.executeTraced p = .ok (x, b)) : ∃ ss, e.AppendOnly p x b ss := by
  obtain ⟨ss, hpasses, hexecuted, rfl⟩ := passes_of_executeFrom h
  have hreads (i : ℕ) (hi : i < ss.length) : ss[i].ReadsEntries e i := by
    obtain ⟨hresult, hstep⟩ := hpasses.step_eq i hi
    rw [Nat.zero_add] at hstep
    exact readsEntries_of_step hresult hstep
  exact ⟨ss, {
    passes := hpasses
    executed := hexecuted
    placed := fun s _ => SlotBuffer.get?_place _ _ _
    kept := hpasses.pairwise
    last := hpasses.extends_after
    stored := fun _ hs => hpasses.get?_slot hs
    padded := fun _ hlt hss => hpasses.get?_padding (Nat.zero_le _) hlt hss
    reads := hreads
    returned := finish_links _ _ _ }⟩

/-- Results go to a slot past the end and to one that is passed over, and two slots are read that have no
result. -/
def samplePlan : Plan where
  instructions := [
    { Instruction.run "exactmatch(x.a,y.a)" 0.5 with result := some 2 },
    { Instruction.set .union 2 5 with result := some 1 },
    .filter 9 0.75,
    .yield (some 3),
    .run "exactmatch(" 1]

theorem executeTraced_appendOnly_sample :
    let e := standard sampleSides
    ∃ x b, e.executeTraced samplePlan = .ok (x, b) ∧ b.length = 5 ∧ x.links.size = 1 ∧
      ∃ ss, e.AppendOnly samplePlan x b ss := by
  intro e
  have hrun : (e.executeTraced samplePlan).toOption.any
      (fun r => r.2.length == 5 && r.1.links.size == 1) = true := by
    decide +kernel
  cases h : e.executeTraced samplePlan with
  | error fault => simp [h, Except.toOption] at hrun
  | ok r =>
      obtain ⟨x, b⟩ := r
      simp only [h, Except.toOption, Option.any_some, Bool.and_eq_true, beq_iff_eq] at hrun
      exact ⟨x, b, rfl, hrun.1, hrun.2, executeTraced_appendOnly h⟩

end Engine

end LinkDiscovery
