import LinkDiscovery.Proofs.Execution.Stages
/-!
What stands behind the ending of a plan. It is never reached, so it can be anything; and an ending that
names no slot gives back what the last instruction would leave, so it can be left out itself.
-/

namespace LinkDiscovery.Engine

variable {φ : Type} [LinkFilter φ] {e : Engine φ} {i : Instruction} {is js : List Instruction}

/-- Two lists of instructions come to the same wherever they are carried out. -/
def Exchangeable (e : Engine φ) (is js : List Instruction) : Prop :=
  ∀ position b ws, e.executeFrom position b ws is = e.executeFrom position b ws js

namespace Exchangeable

theorem cons (h : e.Exchangeable is js) (i : Instruction) : e.Exchangeable (i :: is) (i :: js) := by
  intro position b ws
  rw [executeFrom, executeFrom]
  by_cases hi : i.command = .yield
  · rw [if_pos hi, if_pos hi]
  · rw [if_neg hi, if_neg hi]
    cases e.step i position b with
    | error fault => rfl
    | ok result => exact h _ _ _

/-- Instructions can be exchanged behind others, also behind some that end the plan or fail. -/
theorem behind (h : e.Exchangeable is js) (front : List Instruction) :
    e.Exchangeable (front ++ is) (front ++ js) := by
  induction front with
  | nil => exact h
  | cons i front ih => exact ih.cons i

theorem executeTraced_eq (h : e.Exchangeable is js) :
    e.executeTraced ⟨is⟩ = e.executeTraced ⟨js⟩ :=
  h 0 .empty []

end Exchangeable

/-- What an ending gives back does not depend on what follows it. -/
theorem exchangeable_ending (hi : i.command = .yield) (rest : List Instruction) :
    e.Exchangeable (i :: rest) [i] := by
  intro position b ws
  rw [executeFrom, executeFrom, if_pos hi, if_pos hi]

/-- Without a slot it is the last result, also in an empty buffer, and there are no warnings. -/
theorem yielded_none (position : ℕ) (b : SlotBuffer) :
    yielded none position b = { links := b.last?.getD .empty } := by
  obtain ⟨slots⟩ := b
  cases slots <;> rfl

/-- An ending that names no slot comes to the same as the end of the instructions. -/
theorem exchangeable_end (hi : i.command = .yield) (hsource : i.source = none)
    (rest : List Instruction) : e.Exchangeable (i :: rest) [] := by
  intro position b ws
  rw [executeFrom, executeFrom, if_pos hi, hsource, yielded_none]
  simp only [List.append_nil]

/-- Nothing behind the ending of a plan matters: the fault, or else the links, the warnings and the last
buffer, are those of the plan up to its ending. If the ending names no slot, they are those of the
instructions in front of it. -/
theorem executeTraced_behind_ending (e : Engine φ) (hi : i.command = .yield)
    (front rest : List Instruction) :
    e.executeTraced ⟨front ++ [i] ++ rest⟩ = e.executeTraced ⟨front ++ [i]⟩ ∧
      (i.source = none → e.executeTraced ⟨front ++ [i] ++ rest⟩ = e.executeTraced ⟨front⟩) := by
  rw [List.append_assoc, List.singleton_append]
  refine ⟨((exchangeable_ending hi rest).behind front).executeTraced_eq, fun hsource => ?_⟩
  have hend := ((exchangeable_end (e := e) hi hsource rest).behind front).executeTraced_eq
  rwa [List.append_nil] at hend

/-- In front of the endings slots are passed over, and behind them stands an instruction that fails. -/
theorem executeTraced_behind_ending_sample :
    let e := standard sampleSides
    let front := samplePlan.instructions.take 3
    let rest := [Instruction.run "exactmatch(" 1]
    (e.executeTraced ⟨front⟩).isOk ∧ ¬ (e.executeTraced ⟨rest⟩).isOk ∧
      e.executeTraced ⟨front ++ [.yield (some 3)] ++ rest⟩ =
        e.executeTraced ⟨front ++ [.yield (some 3)]⟩ ∧
      e.executeTraced ⟨front ++ [.yield none] ++ rest⟩ = e.executeTraced ⟨front⟩ := by
  intro e front rest
  exact ⟨by decide +kernel, by decide +kernel,
    (executeTraced_behind_ending e rfl front rest).1,
    (executeTraced_behind_ending e rfl front rest).2 rfl⟩

end LinkDiscovery.Engine
