import LinkDiscovery.Proofs.Execution.Meaning
/-!
Outcomes of two runs side by side. Both runs end in the same fault, or both have results, and the
results stand in a relation that the parts of a run hand on.
-/

namespace LinkDiscovery

/-- The same fault twice, or two results in a relation. -/
inductive Agree {ε α β : Type} (R : α → β → Prop) : Except ε α → Except ε β → Prop where
  | error (fault : ε) : Agree R (.error fault) (.error fault)
  | ok {a : α} {b : β} (h : R a b) : Agree R (.ok a) (.ok b)

namespace Agree

variable {ε φ α β γ δ : Type} {R : α → β → Prop} {S : γ → δ → Prop} {x : Except ε α} {y : Except ε β}

/-- Two runs that go on in agreement after agreeing so far. -/
theorem bind {f : α → Except ε γ} {g : β → Except ε δ} (h : Agree R x y)
    (hfg : ∀ a b, R a b → Agree S (f a) (g b)) : Agree S (x >>= f) (y >>= g) := by
  cases h with
  | error fault => exact .error fault
  | ok h => exact hfg _ _ h

theorem fault_eq {fault fault' : ε} (h : Agree R (.error fault) (.error fault')) :
    fault = fault' := by
  cases h
  rfl

/-- Two runs that go on in agreement, where faults are compared by what `k` makes of them. -/
theorem bind_mapError {k : ε → φ} {f : α → Except ε γ} {g : β → Except ε δ}
    (h : Agree R (x.mapError k) (y.mapError k))
    (hfg : ∀ a b, R a b → Agree S ((f a).mapError k) ((g b).mapError k)) :
    Agree S ((x >>= f).mapError k) ((y >>= g).mapError k) := by
  cases x with
  | error fault =>
      cases y with
      | error fault' =>
          change Agree S (.error (k fault)) (.error (k fault'))
          exact h.fault_eq ▸ .error _
      | ok b => cases h
  | ok a =>
      cases y with
      | error fault' => cases h
      | ok b =>
          cases h with
          | ok h => exact hfg a b h

theorem map {f : α → γ} {g : β → δ} (h : Agree R x y) (hfg : ∀ a b, R a b → S (f a) (g b)) :
    Agree S (x.map f) (y.map g) := by
  cases h with
  | error fault => exact .error fault
  | ok h => exact .ok (hfg _ _ h)

theorem imp {Q : α → β → Prop} (h : Agree R x y) (hQ : ∀ a b, R a b → Q a b) : Agree Q x y := by
  cases h with
  | error fault => exact .error fault
  | ok h => exact .ok (hQ _ _ h)

theorem of_self {R : α → α → Prop} (hR : ∀ a, R a a) (x : Except ε α) : Agree R x x := by
  cases x with
  | error fault => exact .error fault
  | ok a => exact .ok (hR a)

end Agree

theorem bind_eq_ok {ε α β : Type} {x : Except ε α} {f : α → Except ε β} {b : β} :
    (x >>= f) = .ok b ↔ ∃ a, x = .ok a ∧ f a = .ok b := by
  cases x <;> simp [bind, Except.bind]

/-- A result is read off an option. -/
theorem toOption_eq_some {ε α : Type} {x : Except ε α} {a : α} :
    x.toOption = some a ↔ x = .ok a := by
  cases x <;> simp [Except.toOption]

namespace Engine

variable {e : Engine}

/-- A plan that is a single run comes to what the run comes to. -/
theorem executeNested_run (text : String) (threshold : Float) :
    e.executeNested (.atomic [.run text threshold]) = e.run (.run text threshold) 0 := by
  simp only [NestedPlan.atomic, executeNested, execute, executeTraced, executeFrom, Instruction.run,
    step, reduceCtorEq, if_false]
  cases e.run _ 0 with
  | error fault => rfl
  | ok ex => simp [Except.map, SlotBuffer.place, SlotBuffer.last?, SlotBuffer.empty]

/-- A plan over two others carries them out from left to right, and joins and filters their links. -/
theorem executeNested_join (p q : NestedPlan) (o : SetOperation) (f : Instruction) :
    e.executeNested (.node [] [p, q] (some o) (some f)) =
      (do
        let left ← e.executeNested p
        let right ← e.executeNested q
        let result ← e.applyFilter f (o.apply left.links right.links) none
        return {
          links := result.links
          warnings := left.warnings ++ right.warnings ++ result.warnings }) := by
  simp only [executeNested, executeAll, filterJoined, join, bind, Except.bind, pure, Except.pure]
  cases e.executeNested p with
  | error fault => simp
  | ok left =>
      cases e.executeNested q with
      | error fault => simp
      | ok right => simp

end Engine

end LinkDiscovery
