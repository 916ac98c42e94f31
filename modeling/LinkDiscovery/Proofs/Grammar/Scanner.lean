import LinkDiscovery.Text.Scanner
import Mathlib
/-!
Properties of scanners that all parts of the grammar share. A scanner advances: what it leaves is an end
of the text. A lenient scanner never stops the alternatives. A scanner that halts at a class of characters
decides on what stands in front of the first of them alone, so that the text behind can be exchanged.
-/

namespace LinkDiscovery.Text

/-- An outcome with more text behind. -/
def Scan.before {α : Type} (rest : List Char) : Scan α → Scan α
  | .found a left => .found a (left ++ rest)
  | .missing => .missing
  | .broken => .broken

namespace Scanner

variable {α β : Type} {p q : Scanner α} {f : α → Scanner β} {input left rest : List Char}
  {a : α} {b : β}

theorem pure_apply : (pure a : Scanner α) input = .found a input := rfl

theorem bind_found (h : p input = .found a rest) : (p >>= f) input = f a rest := by
  change andThen p f input = _
  simp only [andThen, h]

theorem bind_missing (h : p input = .missing) : (p >>= f) input = .missing := by
  change andThen p f input = _
  simp only [andThen, h]

theorem bind_broken (h : p input = .broken) : (p >>= f) input = .broken := by
  change andThen p f input = _
  simp only [andThen, h]

theorem bind_eq_found :
    (p >>= f) input = .found b rest ↔
      ∃ a left, p input = .found a left ∧ f a left = .found b rest := by
  change andThen p f input = _ ↔ _
  cases hp : p input <;> simp [andThen, hp]

theorem bind_eq_broken :
    (p >>= f) input = .broken ↔
      p input = .broken ∨ ∃ a left, p input = .found a left ∧ f a left = .broken := by
  change andThen p f input = _ ↔ _
  cases hp : p input <;> simp [andThen, hp]

theorem orElse_eq_found :
    orElse p q input = .found a rest ↔
      p input = .found a rest ∨ p input = .missing ∧ q input = .found a rest := by
  cases hp : p input <;> simp [orElse, hp]

theorem orElse_eq_broken :
    orElse p q input = .broken ↔ p input = .broken ∨ p input = .missing ∧ q input = .broken := by
  cases hp : p input <;> simp [orElse, hp]

theorem orElse_missing (h : p input = .missing) : orElse p q input = q input := by
  simp only [orElse, h]

theorem orElse_found (h : p input = .found a rest) : orElse p q input = .found a rest := by
  simp only [orElse, h]

theorem orElse_broken (h : p input = .broken) : orElse p q input = .broken := by
  simp only [orElse, h]

theorem token_eq_found {c : Char} {u : Unit} :
    token c input = .found u rest ↔ input = c :: rest := by
  cases input with
  | nil => simp [token]
  | cons d input =>
      by_cases h : d = c <;> simp [token, h]

theorem token_cons (c : Char) : token c (c :: rest) = .found () rest := by
  simp [token]

theorem span_eq_found {inClass : Char → Bool} {run : List Char} :
    span inClass input = .found run rest ↔
      input.takeWhile inClass = run ∧ input.dropWhile inClass = rest := by
  simp [span]

theorem word_eq_found {inClass : Char → Bool} {run : List Char} :
    word inClass input = .found run rest ↔
      run ≠ [] ∧ input.takeWhile inClass = run ∧ input.dropWhile inClass = rest := by
  unfold word
  split
  · rename_i h
    simp only [h, reduceCtorEq, false_iff]
    rintro ⟨hne, rfl, -⟩
    exact hne rfl
  · rename_i hne
    simp only [Scan.found.injEq]
    constructor
    · rintro ⟨rfl, rfl⟩
      exact ⟨hne, rfl, rfl⟩
    · rintro ⟨-, hrun, hrest⟩
      exact ⟨hrun, hrest⟩

theorem optional_eq_found {o : Option α} :
    optional p input = .found o rest ↔
      (∃ a, o = some a ∧ p input = .found a rest) ∨
        o = none ∧ rest = input ∧ p input = .missing := by
  cases hp : p input <;> simp [optional, hp, eq_comm, and_comm]

theorem optional_eq_broken : optional p input = .broken ↔ p input = .broken := by
  cases hp : p input <;> simp [optional, hp]

theorem optional_broken (h : p input = .broken) : optional p input = .broken := by
  simp only [optional, h]

theorem required_eq_found :
    required p input = .found a rest ↔ p input = .found a rest := by
  cases hp : p input <;> simp [required, hp]

theorem required_eq_broken :
    required p input = .broken ↔ p input = .missing ∨ p input = .broken := by
  cases hp : p input <;> simp [required, hp]

theorem appendFront_eq (start : String) (n : ℕ) (input : List Char) :
    appendFront start n input = start ++ String.ofList (input.take n) := by
  induction n generalizing start input with
  | zero => simp [appendFront]
  | succ n ih =>
      cases input with
      | nil => simp [appendFront]
      | cons c input =>
          rw [appendFront, ih, List.take_succ_cons]
          apply String.toList_inj.mp
          simp

theorem spelled_found (text : List Char) (h : p (text ++ rest) = .found a rest) :
    spelled p (text ++ rest) = .found (String.ofList text, a) rest := by
  simp [spelled, h, appendFront_eq]

theorem spelled_missing (h : p input = .missing) : spelled p input = .missing := by
  simp [spelled, h]

theorem spelled_broken (h : p input = .broken) : spelled p input = .broken := by
  simp [spelled, h]

/-! Advancing. -/

/-- What is left is an end of the text. -/
def Advances (p : Scanner α) : Prop :=
  ∀ input a rest, p input = .found a rest → rest <:+ input

theorem Advances.pure (a : α) : Advances (pure a : Scanner α) := by
  intro input b rest h
  rw [pure_apply, Scan.found.injEq] at h
  exact h.2 ▸ List.suffix_rfl

theorem Advances.bind (hp : Advances p) (hf : ∀ a, Advances (f a)) : Advances (p >>= f) := by
  intro input b rest h
  obtain ⟨a, left, ha, hb⟩ := bind_eq_found.mp h
  exact (hf a _ _ _ hb).trans (hp _ _ _ ha)

theorem Advances.orElse (hp : Advances p) (hq : Advances q) : Advances (orElse p q) := by
  intro input a rest h
  rcases orElse_eq_found.mp h with h | ⟨-, h⟩
  · exact hp _ _ _ h
  · exact hq _ _ _ h

theorem Advances.optional (hp : Advances p) : Advances (optional p) := by
  intro input o rest h
  rcases optional_eq_found.mp h with ⟨a, -, h⟩ | ⟨-, rfl, -⟩
  · exact hp _ _ _ h
  · exact List.suffix_rfl

theorem Advances.required (hp : Advances p) : Advances (required p) :=
  fun _ _ _ h => hp _ _ _ (required_eq_found.mp h)

theorem Advances.token (c : Char) : Advances (token c) := by
  intro input u rest h
  rw [token_eq_found.mp h]
  exact List.suffix_cons c rest

theorem Advances.span (inClass : Char → Bool) : Advances (span inClass) := by
  intro input run rest h
  rw [← (span_eq_found.mp h).2]
  exact List.dropWhile_suffix inClass

theorem Advances.word (inClass : Char → Bool) : Advances (word inClass) := by
  intro input run rest h
  rw [← (word_eq_found.mp h).2.2]
  exact List.dropWhile_suffix inClass

theorem Advances.letters (w : List Char) : Advances (letters w) := by
  intro input
  induction w generalizing input with
  | nil =>
      intro u rest h
      simp only [Scanner.letters, Scan.found.injEq] at h
      exact h.2 ▸ List.suffix_rfl
  | cons c w ih =>
      intro u rest h
      cases input with
      | nil => simp [Scanner.letters] at h
      | cons d input =>
          simp only [Scanner.letters] at h
          split at h
          · exact (ih input u rest h).trans (List.suffix_cons d input)
          · cases h

/-! Never stopping the alternatives. -/

/-- Where nothing is found, an alternative can be tried. -/
def Lenient (p : Scanner α) : Prop :=
  ∀ input, p input ≠ .broken

theorem Lenient.pure (a : α) : Lenient (pure a : Scanner α) :=
  fun _ h => nomatch h

theorem Lenient.bind (hp : Lenient p) (hf : ∀ a, Lenient (f a)) : Lenient (p >>= f) := by
  intro input h
  rcases bind_eq_broken.mp h with h | ⟨a, left, -, h⟩
  · exact hp _ h
  · exact hf a _ h

theorem Lenient.orElse (hp : Lenient p) (hq : Lenient q) : Lenient (orElse p q) := by
  intro input h
  rcases orElse_eq_broken.mp h with h | ⟨-, h⟩
  · exact hp _ h
  · exact hq _ h

theorem Lenient.optional (hp : Lenient p) : Lenient (optional p) :=
  fun _ h => hp _ (optional_eq_broken.mp h)

theorem Lenient.token (c : Char) : Lenient (token c) := by
  intro input h
  unfold Scanner.token at h
  split at h
  · cases h
  · split at h <;> cases h

theorem Lenient.span (inClass : Char → Bool) : Lenient (span inClass) :=
  fun _ h => nomatch h

theorem Lenient.word (inClass : Char → Bool) : Lenient (word inClass) := by
  intro input h
  unfold Scanner.word at h
  split at h <;> cases h

theorem Lenient.letters (w : List Char) : Lenient (letters w) := by
  intro input h
  fun_induction Scanner.letters w input with
  | case1 => cases h
  | case2 => cases h
  | case3 w d rest ih => exact ih h
  | case4 => cases h

/-! Halting. -/

/-- The outcome is settled by what stands in front of the characters in `stops`. -/
def Halts (stops : Char → Bool) (p : Scanner α) : Prop :=
  ∀ front, ∃ outcome : Scan α, ∀ c rest, stops c = true →
    p (front ++ c :: rest) = outcome.before (c :: rest)

variable {stops : Char → Bool}

theorem Halts.pure (a : α) : Halts stops (pure a : Scanner α) :=
  fun front => ⟨.found a front, fun _ _ _ => rfl⟩

theorem Halts.bind (hp : Halts stops p) (hf : ∀ a, Halts stops (f a)) :
    Halts stops (p >>= f) := by
  intro front
  obtain ⟨outcome, hp⟩ := hp front
  cases outcome with
  | found a left =>
      obtain ⟨outcome, hf⟩ := hf a left
      exact ⟨outcome, fun c rest hc => (bind_found (hp c rest hc)).trans (hf c rest hc)⟩
  | missing => exact ⟨.missing, fun c rest hc => bind_missing (hp c rest hc)⟩
  | broken => exact ⟨.broken, fun c rest hc => bind_broken (hp c rest hc)⟩

theorem Halts.orElse (hp : Halts stops p) (hq : Halts stops q) : Halts stops (orElse p q) := by
  intro front
  obtain ⟨outcome, hp⟩ := hp front
  obtain ⟨outcome', hq⟩ := hq front
  cases outcome with
  | found a left =>
      exact ⟨.found a left, fun c rest hc => by simp [Scanner.orElse, hp c rest hc, Scan.before]⟩
  | missing =>
      exact ⟨outcome', fun c rest hc => by
        simp [Scanner.orElse, hp c rest hc, hq c rest hc, Scan.before]⟩
  | broken =>
      exact ⟨.broken, fun c rest hc => by simp [Scanner.orElse, hp c rest hc, Scan.before]⟩

theorem Halts.optional (hp : Halts stops p) : Halts stops (optional p) := by
  intro front
  obtain ⟨outcome, hp⟩ := hp front
  cases outcome with
  | found a left =>
      exact ⟨.found (some a) left, fun c rest hc => by
        simp [Scanner.optional, hp c rest hc, Scan.before]⟩
  | missing =>
      exact ⟨.found none front, fun c rest hc => by
        simp [Scanner.optional, hp c rest hc, Scan.before]⟩
  | broken =>
      exact ⟨.broken, fun c rest hc => by simp [Scanner.optional, hp c rest hc, Scan.before]⟩

theorem Halts.required (hp : Halts stops p) : Halts stops (required p) := by
  intro front
  obtain ⟨outcome, hp⟩ := hp front
  cases outcome with
  | found a left =>
      exact ⟨.found a left, fun c rest hc => by
        simp [Scanner.required, hp c rest hc, Scan.before]⟩
  | missing | broken =>
      exact ⟨.broken, fun c rest hc => by simp [Scanner.required, hp c rest hc, Scan.before]⟩

theorem Halts.token {c : Char} (hc : stops c = false) : Halts stops (token c) := by
  intro front
  cases front with
  | nil =>
      refine ⟨.missing, fun d rest hd => ?_⟩
      have hne : d ≠ c := by
        rintro rfl
        simp [hc] at hd
      simp [Scanner.token, hne, Scan.before]
  | cons d front =>
      by_cases hd : d = c
      · exact ⟨.found () front, fun _ _ _ => by simp [Scanner.token, hd, Scan.before]⟩
      · exact ⟨.missing, fun _ _ _ => by simp [Scanner.token, hd, Scan.before]⟩

theorem takeWhile_stop {inClass : Char → Bool} (front : List Char) {c : Char}
    (hc : inClass c = false) :
    (front ++ c :: rest).takeWhile inClass = front.takeWhile inClass := by
  induction front with
  | nil => simp [hc]
  | cons d front ih => simp [List.takeWhile_cons, ih]

theorem dropWhile_stop {inClass : Char → Bool} (front : List Char) {c : Char}
    (hc : inClass c = false) :
    (front ++ c :: rest).dropWhile inClass = front.dropWhile inClass ++ c :: rest := by
  induction front with
  | nil => simp [hc]
  | cons d front ih => by_cases hd : inClass d = true <;> simp [hd, ih]

theorem Halts.span {inClass : Char → Bool} (h : ∀ c, stops c = true → inClass c = false) :
    Halts stops (span inClass) :=
  fun front => ⟨.found (front.takeWhile inClass) (front.dropWhile inClass), fun c rest hc => by
    simp only [Scanner.span, takeWhile_stop front (h c hc), dropWhile_stop front (h c hc),
      Scan.before]⟩

theorem Halts.word {inClass : Char → Bool} (h : ∀ c, stops c = true → inClass c = false) :
    Halts stops (word inClass) := by
  intro front
  refine ⟨Scanner.word inClass front, fun c rest hc => ?_⟩
  simp only [Scanner.word, takeWhile_stop front (h c hc), dropWhile_stop front (h c hc)]
  split <;> rfl

theorem Halts.letters {w : List Char} (h : ∀ c, stops c = true → c.toLower ∉ w) :
    Halts stops (letters w) := by
  induction w with
  | nil => exact fun front => ⟨.found () front, fun _ _ _ => rfl⟩
  | cons d w ih =>
      have ih := ih fun c hc hmem => h c hc (List.mem_cons_of_mem d hmem)
      intro front
      cases front with
      | nil =>
          refine ⟨.missing, fun c rest hc => ?_⟩
          have hne : c.toLower ≠ d := fun heq => h c hc (by simp [heq])
          simp [Scanner.letters, hne, Scan.before]
      | cons e front =>
          obtain ⟨outcome, ih⟩ := ih front
          by_cases he : e.toLower = d
          · exact ⟨outcome, fun c rest hc => by simp [Scanner.letters, he, ih c rest hc]⟩
          · exact ⟨.missing, fun c rest hc => by simp [Scanner.letters, he, Scan.before]⟩

end Scanner

end LinkDiscovery.Text
