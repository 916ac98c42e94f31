import LinkDiscovery.Proofs.Specification.Canonical
/-!
Full texts that cannot be read. The threshold of each node below the root stands behind a bar of the
full text, and a text is read only if a finite number stands behind each of its bars.
-/

namespace LinkDiscovery.Grammar

open Text Text.Scanner

variable {rest : List Char}

/-- A finite number stands behind each bar of the text. -/
def FiniteBars : List Char → Prop
  | [] => True
  | c :: rest =>
    (c = '|' → ∃ v left, number (rest.dropWhile isSpace) = .found v left ∧ v.isFinite = true) ∧
      FiniteBars rest

theorem finiteBars_append {text : List Char} (h : '|' ∉ text) :
    FiniteBars (text ++ rest) ↔ FiniteBars rest := by
  induction text with
  | nil => rfl
  | cons c text ih =>
      obtain ⟨hc, htext⟩ := not_or.mp (mt List.mem_cons.mpr h)
      rw [List.cons_append, FiniteBars, ih htext]
      exact and_iff_right fun heq => absurd heq.symm hc

theorem finiteBars_cons {c : Char} (hc : c ≠ '|') : FiniteBars (c :: rest) ↔ FiniteBars rest := by
  have h : '|' ∉ [c] := by simpa using hc.symm
  exact finiteBars_append h

theorem FiniteBars.behind {text : List Char} (h : FiniteBars (text ++ rest)) : FiniteBars rest := by
  induction text with
  | nil => exact h
  | cons c text ih => exact ih h.2

/-! Texts that are read. -/

theorem Blanks.bar_not_mem {gap : List Char} (h : Blanks gap) : '|' ∉ gap :=
  fun hmem => absurd (h _ hmem) (by decide)

theorem Figure.Legible.bar_not_mem {f : Figure} (h : f.Legible) : '|' ∉ f.text := by
  intro hmem
  obtain ⟨front, tail, htext⟩ := List.append_of_mem hmem
  -- reading stops in front of the bar, whereas the figure is read as a whole
  obtain ⟨outcome, hhalt⟩ := number_halts front
  have hread := h [')'] ⟨_, _, rfl, rfl⟩
  rw [htext, List.append_assoc, List.cons_append, hhalt '|' _ rfl] at hread
  cases outcome with
  | found v left =>
      have hlength := congrArg List.length (Scan.found.inj hread).2
      simp at hlength
      omega
  | missing => cases hread
  | broken => cases hread

theorem Frame.Legible.finiteBars {f : Frame} {inner : List Char} (h : f.Legible inner)
    (hθ : f.threshold.value.isFinite = true)
    (hinner : ∀ rest, FiniteBars rest → FiniteBars (inner ++ rest)) {c : Char}
    (hc : isClosing c = true) (hbar : c ≠ '|') (hrest : FiniteBars rest) :
    FiniteBars (f.around inner ++ c :: rest) := by
  have hfactor : '|' ∉ f.factorChars := by
    cases hk : f.factor with
    | none => simp [Frame.factorChars, hk]
    | some k =>
        obtain ⟨hfigure, hgap, hafter⟩ := h.factor k hk
        simp [Frame.factorChars, Factor.chars, hk, hfigure.bar_not_mem, hgap.bar_not_mem,
          hafter.bar_not_mem]
  have hclosing := h.after.startsClosing hc rest
  have hdark : StartsDark (f.threshold.text ++ (f.after ++ c :: rest)) := by
    obtain ⟨d, tail, htail, hd⟩ := hclosing
    rw [htail]
    exact h.threshold.startsDark hd
  have hnumber := h.threshold _ hclosing
  have hspaces : (f.lead ++ (f.threshold.text ++ (f.after ++ c :: rest))).dropWhile isSpace = _ :=
    (Scan.found.inj (spaces_found h.lead hdark)).2
  simp only [Frame.around, List.append_assoc, List.cons_append]
  rw [finiteBars_append h.before.bar_not_mem, finiteBars_append hfactor]
  refine hinner _ ?_
  rw [finiteBars_append h.gap.bar_not_mem]
  refine ⟨fun _ => ⟨_, _, by rw [hspaces, hnumber], hθ⟩, ?_⟩
  rw [finiteBars_append h.lead.bar_not_mem, finiteBars_append h.threshold.bar_not_mem,
    finiteBars_append h.after.bar_not_mem, finiteBars_cons hbar]
  exact hrest

theorem nameChars_bar {run : List Char} (h : ∀ c ∈ run, isNameChar c = true) : '|' ∉ run :=
  fun hmem => absurd (h _ hmem) (by decide)

/-- Behind the bars of an expression without faults stand finite numbers. -/
theorem Spelling.Legible.finiteBars {w : Spelling} (hw : w.Legible) {text : String}
    (hfault : w.outline.fault? text = none) (hrest : FiniteBars rest) :
    FiniteBars (w.chars ++ rest) := by
  induction w generalizing text rest with
  | leaf name gap pieces =>
      have hpieces : '|' ∉ joined pieces :=
        not_mem_joined (by decide) fun p hp hmem => ((hw.arguments p hp).1 _ hmem).2.2.2 rfl
      refine (finiteBars_append ?_).mpr hrest
      simp [Spelling.chars, nameChars_bar hw.nameChars, hw.blanks.bar_not_mem, hpieces]
  | node k word gap f left g right ihl ihr =>
      obtain ⟨⟨hk, hgap⟩, ⟨hf, hl⟩, hg, hr⟩ := hw
      obtain ⟨hc, hfl, hfr⟩ := Outline.fault?_node.mp hfault
      obtain ⟨⟨hθl, hθr⟩, -⟩ := Compound.fault?_eq_none.mp hc
      simp only [Spelling.chars, List.append_assoc, List.cons_append, List.nil_append]
      rw [finiteBars_append (nameChars_bar (ofLetters?_chars hk).2),
        finiteBars_append hgap.bar_not_mem, finiteBars_cons (c := '(') (by decide)]
      refine hf.finiteBars (c := ',') hθl (fun _ => ihl hl hfl) rfl (by decide) ?_
      exact hg.finiteBars (c := ')') hθr (fun _ => ihr hr hfr) rfl (by decide) hrest

/-! Texts that are printed. -/

/-- A double is printed as a finite number only if it is one. -/
theorem finite_of_number_plain {x v : Float} {left : List Char}
    (h : number (((Decimal.plain x).toList ++ rest).dropWhile isSpace) = .found v left)
    (hv : v.isFinite = true) : x.isFinite = true := by
  have hvalue := Double.ofFloat_eq x
  change x.toModel.unpack.isFinite = true
  cases hx : x.toModel.unpack with
  | zero s => rfl
  | finite s m e hm => rfl
  | notANumber =>
      have htext : (Decimal.plain x).toList = ['N', 'a', 'N'] := by
        simp [Decimal.plain, Decimal.write, hvalue, hx, Double.exactValue]
      have hread : number (('N' :: 'a' :: 'N' :: rest).dropWhile isSpace) =
          .found Decimal.notANumber rest := rfl
      rw [htext] at h
      obtain ⟨rfl, -⟩ := Scan.found.inj (hread.symm.trans h)
      have hnot : Decimal.notANumber.isFinite = false := rfl
      cases hnot.symm.trans hv
  | infinity s =>
      have htext : (Decimal.plain x).toList =
          Decimal.withSign (s == .negative) ['i', 'n', 'f'] := by
        simp [Decimal.plain, Decimal.write, hvalue, hx, Double.exactValue]
      rw [htext] at h
      cases s with
      | negative =>
          have hread : number (('-' :: 'i' :: 'n' :: 'f' :: rest).dropWhile isSpace) = .missing :=
            rfl
          cases hread.symm.trans h
      | positive =>
          have hread : number (('i' :: 'n' :: 'f' :: rest).dropWhile isSpace) =
              .found Decimal.infinity rest := rfl
          obtain ⟨rfl, -⟩ := Scan.found.inj (hread.symm.trans h)
          have hnot : Decimal.infinity.isFinite = false := rfl
          cases hnot.symm.trans hv

/-- Below the root, the thresholds of a full text with finite numbers behind its bars are finite. -/
theorem Spelling.finite_of_canonical {w : Spelling} {θ : Float}
    (h : FiniteBars ((w.canonical θ).chars ++ rest)) :
    ∀ c ∈ (Specification.ofOutline w.outline θ).children, ∀ t, Specification.IsNode t c →
      t.threshold.isFinite = true := by
  have hnode {s : Specification} (hs : s.threshold.isFinite = true)
      (hbelow : ∀ c ∈ s.children, ∀ t, Specification.IsNode t c → t.threshold.isFinite = true) :
      ∀ t, Specification.IsNode t s → t.threshold.isFinite = true := by
    intro t ht
    cases ht with
    | root => exact hs
    | child hc ht => exact hbelow _ hc t ht
  induction w generalizing θ rest with
  | leaf name gap pieces =>
      intro c hc
      cases hc
  | node k word gap f left g right ihl ihr =>
      simp only [canonical, chars, around_canonical, List.append_assoc, List.cons_append,
        List.nil_append] at h
      -- behind the keyword and the coefficient stands the term, behind the term its bar
      have hleft := h.behind.2.behind
      have hright := hleft.behind.2.behind.2.2.behind
      obtain ⟨v, left', hl, hvl⟩ := hleft.behind.1 rfl
      obtain ⟨v', right', hr, hvr⟩ := hright.behind.1 rfl
      intro c hc
      have hchildren : (Specification.ofOutline (node k word gap f left g right).outline θ).children =
          [Specification.ofOutline left.outline ((top k f left g right).thresholds θ).1,
            Specification.ofOutline right.outline ((top k f left g right).thresholds θ).2] := rfl
      rw [hchildren, List.mem_cons, List.mem_singleton] at hc
      rcases hc with rfl | rfl
      · refine hnode ?_ (ihl hleft)
        rw [Specification.ofOutline_threshold]
        exact finite_of_number_plain hl hvl
      · refine hnode ?_ (ihr hright)
        rw [Specification.ofOutline_threshold]
        exact finite_of_number_plain hr hvr

theorem Spelling.trim_canonical (k : Keyword) (word gap : List Char) (f : Frame) (left : Spelling)
    (g : Frame) (right : Spelling) (θ : Float) :
    trimChars ((node k word gap f left g right).canonical θ).chars =
      ((node k word gap f left g right).canonical θ).chars := by
  obtain ⟨first, tail, htext, hfirst⟩ : ∃ first tail, k.text.toList = first :: tail ∧
      isBlank first = false := by
    cases k <;> exact ⟨_, _, rfl, rfl⟩
  have hends : ∃ middle, ((node k word gap f left g right).canonical θ).chars =
      first :: (middle ++ [')']) := by
    simp only [canonical, chars, htext, List.cons_append, List.nil_append]
    exact ⟨_, by simp only [← List.append_assoc, ← List.cons_append]; rfl⟩
  obtain ⟨middle, hchars⟩ := hends
  rw [hchars]
  exact trimChars_of_ends hfirst rfl

end LinkDiscovery.Grammar

namespace LinkDiscovery.Specification

open Grammar Text

/-- A full text is read only if all thresholds below the root are finite. -/
theorem finite_of_read_full {w : Spelling} {θ : Float} {o : Outline}
    (h : Outline.read (ofOutline w.outline θ).label.full = .ok o) :
    (ofOutline w.outline θ).FiniteBelow := by
  cases w with
  | leaf name gap pieces =>
      intro c hc
      cases hc
  | node k word gap f left g right =>
      obtain ⟨hparse, hfault⟩ := Outline.read_eq_ok.mp h
      obtain ⟨w', hw', rfl, htrim⟩ := exists_spelling hparse
      have hbars : FiniteBars (w'.chars ++ []) := hw'.finiteBars hfault trivial
      rw [List.append_nil, ← htrim, Spelling.full_eq_canonical, String.toList_ofList,
        Spelling.trim_canonical, ← List.append_nil ((Spelling.node ..).canonical θ).chars] at hbars
      exact Spelling.finite_of_canonical hbars

end LinkDiscovery.Specification
