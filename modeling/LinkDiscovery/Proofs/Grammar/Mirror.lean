import LinkDiscovery.Proofs.Execution.Completion
/-!
Expressions whose calls have their two arguments exchanged. All else is read alike, so that such an
expression can be read if the first one can, and it has no other faults.
-/

namespace LinkDiscovery.Grammar

open Text

/-! Arguments with other blanks around them. -/

theorem mem_dropWhile_or {α : Type} {f : α → Bool} {c : α} {l : List α} (h : c ∈ l) :
    c ∈ l.dropWhile f ∨ f c = true := by
  rw [← List.takeWhile_append_dropWhile (p := f) (l := l), List.mem_append] at h
  exact h.symm.imp_right List.mem_takeWhile_imp

/-- Only blanks are cut off. -/
theorem mem_trimChars_or {c : Char} {piece : List Char} (h : c ∈ piece) :
    c ∈ trimChars piece ∨ isBlank c = true := by
  rcases mem_dropWhile_or (f := isBlank) h with h | h
  · have hend := mem_dropWhile_or (f := isBlank) (List.mem_reverse.mpr h)
    exact hend.imp_left List.mem_reverse.mpr
  · exact .inr h

theorem mem_of_mem_trimChars {c : Char} {piece : List Char} (h : c ∈ trimChars piece) :
    c ∈ piece := by
  rw [trimChars, trimEnd, List.mem_reverse] at h
  have hmem := (List.dropWhile_suffix isBlank).subset h
  exact (List.dropWhile_suffix isBlank).subset (List.mem_reverse.mp hmem)

/-- Other blanks around an argument make no difference to whether it is one. -/
theorem IsPiece.of_trim {p q : List Char} (h : IsPiece p) (htrim : trimChars q = trimChars p) :
    IsPiece q := by
  intro c hc
  rcases mem_trimChars_or hc with hmem | hblank
  · exact h c (mem_of_mem_trimChars (htrim ▸ hmem))
  · refine ⟨?_, ?_, ?_, ?_⟩
    all_goals
      rintro rfl
      exact absurd hblank (by decide)

theorem Frame.Legible.of_bare {f : Frame} {inner inner' : List Char} (h : f.Legible inner)
    (hbare : ∀ rest, Grammar.coefficient (inner' ++ rest) = .missing) : f.Legible inner' :=
  { h with noFactor := fun _ => hbare }

namespace Spelling

/-- The two arguments of each call are exchanged, with any blanks around them. All else is spelled
alike. -/
inductive Mirrors : Spelling → Spelling → Prop
  | leaf (name gap : List Char) {p q p' q' : List Char} (hp : trimChars p' = trimChars q)
      (hq : trimChars q' = trimChars p) : Mirrors (leaf name gap [p, q]) (leaf name gap [p', q'])
  | node (k : Keyword) (word gap : List Char) (f g : Frame) {left left' right right' : Spelling}
      (hleft : Mirrors left left') (hright : Mirrors right right') :
      Mirrors (node k word gap f left g right) (node k word gap f left' g right')

/-- The arguments of each call in the other order, each with the blanks around it. -/
def mirrored : Spelling → Spelling
  | leaf name gap pieces => leaf name gap pieces.reverse
  | node k word gap f left g right => node k word gap f left.mirrored g right.mirrored

variable {w w' : Spelling}

theorem mirrors_mirrored (h : w.outline.ComparesPairs) : w.Mirrors w.mirrored := by
  induction w with
  | leaf name gap pieces =>
      obtain ⟨p, q, rfl⟩ := List.length_eq_two.mp ((List.length_map _).symm.trans h)
      exact .leaf name gap rfl rfl
  | node k word gap f left g right ihl ihr => exact .node k word gap f g (ihl h.1) (ihr h.2)

theorem Mirrors.symm (h : w.Mirrors w') : w'.Mirrors w := by
  induction h with
  | leaf name gap hp hq => exact .leaf name gap hq.symm hp.symm
  | node k word gap f g _ _ ihl ihr => exact .node k word gap f g ihl ihr

theorem Mirrors.comparesBy (h : w.Mirrors w') {r : Registry} (hw : w.outline.ComparesBy r) :
    w'.outline.ComparesBy r := by
  induction h with
  | leaf name gap hp hq => exact hw
  | node k word gap f g _ _ ihl ihr => exact ⟨ihl hw.1, ihr hw.2⟩

theorem Mirrors.legible (h : w.Mirrors w') (hw : w.Legible)
    (hcalls : w.outline.ComparesBy .standard) : w'.Legible := by
  induction h with
  | leaf name gap hp hq =>
      obtain ⟨hname, hne, hgap, harguments, -, -⟩ := hw
      obtain ⟨⟨hfirst, hfirst_ne⟩, harguments⟩ := List.forall_mem_cons.mp harguments
      obtain ⟨hsecond, hsecond_ne⟩ := List.forall_mem_singleton.mp harguments
      refine ⟨hname, hne, hgap, List.forall_mem_cons.mpr ⟨?_, List.forall_mem_singleton.mpr ?_⟩,
        by simp, ?_⟩
      · exact ⟨hsecond.of_trim hp, hp ▸ hsecond_ne⟩
      · exact ⟨hfirst.of_trim hq, hq ▸ hfirst_ne⟩
      · exact fun hkeyword => absurd (Registry.standard_not_keyword hcalls.2) hkeyword
  | node k word gap f g hleft hright ihl ihr =>
      obtain ⟨hword, ⟨hf, hl⟩, hg, hr⟩ := hw
      have hl' := ihl hl hcalls.1
      have hr' := ihr hr hcalls.2
      exact ⟨hword, ⟨hf.of_bare (bare_of_standard hl' (hleft.comparesBy hcalls.1)), hl'⟩,
        hg.of_bare (bare_of_standard hr' (hright.comparesBy hcalls.2)), hr'⟩

theorem Mirrors.fault?_eq_none (h : w.Mirrors w') {text : String}
    (hw : w.outline.fault? text = none) (text' : String) : w'.outline.fault? text' = none := by
  induction h generalizing text text' with
  | leaf => rfl
  | node k word gap f g _ _ ihl ihr =>
      obtain ⟨hc, hl, hr⟩ := Outline.fault?_node.mp hw
      exact Outline.fault?_node.mpr ⟨Compound.fault?_eq_none.mpr (Compound.fault?_eq_none.mp hc :),
        ihl hl _, ihr hr _⟩

end Spelling

/-- Between blanks, both texts are spelled alike but for the two arguments of each call, which are
exchanged. -/
def Mirrored (text text' : String) : Prop :=
  ∃ w w' : Spelling, w.Legible ∧ w.Mirrors w' ∧ trimChars text.toList = w.chars ∧
    trimChars text'.toList = w'.chars

theorem Spelling.Legible.mirrored {w : Spelling} (hw : w.Legible)
    (hcalls : w.outline.ComparesBy .standard) {text : String}
    (htext : trimChars text.toList = w.chars) :
    Mirrored text (String.ofList w.mirrored.chars) := by
  have hmirrors := mirrors_mirrored hcalls.comparesPairs
  refine ⟨w, w.mirrored, hw, hmirrors, htext, ?_⟩
  rw [String.toList_ofList, (hmirrors.legible hw hcalls).trim]

/-- The arguments of each call can be exchanged in every text. -/
theorem exists_mirrored {text : String} {o : Outline} (ho : Outline.parse text = .ok o)
    (hcalls : o.ComparesBy .standard) : ∃ text', Mirrored text text' := by
  obtain ⟨w, hw, rfl, htext⟩ := exists_spelling ho
  exact ⟨_, hw.mirrored hcalls htext⟩

end LinkDiscovery.Grammar

namespace LinkDiscovery.Specification

open Grammar

variable {w w' : Spelling} {θ : Float}

/-- The thresholds that are given to the terms do not depend on the expressions in them. -/
theorem thresholds_top (k : Keyword) (f : Frame) (left left' : Spelling) (g : Frame)
    (right right' : Spelling) (θ : Float) :
    (Spelling.top k f left' g right').thresholds θ = (Spelling.top k f left g right).thresholds θ := by
  cases k <;> rfl

theorem finite_mirrors (h : w.Mirrors w')
    (hw : ∀ t, IsNode t (ofOutline w.outline θ) → t.threshold.isFinite = true) :
    ∀ t, IsNode t (ofOutline w'.outline θ) → t.threshold.isFinite = true := by
  induction h generalizing θ with
  | leaf name gap hp hq => exact forall_nodes_leaf.mpr (forall_nodes_leaf.mp hw)
  | @node k word gap f g left left' right right' _ _ ihl ihr =>
      obtain ⟨hroot, hl, hr⟩ := forall_nodes.mp hw
      have hthresholds := thresholds_top k f left left' g right right' θ
      refine forall_nodes.mpr ⟨hroot, ?_, ?_⟩
      · exact hthresholds ▸ ihl hl
      · exact hthresholds ▸ ihr hr

theorem sumsRereadable_mirrors (h : w.Mirrors w') (hw : w'.Legible)
    (hcalls : w'.outline.ComparesBy .standard) (hsums : (ofOutline w.outline θ).SumsRereadable) :
    (ofOutline w'.outline θ).SumsRereadable := by
  induction h generalizing θ with
  | leaf name gap hp hq => exact forall_nodes_leaf.mpr fun hsum => by cases hsum
  | @node k word gap f g left left' right right' hleft hright ihl ihr =>
      obtain ⟨hroot, hl, hr⟩ := sumsRereadable_node.mp hsums
      obtain ⟨-, ⟨-, hlegible⟩, -, hlegible'⟩ := id hw
      have hthresholds := thresholds_top k f left left' g right right' θ
      refine sumsRereadable_node.mpr ⟨fun hk => ⟨?_, ?_⟩, ?_, ?_⟩
      · obtain ⟨hfinite, hfinite'⟩ := finiteBelow_node.mp (hroot hk).finite
        exact finiteBelow_node.mpr ⟨hthresholds ▸ finite_mirrors hleft hfinite,
          hthresholds ▸ finite_mirrors hright hfinite'⟩
      · exact (bareTerms_iff hw).mp (Spelling.bareTerms_of_standard hw hcalls)
      · exact hthresholds ▸ ihl hlegible hcalls.1 hl
      · exact hthresholds ▸ ihr hlegible' hcalls.2 hr

end LinkDiscovery.Specification
