import LinkDiscovery.Proofs.Double.Numbers
import LinkDiscovery.Proofs.Specification.Equality
import LinkDiscovery.Proofs.Specification.WrittenOut
/-!
The order of specifications. Although it looks at different things for leaves and for inner nodes, every
specification whose thresholds are numbers has a place in one linear order, and specifications stand to
each other as their places do. So the order is a total preorder, and sorting gives one list up to
specifications in the same place.
-/

namespace LinkDiscovery

open Ordering

section

variable {α β : Type} [LinearOrder α] [LinearOrder β] {a b : α} {x y : β} {o o' : Ordering}

theorem compare_compares (a b : α) : (Ord.compare a b).Compares a b := by
  rw [← cmp_eq_compare]
  exact cmp_compares a b

/-- Pairs are compared by what comes first, and then by what comes second. -/
theorem compares_toLex (h : o.Compares a b) (h' : a = b → o'.Compares x y) :
    (o.then o').Compares (toLex (a, x)) (toLex (b, y)) := by
  cases o with
  | lt => exact Prod.Lex.toLex_lt_toLex.mpr (.inl h)
  | gt => exact Prod.Lex.toLex_lt_toLex.mpr (.inl h)
  | eq =>
      obtain rfl : a = b := h
      have h' := h' rfl
      cases o' with
      | lt => exact Prod.Lex.toLex_lt_toLex.mpr (.inr ⟨rfl, h'⟩)
      | gt => exact Prod.Lex.toLex_lt_toLex.mpr (.inr ⟨rfl, h'⟩)
      | eq => exact congrArg (fun x => toLex (a, x)) h'

/-- Lists are compared by the first difference. -/
theorem compares_cons {as bs : List α} (h : o.Compares a b) (h' : o'.Compares as bs) :
    (o.then o').Compares (a :: as) (b :: bs) := by
  cases o with
  | lt => exact List.cons_lt_cons_iff.mpr (.inl h)
  | gt => exact List.cons_lt_cons_iff.mpr (.inl h)
  | eq =>
      obtain rfl : a = b := h
      cases o' with
      | lt => exact List.cons_lt_cons_iff.mpr (.inr ⟨rfl, h'⟩)
      | gt => exact List.cons_lt_cons_iff.mpr (.inr ⟨rfl, h'⟩)
      | eq => exact congrArg (a :: ·) h'

theorem compares_withBot (h : o.Compares a b) : o.Compares (a : WithBot α) (b : WithBot α) := by
  cases o with
  | lt => exact WithBot.coe_lt_coe.mpr h
  | gt => exact WithBot.coe_lt_coe.mpr h
  | eq => exact congrArg _ h

theorem compares_withTop (h : o.Compares a b) : o.Compares (a : WithTop α) (b : WithTop α) := by
  cases o with
  | lt => exact WithTop.coe_lt_coe.mpr h
  | gt => exact WithTop.coe_lt_coe.mpr h
  | eq => exact congrArg _ h

end

theorem Score.compare_compares {a b : Float} (ha : a.isNaN = false) (hb : b.isNaN = false) :
    (Score.compare a b).Compares (position a) (position b) := by
  have hcmp : Score.compare a b = cmp (position a) (position b) := by
    simp only [Score.compare, cmp, cmpUsing, lt_iff, ha, hb, true_and]
  rw [hcmp]
  exact cmp_compares _ _

namespace Specification

/-- The place of the text of a leaf; no text comes first. -/
def textPlace : Option String → WithBot String
  | none => ⊥
  | some text => (Text.lowerLetters text : WithBot String)

/-- The place of a leaf: by threshold and text. Leaves that ask for nothing come last. -/
def leafPlace (s : Specification) : WithTop ((ℤ ×ₗ ℤ ×ₗ ℤ) ×ₗ WithBot String) :=
  if s.isEmpty then ⊤
  else ((toLex (Score.position s.threshold, textPlace s.label.filter) : _ ×ₗ _) : WithTop _)

/-- The place of a specification: larger trees come first, then it is the operator that counts, the
number of leaves and the places of the leaves. Specifications that ask for nothing come last. -/
def place (s : Specification) : WithTop (ℕᵒᵈ ×ₗ ℕ ×ₗ ℕ ×ₗ
    List (WithTop ((ℤ ×ₗ ℤ ×ₗ ℤ) ×ₗ WithBot String))) :=
  if s.isEmpty then ⊤
  else ((toLex (OrderDual.toDual s.size, toLex (s.operatorRank, toLex (s.leaves.length,
    s.leaves.map leafPlace))) : _ ×ₗ _) : WithTop _)

theorem compareTexts_compares (a b : Option String) :
    (compareTexts a b).Compares (textPlace a) (textPlace b) := by
  cases a with
  | none =>
      cases b with
      | none => rfl
      | some b => exact WithBot.bot_lt_coe _
  | some a =>
      cases b with
      | none => exact WithBot.bot_lt_coe _
      | some b => exact compares_withBot (compare_compares (Text.lowerLetters a) (Text.lowerLetters b))

variable {a b c s t : Specification}

/-! Sizes and leaves. -/

theorem size_of_empty (h : s.isEmpty = true) : s.size = 0 := by
  obtain ⟨l, cs⟩ := s
  rw [size, if_pos h]

theorem size_eq (h : s.isEmpty = false) : s.size = 1 + sizes s.children := by
  obtain ⟨l, cs⟩ := s
  rw [size, if_neg (by simp [h])]
  rfl

theorem children_of_isLeaf (h : s.isLeaf = true) : s.children = [] :=
  List.isEmpty_iff.mp h

theorem leaves_of_isLeaf (h : s.isLeaf = true) : s.leaves = [s] := by
  obtain ⟨l, cs⟩ := s
  obtain rfl : cs = [] := children_of_isLeaf h
  rw [leaves]

theorem isLeaf_of_mem_leaves (h : t ∈ s.leaves) : t.isLeaf = true := by
  induction s using induction with
  | h l cs ih =>
      cases cs with
      | nil =>
          rw [leaves, List.mem_singleton] at h
          exact h ▸ rfl
      | cons c cs =>
          obtain ⟨d, hd, h⟩ := mem_leaves_node.mp h
          exact ih d hd h

/-! The order of places. -/

/-- A leaf with a place among leaves. -/
def RankedLeaf (s : Specification) : Prop :=
  s.isLeaf = true ∧ s.threshold.isNaN = false

/-- What gives a specification its place: the thresholds of its leaves are numbers, and it has no
operator if it is a leaf that asks for something. -/
structure Ranked (s : Specification) : Prop where
  number : ∀ t ∈ s.leaves, t.threshold.isNaN = false
  operator : s.isLeaf = true → s.isEmpty = false → s.label.operator = none

theorem compareLeaves_compares (ha : a.RankedLeaf) (hb : b.RankedLeaf) :
    (compareLeaves a b).Compares a.leafPlace b.leafPlace := by
  unfold compareLeaves leafPlace
  cases hea : a.isEmpty with
  | true =>
      rw [size_of_empty hea]
      cases heb : b.isEmpty with
      | true =>
          rw [size_of_empty heb]
          rfl
      | false =>
          rw [size_eq heb, compare_gt_iff_gt.mpr (by omega)]
          exact WithTop.coe_lt_top _
  | false =>
      rw [size_eq hea, children_of_isLeaf ha.1]
      cases heb : b.isEmpty with
      | true =>
          rw [size_of_empty heb]
          exact WithTop.coe_lt_top _
      | false =>
          rw [size_eq heb, children_of_isLeaf hb.1, compare_eq_iff_eq.mpr rfl, Ordering.eq_then]
          exact compares_withTop (compares_toLex (Score.compare_compares ha.2 hb.2) fun _ =>
            compareTexts_compares _ _)

theorem compareAll_compares {as bs : List Specification} (hlength : as.length = bs.length)
    (has : ∀ a ∈ as, a.RankedLeaf) (hbs : ∀ b ∈ bs, b.RankedLeaf) :
    (compareAll as bs).Compares (as.map leafPlace) (bs.map leafPlace) := by
  induction as generalizing bs with
  | nil =>
      obtain rfl := List.length_eq_zero_iff.mp hlength.symm
      rfl
  | cons a as ih =>
      obtain ⟨b, bs, rfl⟩ := List.exists_cons_of_length_eq_add_one hlength.symm
      obtain ⟨ha, has⟩ := List.forall_mem_cons.mp has
      obtain ⟨hb, hbs⟩ := List.forall_mem_cons.mp hbs
      exact compares_cons (compareLeaves_compares ha hb) (ih (by simpa using hlength) has hbs)

/-- Specifications stand to each other as their places do. -/
theorem cmp_compares (ha : a.Ranked) (hb : b.Ranked) : (cmp a b).Compares a.place b.place := by
  have hleaves {s : Specification} (h : s.Ranked) : ∀ t ∈ s.leaves, t.RankedLeaf :=
    fun t ht => ⟨isLeaf_of_mem_leaves ht, h.number t ht⟩
  unfold cmp place
  cases hea : a.isEmpty with
  | true =>
      rw [size_of_empty hea]
      cases heb : b.isEmpty with
      | true =>
          rw [size_of_empty heb]
          rfl
      | false =>
          rw [size_eq heb, compare_gt_iff_gt.mpr (by omega)]
          exact WithTop.coe_lt_top _
  | false =>
      cases heb : b.isEmpty with
      | true =>
          rw [size_of_empty heb, size_eq hea, compare_lt_iff_lt.mpr (by omega)]
          exact WithTop.coe_lt_top _
      | false =>
          refine compares_withTop (compares_toLex (compare_compares (OrderDual.toDual a.size)
            (OrderDual.toDual b.size)) fun _ => ?_)
          simp only [Bool.and_self, Bool.false_eq_true, if_false]
          split
          · rename_i hleaf
            obtain ⟨hal, hbl⟩ := Bool.and_eq_true_iff.mp hleaf
            have hrank {s : Specification} (hs : s.Ranked) (hleaf : s.isLeaf = true)
                (hsome : s.isEmpty = false) : s.operatorRank = 0 := by
              rw [operatorRank, hs.operator hleaf hsome]
              rfl
            have hall : (compareAll [a] [b]).Compares ([a].map leafPlace) ([b].map leafPlace) :=
              compareAll_compares rfl (leaves_of_isLeaf hal ▸ hleaves ha)
                (leaves_of_isLeaf hbl ▸ hleaves hb)
            have hone : compareAll [a] [b] = compareLeaves a b := Ordering.then_eq
            rw [hone] at hall
            -- each of the two is its only leaf
            rw [hrank ha hal hea, hrank hb hbl heb, leaves_of_isLeaf hal, leaves_of_isLeaf hbl]
            exact compares_toLex (o := .eq) rfl fun _ => compares_toLex (o := .eq) rfl fun _ => hall
          · exact compares_toLex (compare_compares _ _) fun _ =>
              compares_toLex (compare_compares _ _) fun hlength =>
                compareAll_compares hlength (hleaves ha) (hleaves hb)

theorem cmp_ne_gt_iff (ha : a.Ranked) (hb : b.Ranked) : cmp a b ≠ .gt ↔ a.place ≤ b.place := by
  rw [Ne, (cmp_compares ha hb).eq_gt, not_lt]

theorem cmp_eq_iff (ha : a.Ranked) (hb : b.Ranked) : cmp a b = .eq ↔ a.place = b.place :=
  (cmp_compares ha hb).eq_eq

/-! Sorting. -/

/-- No specification of a list comes before an earlier one. -/
def Sorted (ss : List Specification) : Prop :=
  ss.Pairwise fun a b => cmp a b ≠ .gt

theorem sorted_iff {ss : List Specification} (h : ∀ s ∈ ss, s.Ranked) :
    Sorted ss ↔ (ss.map place).Pairwise (· ≤ ·) := by
  rw [Sorted, List.pairwise_map]
  exact List.Pairwise.iff_of_mem fun ha hb => cmp_ne_gt_iff (h _ ha) (h _ hb)

theorem exists_sorted {ss : List Specification} (h : ∀ s ∈ ss, s.Ranked) :
    ∃ ts, ss.Perm ts ∧ Sorted ts := by
  have hperm := (ss.mergeSort_perm fun a b => decide (a.place ≤ b.place)).symm
  refine ⟨_, hperm, (sorted_iff fun s hs => h s (hperm.mem_iff.mpr hs)).mpr ?_⟩
  rw [List.pairwise_map]
  refine (List.pairwise_mergeSort (fun a b c hab hbc => ?_) (fun a b => ?_) ss).imp of_decide_eq_true
  · exact decide_eq_true ((of_decide_eq_true hab).trans (of_decide_eq_true hbc))
  · simpa using le_total a.place b.place

/-- Two ways to sort the same specifications put specifications in the same place at each position. -/
theorem sorted_unique {ss ts : List Specification} (h : ∀ s ∈ ss, s.Ranked) (hperm : ss.Perm ts)
    (hss : Sorted ss) (hts : Sorted ts) : List.Forall₂ (fun a b => cmp a b = .eq) ss ts := by
  have h' : ∀ t ∈ ts, t.Ranked := fun t ht => h t (hperm.mem_iff.mpr ht)
  have hplaces : ss.map place = ts.map place :=
    (hperm.map place).eq_of_pairwise (fun _ _ _ _ => le_antisymm) ((sorted_iff h).mp hss)
      ((sorted_iff h').mp hts)
  rw [← List.forall₂_eq_eq_eq, List.forall₂_map_left_iff, List.forall₂_map_right_iff,
    List.forall₂_iff_zip] at hplaces
  refine List.forall₂_iff_zip.mpr ⟨hplaces.1, fun {a b} hab => ?_⟩
  obtain ⟨ha, hb⟩ := List.of_mem_zip hab
  exact (cmp_eq_iff (h a ha) (h' b hb)).mpr (hplaces.2 hab)

/-! Specifications that are read or built. -/

/-- Trees that come out of reading texts and of building nodes, with numbers for thresholds. -/
inductive Built : Specification → Prop
  | parse {text : String} {θ : Float} {s : Specification} (hθ : θ.isNaN = false)
      (h : parse text θ = .ok s) : Built s
  | leaf (measure property₁ property₂ : String) {θ : Float} (hθ : θ.isNaN = false) :
      Built (.leaf measure property₁ property₂ θ)
  | composite (operator : Operator) {θ : Float} (hθ : θ.isNaN = false) {cs : List Specification}
      (h : ∀ c ∈ cs, Built c) : Built (.composite operator θ cs)

theorem ranked_ofOutline {o : Outline} {text : String} {θ : Float} (hfault : o.fault? text = none)
    (hθ : θ.isNaN = false) : (ofOutline o θ).Ranked := by
  induction o generalizing text θ with
  | leaf spelling call =>
      refine ⟨fun t ht => ?_, fun _ _ => rfl⟩
      obtain rfl := List.mem_singleton.mp ht
      exact hθ
  | node c left right ihl ihr =>
      obtain ⟨hc, hl, hr⟩ := Outline.fault?_node.mp hfault
      obtain ⟨hθl, hθr⟩ := Compound.thresholds_number hc hθ
      refine ⟨fun t ht => ?_, fun hleaf => absurd hleaf Bool.false_ne_true⟩
      obtain ⟨d, hd, ht⟩ := mem_leaves_node.mp ht
      rcases List.mem_pair.mp hd with rfl | rfl
      · exact (ihl hl hθl).number t ht
      · exact (ihr hr hθr).number t ht

theorem ranked_composite (operator : Operator) {θ : Float} (hθ : θ.isNaN = false)
    {cs : List Specification} (h : ∀ c ∈ cs, c.Ranked) : (composite operator θ cs).Ranked := by
  cases cs with
  | nil =>
      refine ⟨fun t ht => ?_, fun _ hsome => ?_⟩
      · obtain rfl := List.mem_singleton.mp ht
        exact hθ
      · -- a node without a text and without children asks for nothing
        simp [composite, refresh, isEmpty, label, children] at hsome
  | cons c cs =>
      refine ⟨fun t ht => ?_, fun hleaf => absurd hleaf Bool.false_ne_true⟩
      obtain ⟨d, hd, ht⟩ := mem_leaves_node.mp ht
      exact (h d hd).number t ht

theorem Built.ranked (h : s.Built) : s.Ranked := by
  induction h with
  | parse hθ h =>
      obtain ⟨o, -, hfault, rfl⟩ := parse_eq_ok.mp h
      exact ranked_ofOutline hfault hθ
  | leaf measure property₁ property₂ hθ =>
      refine ⟨fun t ht => ?_, fun _ _ => rfl⟩
      obtain rfl := List.mem_singleton.mp ht
      exact hθ
  | composite operator hθ _ ih => exact ranked_composite operator hθ ih

/-- The order of specifications that are read or built with numbers for thresholds is a total preorder:
no specification comes before itself, exchanging the sides turns a comparison round, and what does not
come after something that does not come after a third does not come after the third. So such
specifications can be sorted, and all ways to sort them agree up to equal places. -/
theorem cmp_total_preorder (ha : a.Built) (hb : b.Built) (hc : c.Built) {ss : List Specification}
    (hss : ∀ s ∈ ss, s.Built) :
    cmp a a = .eq ∧ cmp a b = (cmp b a).swap ∧
      (cmp a b ≠ .gt → cmp b c ≠ .gt → cmp a c ≠ .gt) ∧
      (∃ ts, ss.Perm ts ∧ Sorted ts) ∧
      ∀ ts us, ss.Perm ts → ss.Perm us → Sorted ts → Sorted us →
        List.Forall₂ (fun t u => cmp t u = .eq) ts us := by
  have hranked : ∀ s ∈ ss, s.Ranked := fun s hs => (hss s hs).ranked
  refine ⟨(cmp_eq_iff ha.ranked ha.ranked).mpr rfl, ?_, ?_, exists_sorted hranked, ?_⟩
  · exact (cmp_compares ha.ranked hb.ranked).inj (cmp_compares hb.ranked ha.ranked).swap
  · rw [cmp_ne_gt_iff ha.ranked hb.ranked, cmp_ne_gt_iff hb.ranked hc.ranked,
      cmp_ne_gt_iff ha.ranked hc.ranked]
    exact le_trans
  · intro ts us hts hus
    exact sorted_unique (fun t ht => hranked t (hts.mem_iff.mpr ht)) (hts.symm.trans hus)

/-- Three trees of size one: a node over leaves that ask for nothing, a sum that is read and whose terms
ask for nothing, and a leaf. -/
theorem cmp_total_preorder_sample :
    let w := Grammar.Spelling.sample .add ['A', 'd', 'd']
    let a := composite .or 0.5 [leaf "jaccard" "a" "b" 0, leaf "jaccard" "a" "b" (-1)]
    let b := ofOutline w.outline 0.5
    let c := leaf "jaccard" "a" "b" 0.5
    (a.Built ∧ b.Built ∧ c.Built ∧ ∀ s ∈ [a, b, c], s.Built) ∧
      cmp a a = .eq ∧ cmp a b = (cmp b a).swap ∧ (cmp a b ≠ .gt → cmp b c ≠ .gt → cmp a c ≠ .gt) ∧
      (∃ ts, [a, b, c].Perm ts ∧ Sorted ts) ∧
      ∀ ts us, [a, b, c].Perm ts → [a, b, c].Perm us → Sorted ts → Sorted us →
        List.Forall₂ (fun t u => cmp t u = .eq) ts us := by
  intro w a b c
  have hw : w.WrittenOut := Grammar.Spelling.sample_writtenOut rfl
  have ha : a.Built := .composite .or (by rfl) fun s hs => by
    rcases List.mem_pair.mp hs with rfl | rfl
    · exact .leaf "jaccard" "a" "b" (by rfl)
    · exact .leaf "jaccard" "a" "b" (by rfl)
  have hb : b.Built := .parse (by rfl) (hw.parse_chars 0.5).2
  have hc : c.Built := .leaf "jaccard" "a" "b" (by rfl)
  have hall : ∀ s ∈ [a, b, c], s.Built := by simp [ha, hb, hc]
  exact ⟨⟨ha, hb, hc, hall⟩, cmp_total_preorder ha hb hc hall⟩

end Specification

end LinkDiscovery
