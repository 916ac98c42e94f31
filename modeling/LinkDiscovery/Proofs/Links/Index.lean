import LinkDiscovery.Links.Index
import LinkDiscovery.Proofs.Links.Lookup
/-!
The index of links by confidence. It holds every link under the confidence of the link and nothing else, so
that no confidence stands there without a source and no source without a target. A cut can therefore be
read off the index, although the index arranges confidences by their bits and a cut compares them as
numbers.
-/

namespace LinkDiscovery

namespace Score

/-- Different doubles have different places. -/
theorem rank_injective : Function.Injective rank := by
  intro x y h
  rw [← Float.toBits_inj, ← UInt64.toNat_inj]
  simp only [rank, Int.ofNat_eq_natCast] at h
  split at h <;> split at h <;> omega

theorem compareOn_rank_eq_iff {x y : Float} : compareOn rank x y = .eq ↔ x = y := by
  rw [compareOn, compare_eq_iff_eq, rank_injective.eq_iff]

instance : Std.LawfulEqCmp (compareOn rank) where
  compare_self := compareOn_rank_eq_iff.mpr rfl
  eq_of_compare := compareOn_rank_eq_iff.mp

end Score

namespace Links

namespace Index

/-- The targets that a source has under a confidence. -/
def targets (index : Index) (c : Float) (source : String) : Std.ExtTreeSet String :=
  (index.getD c ∅).getD source ∅

/-- The link is found under its confidence. -/
def Holds (index : Index) (l : Link) : Prop :=
  l.target ∈ index.targets l.confidence l.source

/-- All links of an index, by confidence, then by source and then by target. -/
def links (index : Index) : List Link :=
  index.toList.flatMap fun (c, sources) =>
    sources.toList.flatMap fun (s, targets) =>
      targets.toList.map fun t => { source := s, target := t, confidence := c }

/-- No confidence leads to an empty row, and no source to an empty set of targets. -/
def Filled (index : Index) : Prop :=
  ∀ (c : Float) (sources : Std.ExtTreeMap String (Std.ExtTreeSet String)), index[c]? = some sources →
    sources ≠ ∅ ∧ ∀ (s : String) (targets : Std.ExtTreeSet String), sources[s]? = some targets →
      targets ≠ ∅

variable {index : Index} {l l' : Link}

/-! One link more. -/

theorem targets_add (index : Index) (l : Link) (c : Float) (s : String) :
    (index.add l).targets c s =
      if l.confidence = c ∧ l.source = s then (index.targets c s).insert l.target
      else index.targets c s := by
  simp only [targets, add, Std.ExtTreeMap.getD_insert, Score.compareOn_rank_eq_iff]
  by_cases hc : l.confidence = c
  · subst hc
    by_cases hs : l.source = s
    · subst hs
      simp
    · simp [Std.ExtTreeMap.getD_insert, hs]
  · simp [hc]

theorem holds_add : (index.add l).Holds l' ↔ l' = l ∨ index.Holds l' := by
  obtain ⟨s, t, c⟩ := l
  obtain ⟨s', t', c'⟩ := l'
  simp only [Holds, targets_add, Link.mk.injEq]
  split
  · rename_i h
    obtain ⟨rfl, rfl⟩ := h
    simp [Std.ExtTreeSet.mem_insert, eq_comm (a := t')]
  · rename_i h
    rw [or_iff_right]
    rintro ⟨rfl, -, rfl⟩
    exact h ⟨rfl, rfl⟩

theorem Filled.add (h : index.Filled) (l : Link) : (index.add l).Filled := by
  intro c sources hc
  rw [Index.add, Std.ExtTreeMap.getElem?_insert] at hc
  split at hc
  · obtain rfl := Option.some.inj hc
    refine ⟨Std.ExtTreeMap.insert_ne_empty, fun s targets hs => ?_⟩
    rw [Std.ExtTreeMap.getElem?_insert] at hs
    split at hs
    · obtain rfl := Option.some.inj hs
      exact Std.ExtTreeSet.insert_ne_empty
    · -- a source that was there before had its targets under this confidence already
      cases hold : index[l.confidence]? with
      | none => simp [Std.ExtTreeMap.getD_eq_getD_getElem?, hold] at hs
      | some known =>
          rw [Std.ExtTreeMap.getD_eq_getD_getElem?, hold] at hs
          exact (h _ known hold).2 s targets hs
  · exact h c sources hc

/-! All links. -/

theorem holds_addAll {ls : List Link} : (ls.foldl add index).Holds l ↔ l ∈ ls ∨ index.Holds l := by
  induction ls generalizing index with
  | nil => simp
  | cons l' ls ih => rw [List.foldl_cons, ih, holds_add, List.mem_cons, or_left_comm, or_assoc]

theorem mem_links : l ∈ index.links ↔ index.Holds l := by
  obtain ⟨s, t, c⟩ := l
  simp only [links, List.mem_flatMap, List.mem_map, Prod.exists, Link.mk.injEq, Holds, targets,
    Std.ExtTreeMap.mem_toList_iff_getElem?_eq_some, Std.ExtTreeSet.mem_toList,
    Std.ExtTreeMap.getD_eq_getD_getElem?]
  constructor
  · rintro ⟨c, sources, hc, s, ts, hs, t, ht, rfl, rfl, rfl⟩
    simpa [hc, hs] using ht
  · intro ht
    cases hc : index[c]? with
    | none => simp [hc] at ht
    | some sources =>
        cases hs : sources[s]? with
        | none => simp [hc, hs] at ht
        | some ts => exact ⟨c, sources, hc, s, ts, hs, t, by simpa [hc, hs] using ht, rfl, rfl, rfl⟩

theorem links_nodup (index : Index) : index.links.Nodup := by
  rw [links, List.Nodup, List.pairwise_flatMap]
  constructor
  · rintro ⟨c, sources⟩ -
    rw [List.pairwise_flatMap]
    constructor
    · rintro ⟨s, ts⟩ -
      rw [List.pairwise_map]
      exact ts.distinct_toList.imp fun h heq => compare_ne_eq h (Link.mk.inj heq).2.1
    · refine sources.distinct_keys_toList.imp ?_
      rintro ⟨s, ts⟩ ⟨s', ts'⟩ h l hl l' hl' heq
      obtain ⟨t, -, rfl⟩ := List.mem_map.mp hl
      obtain ⟨t', -, rfl⟩ := List.mem_map.mp hl'
      exact compare_ne_eq h (Link.mk.inj heq).1
  · refine index.distinct_keys_toList.imp ?_
    rintro ⟨c, sources⟩ ⟨c', sources'⟩ h l hl l' hl' heq
    simp only [List.mem_flatMap, List.mem_map] at hl hl'
    obtain ⟨s, -, t, -, rfl⟩ := hl
    obtain ⟨s', -, t', -, rfl⟩ := hl'
    exact h (Score.compareOn_rank_eq_iff.mpr (Link.mk.inj heq).2.2)

end Index

variable {m : Links} {s t : String} {c : Float}

theorem holds_index {l : Link} : m.index.Holds l ↔ l ∈ m.links := by
  have hnone : ¬ (∅ : Index).Holds l := by simp [Index.Holds, Index.targets]
  rw [index, Index.holds_addAll, or_iff_left hnone]

/-- A pair is found under the confidence that it is linked with. -/
theorem holds_index_iff :
    m.index.Holds { source := s, target := t, confidence := c } ↔ m.find? s t = some c :=
  holds_index.trans mem_links

theorem filled_index (m : Links) : m.index.Filled := by
  refine List.foldlRecOn _ _ (fun c sources hc => ?_) fun _ h l _ => h.add l
  simp at hc

/-- The index of links holds exactly the links. Each linked pair is found under one confidence, the
confidences stand in the order of all doubles, none of them leads to an empty row and no source to an
empty set of targets; and the links that a cut keeps are those found under confidences that reach its
threshold. -/
theorem index_exact (m : Links) (threshold : Float) :
    m.index.links.Perm m.links ∧
      (∀ s t, m.contains s t ↔ ∃! c, m.index.Holds { source := s, target := t, confidence := c }) ∧
      m.index.keys.Pairwise (fun a b => Score.rank a < Score.rank b) ∧
      m.index.Filled ∧
      ∀ s t c, (m.atLeast threshold).find? s t = some c ↔
        threshold ≤ c ∧ m.index.Holds { source := s, target := t, confidence := c } := by
  refine ⟨?_, fun s t => ?_, ?_, m.filled_index, fun s t c => ?_⟩
  · have hnodup : m.links.Nodup := by
      refine m.links_pairwise.imp ?_
      rintro l _ h rfl
      exact h ⟨rfl, rfl⟩
    refine (List.perm_ext_iff_of_nodup m.index.links_nodup hnodup).mpr fun l => ?_
    rw [Index.mem_links, holds_index]
  · simp only [holds_index_iff, contains, Option.isSome_iff_exists]
    constructor
    · rintro ⟨c, hc⟩
      exact ⟨c, hc, fun c' hc' => Option.some.inj (hc'.symm.trans hc)⟩
    · rintro ⟨c, hc, -⟩
      exact ⟨c, hc⟩
  · exact m.index.ordered_keys.imp fun h => compare_lt_iff_lt.mp h
  · rw [find?_atLeast, holds_index_iff, Option.bind_eq_some_iff]
    constructor
    · rintro ⟨c', hc, h⟩
      split at h
      · rename_i hle
        obtain rfl := Option.some.inj h
        exact ⟨hle, hc⟩
      · cases h
    · rintro ⟨hle, hc⟩
      exact ⟨c, hc, if_pos hle⟩

/-- The two zeros are different confidences of the index, and a cut at one of them keeps the links of
both. -/
example :
    let m := ofList [⟨"s", "t", 0⟩, ⟨"s", "u", -0⟩, ⟨"r", "t", -1⟩]
    m.index.keys.map Decimal.plain = ["-1", "-0", "0"] ∧
      (m.atLeast 0).links.map (fun l => (l.target, Decimal.plain l.confidence)) =
        [("t", "0"), ("u", "-0")] := by
  decide +kernel

end Links

end LinkDiscovery
