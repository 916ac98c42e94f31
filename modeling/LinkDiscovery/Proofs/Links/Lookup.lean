import LinkDiscovery.Links.Algebra
import LinkDiscovery.Links.Selection
import Mathlib
/-!
What operations on links do to a single pair of entities: its confidence afterwards depends on its
confidence before alone.
-/

namespace LinkDiscovery

/-- Two maps are equal if they have the same keys and, under each of them, the same value. -/
theorem treeMap_ext {α : Type} {m n : Std.ExtTreeMap String α} (hmem : ∀ k, k ∈ m ↔ k ∈ n)
    (h : ∀ (k : String) (a b : α), m[k]? = some a → n[k]? = some b → a = b) : m = n := by
  refine Std.ExtTreeMap.ext_getElem? fun k => ?_
  have hk := hmem k
  rw [Std.ExtTreeMap.mem_iff_isSome_getElem?, Std.ExtTreeMap.mem_iff_isSome_getElem?] at hk
  cases ha : m[k]? with
  | none =>
      rw [ha] at hk
      exact (Option.not_isSome_iff_eq_none.mp (mt hk.mpr (by simp))).symm
  | some a =>
      rw [ha] at hk
      obtain ⟨b, hb⟩ := Option.isSome_iff_exists.mp (hk.mp rfl)
      rw [hb, h k a b ha hb]

theorem values_eq_map_toList {β : Type} (m : Std.ExtTreeMap String β) :
    m.values = m.toList.map Prod.snd := by
  rcases m with ⟨⟨m⟩⟩
  induction m using Quotient.inductionOn with
  | _ m =>
      change Std.DTreeMap.Internal.Impl.values m.inner =
        (Std.DTreeMap.Internal.Impl.Const.toList m.inner).map Prod.snd
      rw [Std.DTreeMap.Internal.Impl.values_eq_map_snd,
        Std.DTreeMap.Internal.Impl.Const.toList_eq_toListModel_map]
      simp

namespace Links

/-- Two links of different pairs. -/
def DifferentPairs (a b : Link) : Prop :=
  ¬ (a.source = b.source ∧ a.target = b.target)

/-- The confidence that a list of links gives to a pair. -/
def lookup (ls : List Link) (source target : String) : Option Float :=
  (ls.find? fun l => l.source = source ∧ l.target = target).map (·.confidence)

/-- The confidence of a pair that is added to another confidence of it. -/
def merged : Option Float → Option Float → Option Float
  | none, c => c
  | some c, none => some c
  | some old, some c => some (if old < c then c else old)

variable {m : Links} {s t : String}

@[simp]
theorem merged_none (c : Option Float) : merged c none = c := by
  cases c <;> rfl

@[simp]
theorem none_merged (c : Option Float) : merged none c = c := rfl

theorem merged_some {c : Float} (hc : c.isNaN = false) (d : Float) :
    merged (some c) (some d) = some (Score.larger c d) := by
  simp only [merged, Score.larger, hc, Bool.or_false, decide_eq_true_eq]

@[simp]
theorem find?_withPredicate (p : String) : (withPredicate p).find? s t = none := by
  simp [withPredicate, find?]

@[simp]
theorem find?_empty : empty.find? s t = none :=
  find?_withPredicate sameAs

theorem getElem?_row (m : Links) (s t : String) : (m.rows.getD s ∅)[t]? = m.find? s t := by
  rw [Std.ExtTreeMap.getD_eq_getD_getElem?, find?]
  cases m.rows[s]? <;> simp

theorem find?_insertRow (rows : Std.ExtTreeMap String Row) (source : String) (row : Row)
    (size : ℕ) (p : String) :
    (Links.mk (rows.insert source row) size p).find? s t =
      if source = s then row[t]? else (Links.mk rows size p).find? s t := by
  by_cases h : source = s <;> simp [find?, Std.ExtTreeMap.getElem?_insert, h]

/-- Adding a link changes the confidence of its own pair only. -/
theorem find?_add (source target : String) (c : Float) :
    (m.add source target c).find? s t =
      if source = s ∧ target = t then merged (m.find? s t) (some c) else m.find? s t := by
  obtain ⟨rows, size, p⟩ := m
  have hrow (t) : (rows.getD source ∅)[t]? = (Links.mk rows size p).find? source t :=
    getElem?_row (.mk rows size p) source t
  have hinsert (size) : (Links.mk (rows.insert source ((rows.getD source ∅).insert target c)) size
      p).find? s t =
        if source = s ∧ target = t then some c else (Links.mk rows size p).find? s t := by
    rw [find?_insertRow]
    by_cases hs : source = s
    · subst hs
      by_cases ht : target = t <;> simp [Std.ExtTreeMap.getElem?_insert, ht, hrow, find?]
    · simp [hs, find?]
  -- each way to end gives the pair the merged confidence and leaves the others as they are
  have hend {d : Option Float}
      (hd : merged ((Links.mk rows size p).find? source target) (some c) = d) :
      (if source = s ∧ target = t then d else (Links.mk rows size p).find? s t) =
        if source = s ∧ target = t then merged ((Links.mk rows size p).find? s t) (some c)
        else (Links.mk rows size p).find? s t := by
    split
    · rename_i h
      obtain ⟨rfl, rfl⟩ := h
      exact hd.symm
    · rfl
  simp only [add, hrow]
  cases hold : (Links.mk rows size p).find? source target with
  | none =>
      simp only [hinsert]
      exact hend (by rw [hold]; rfl)
  | some old =>
      by_cases hlt : old < c
      · simp only [hlt, if_true, hinsert]
        exact hend (by simp [hold, merged, hlt])
      · simp only [hlt, if_false]
        rw [← hend (d := some old) (by simp [hold, merged, hlt])]
        split
        · rename_i h
          obtain ⟨rfl, rfl⟩ := h
          exact hold
        · rfl

/-- What holds of all confidences goes on to hold when a link with such a confidence is added. -/
theorem forall_find?_add {P : Float → Prop} (h : ∀ s t, ∀ c ∈ m.find? s t, P c) {c : Float}
    (hc : P c) (source target : String) :
    ∀ s t, ∀ d ∈ (m.add source target c).find? s t, P d := by
  intro s t d hd
  rw [find?_add] at hd
  split at hd
  · cases hold : m.find? s t with
    | none =>
        rw [hold] at hd
        obtain rfl := Option.some.inj hd
        exact hc
    | some old =>
        rw [hold] at hd
        obtain rfl := Option.some.inj hd
        split
        · exact hc
        · exact h s t old hold
  · exact h s t d hd

theorem forall_find?_addAll {P : Float → Prop} {ls : List Link}
    (h : ∀ s t, ∀ c ∈ m.find? s t, P c) (hls : ∀ l ∈ ls, P l.confidence) :
    ∀ s t, ∀ c ∈ (m.addAll ls).find? s t, P c := by
  induction ls generalizing m with
  | nil => exact h
  | cons l ls ih =>
      obtain ⟨hl, hls⟩ := List.forall_mem_cons.mp hls
      exact ih (forall_find?_add h hl l.source l.target) hls

/-! Lists of links. -/

theorem lookup_cons (l : Link) (ls : List Link) :
    lookup (l :: ls) s t =
      if l.source = s ∧ l.target = t then some l.confidence else lookup ls s t := by
  by_cases h : l.source = s ∧ l.target = t
  · simp [lookup, h]
  · simp only [lookup, List.find?_cons, decide_eq_false h, if_neg h]

theorem lookup_eq_none {ls : List Link} (h : ∀ l ∈ ls, ¬ (l.source = s ∧ l.target = t)) :
    lookup ls s t = none := by
  simpa [lookup] using h

theorem lookup_eq_some {ls : List Link} (hls : ls.Pairwise DifferentPairs) {c : Float} :
    lookup ls s t = some c ↔ { source := s, target := t, confidence := c } ∈ ls := by
  induction ls with
  | nil => simp [lookup]
  | cons l ls ih =>
      obtain ⟨hl, hls⟩ := List.pairwise_cons.mp hls
      rw [lookup_cons, List.mem_cons]
      by_cases h : l.source = s ∧ l.target = t
      · obtain ⟨rfl, rfl⟩ := h
        have hnot : { source := l.source, target := l.target, confidence := c } ∉ ls :=
          fun hmem => hl _ hmem ⟨rfl, rfl⟩
        obtain ⟨source, target, confidence⟩ := l
        simp [hnot, eq_comm]
      · rw [if_neg h, ih hls]
        have hne : ({ source := s, target := t, confidence := c } : Link) ≠ l := by
          rintro rfl
          exact h ⟨rfl, rfl⟩
        simp [hne]

/-- Adding links of different pairs. -/
theorem find?_addAll {ls : List Link} (hls : ls.Pairwise DifferentPairs) (m : Links) :
    (m.addAll ls).find? s t = merged (m.find? s t) (lookup ls s t) := by
  induction ls generalizing m with
  | nil => simp [addAll, lookup]
  | cons l ls ih =>
      obtain ⟨hl, hls⟩ := List.pairwise_cons.mp hls
      change ((m.addLink l).addAll ls).find? s t = _
      rw [ih hls, addLink, find?_add, lookup_cons]
      split
      · rename_i h
        obtain ⟨rfl, rfl⟩ := h
        rw [lookup_eq_none fun l' hl' h => hl l' hl' ⟨h.1.symm, h.2.symm⟩, merged_none]
      · rfl

/-- The links of a list to which a confidence is given. -/
def chosen (ls : List Link) (score : Link → Option Float) : List Link :=
  ls.filterMap fun l => (score l).map fun c => { l with confidence := c }

theorem chosen_pairwise {ls : List Link} (hls : ls.Pairwise DifferentPairs)
    (score : Link → Option Float) : (chosen ls score).Pairwise DifferentPairs := by
  refine List.Pairwise.filterMap _ ?_ hls
  intro a b hab a' ha' b' hb'
  obtain ⟨ca, -, rfl⟩ := Option.map_eq_some_iff.mp ha'
  obtain ⟨cb, -, rfl⟩ := Option.map_eq_some_iff.mp hb'
  exact hab

theorem lookup_chosen {ls : List Link} (hls : ls.Pairwise DifferentPairs)
    (score : Link → Option Float) :
    lookup (chosen ls score) s t =
      (lookup ls s t).bind fun c => score { source := s, target := t, confidence := c } := by
  apply Option.ext
  intro c
  rw [lookup_eq_some (chosen_pairwise hls score), Option.bind_eq_some_iff]
  simp only [chosen, List.mem_filterMap, Option.map_eq_some_iff]
  constructor
  · rintro ⟨⟨s', t', c'⟩, hl, c'', hc, heq⟩
    obtain ⟨rfl, rfl, rfl⟩ := Link.mk.inj heq
    exact ⟨c', (lookup_eq_some hls).mpr hl, hc⟩
  · rintro ⟨c', hl, hc⟩
    exact ⟨_, (lookup_eq_some hls).mp hl, c, hc, rfl⟩

/-! The links of a set. -/

theorem compare_ne_eq {a b : String} (h : ¬ compare a b = .eq) : a ≠ b := by
  rintro rfl
  simp at h

theorem targets_pairwise (row : Row) : row.toList.Pairwise fun a b => a.1 ≠ b.1 :=
  row.distinct_keys_toList.imp compare_ne_eq

theorem links_pairwise (m : Links) : m.links.Pairwise DifferentPairs := by
  rw [links, linksOf, List.pairwise_flatMap]
  constructor
  · rintro ⟨source, row⟩ -
    rw [List.pairwise_map]
    exact (targets_pairwise row).imp fun h hsame => h hsame.2
  · refine m.rows.distinct_keys_toList.imp ?_
    rintro ⟨source, row⟩ ⟨source', row'⟩ h l hl l' hl' hsame
    obtain ⟨_, -, rfl⟩ := List.mem_map.mp hl
    obtain ⟨_, -, rfl⟩ := List.mem_map.mp hl'
    exact compare_ne_eq h hsame.1

theorem lookup_links (m : Links) : lookup m.links s t = m.find? s t := by
  apply Option.ext
  intro c
  rw [lookup_eq_some m.links_pairwise, find?, Option.bind_eq_some_iff, links, linksOf,
    List.mem_flatMap]
  constructor
  · rintro ⟨⟨source, row⟩, hrow, hl⟩
    obtain ⟨⟨target, c'⟩, hc, heq⟩ := List.mem_map.mp hl
    obtain ⟨rfl, rfl, rfl⟩ := Link.mk.inj heq
    exact ⟨row, Std.ExtTreeMap.mem_toList_iff_getElem?_eq_some.mp hrow,
      Std.ExtTreeMap.mem_toList_iff_getElem?_eq_some.mp hc⟩
  · rintro ⟨row, hrow, hc⟩
    exact ⟨(s, row), Std.ExtTreeMap.mem_toList_iff_getElem?_eq_some.mpr hrow,
      List.mem_map.mpr ⟨(t, c), Std.ExtTreeMap.mem_toList_iff_getElem?_eq_some.mpr hc, rfl⟩⟩

theorem mem_links {l : Link} : l ∈ m.links ↔ m.find? l.source l.target = some l.confidence := by
  rw [← lookup_links, lookup_eq_some m.links_pairwise]

/-- Choosing links adds the chosen ones to none. -/
theorem select_eq_addAll (m : Links) (score : Link → Option Float) :
    m.select score = (withPredicate m.predicate).addAll (chosen m.links score) := by
  rw [select, addAll, chosen, List.foldl_filterMap]
  congr 1
  funext out l
  cases score l <;> rfl

/-- Choosing links changes confidences one by one. -/
theorem find?_select (m : Links) (score : Link → Option Float) :
    (m.select score).find? s t =
      (m.find? s t).bind fun c => score { source := s, target := t, confidence := c } := by
  rw [select_eq_addAll, find?_addAll (chosen_pairwise m.links_pairwise score), find?_withPredicate,
    none_merged, lookup_chosen m.links_pairwise, lookup_links]

/-- Adding a row changes the pairs of its source only. -/
theorem find?_addRow (m : Links) (source : String) (row : Row) :
    (m.addRow source row).find? s t =
      if source = s then merged (m.find? s t) row[t]? else m.find? s t := by
  cases hrow : m.rows[source]? with
  | none =>
      have hnone (t) : m.find? source t = none := by simp [find?, hrow]
      obtain ⟨rows, size, p⟩ := m
      simp only [addRow, hrow, find?_insertRow]
      by_cases hs : source = s
      · subst hs
        simp [hnone]
      · simp [hs, find?]
  | some known =>
      -- a row that is known already is added link by link, as links of different targets
      obtain ⟨ls, hls⟩ : ∃ ls, (row.toList.map fun p =>
          ({ source, target := p.1, confidence := p.2 } : Link)) = ls := ⟨_, rfl⟩
      have hadd : m.addRow source row = m.addAll ls := by
        simp only [addRow, hrow, ← hls, addAll, List.foldl_map, addLink]
        exact Std.ExtTreeMap.foldl_eq_foldl_toList
      have hpairwise : ls.Pairwise DifferentPairs := by
        rw [← hls, List.pairwise_map]
        exact (targets_pairwise row).imp fun h hsame => h hsame.2
      rw [hadd, find?_addAll hpairwise]
      have hlookup : lookup ls s t = if source = s then row[t]? else none := by
        apply Option.ext
        intro c
        rw [lookup_eq_some hpairwise, ← hls]
        by_cases hs : source = s <;> simp [hs]
      rw [hlookup]
      split <;> simp

/-- Rows of different sources are added one by one. -/
theorem find?_foldl_addRow {rows : List (String × Row)}
    (hrows : rows.Pairwise fun a b => ¬ compare a.1 b.1 = .eq) (m : Links) :
    (rows.foldl (fun out r => out.addRow r.1 r.2) m).find? s t =
      merged (m.find? s t) ((rows.find? fun r => r.1 = s).bind (·.2[t]?)) := by
  induction rows generalizing m with
  | nil => simp
  | cons r rows ih =>
      obtain ⟨hr, hrows⟩ := List.pairwise_cons.mp hrows
      rw [List.foldl_cons, ih hrows, find?_addRow]
      by_cases hs : r.1 = s
      · have hnone : rows.find? (fun r => r.1 = s) = none := by
          rw [List.find?_eq_none]
          intro r' hr' heq
          exact compare_ne_eq (hr r' hr') (hs.trans (of_decide_eq_true heq).symm)
        simp [hs, hnone]
      · simp [hs]

theorem find?_toList (rows : Std.ExtTreeMap String Row) :
    ((rows.toList.find? fun r => r.1 = s).bind (·.2[t]?)) = rows[s]?.bind (·[t]?) := by
  cases hfind : rows.toList.find? fun r => r.1 = s with
  | none =>
      cases hrow : rows[s]? with
      | none => rfl
      | some row =>
          have hmem := Std.ExtTreeMap.mem_toList_iff_getElem?_eq_some.mpr hrow
          exact absurd (by simp) (List.find?_eq_none.mp hfind _ hmem)
  | some r =>
      have hmem := List.mem_of_find?_eq_some hfind
      have hs : r.1 = s := by simpa using List.find?_some hfind
      subst hs
      rw [Std.ExtTreeMap.mem_toList_iff_getElem?_eq_some.mp hmem]
      rfl

/-- A pair takes the larger one of its confidences in a union. -/
theorem find?_union (m other : Links) :
    (m.union other).find? s t = merged (m.find? s t) (other.find? s t) := by
  rw [union, Std.ExtTreeMap.foldl_eq_foldl_toList,
    find?_foldl_addRow other.rows.distinct_keys_toList, find?_toList]
  rfl

theorem find?_intersection (m other : Links) :
    (m.intersection other).find? s t =
      (m.find? s t).bind fun c => (other.find? s t).map (Score.smaller c) := by
  rw [intersection, find?_select]

theorem find?_difference (m other : Links) :
    (m.difference other).find? s t = if other.contains s t then none else m.find? s t := by
  rw [difference, find?_select]
  cases m.find? s t <;> cases h : other.contains s t <;> simp [h]

theorem find?_symmetricDifference (m other : Links) :
    (m.symmetricDifference other).find? s t =
      match m.find? s t, other.find? s t with
      | some _, some _ => none
      | some c, none => some c
      | none, c => c := by
  rw [symmetricDifference, find?_union, find?_difference, find?_difference, contains, contains]
  cases m.find? s t <;> cases other.find? s t <;> rfl

theorem find?_atLeast (m : Links) (threshold : Float) :
    (m.atLeast threshold).find? s t =
      (m.find? s t).bind fun c => if threshold ≤ c then some c else none := by
  rw [atLeast, find?_select]

end Links

end LinkDiscovery
