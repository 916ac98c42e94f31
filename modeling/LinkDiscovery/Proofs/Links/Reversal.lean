import LinkDiscovery.Proofs.Links.Size
/-!
Links read backwards. Reversed links link the same pairs the other way round. Links that were built one
by one have no empty rows, and then they are determined by the confidences of all pairs.
-/

namespace LinkDiscovery

/-- The link from the target to the source. -/
def Link.reversed (l : Link) : Link where
  source := l.target
  target := l.source
  confidence := l.confidence

namespace Links

variable {m n : Links} {s t : String}

@[simp]
theorem predicate_add (m : Links) (source target : String) (c : Float) :
    (m.add source target c).predicate = m.predicate := by
  unfold add
  simp only []
  split
  · split <;> rfl
  · rfl

@[simp]
theorem predicate_addAll (m : Links) (ls : List Link) : (m.addAll ls).predicate = m.predicate := by
  induction ls generalizing m with
  | nil => rfl
  | cons l ls ih => exact (ih (m.addLink l)).trans (predicate_add ..)

@[simp]
theorem predicate_select (m : Links) (score : Link → Option Float) :
    (m.select score).predicate = m.predicate := by
  rw [select_eq_addAll, predicate_addAll]
  rfl

@[simp]
theorem predicate_addRow (m : Links) (source : String) (row : Row) :
    (m.addRow source row).predicate = m.predicate := by
  unfold addRow
  split
  · rfl
  · rw [Std.ExtTreeMap.foldl_eq_foldl_toList]
    exact List.foldlRecOn (motive := fun n : Links => n.predicate = m.predicate) _ _ rfl
      fun n h _ _ => (predicate_add ..).trans h

@[simp]
theorem predicate_union (m other : Links) : (m.union other).predicate = m.predicate := by
  rw [union, Std.ExtTreeMap.foldl_eq_foldl_toList]
  exact List.foldlRecOn (motive := fun n : Links => n.predicate = m.predicate) _ _ rfl
    fun n h _ _ => (predicate_addRow ..).trans h

@[simp]
theorem predicate_intersection (m other : Links) :
    (m.intersection other).predicate = m.predicate :=
  predicate_select ..

@[simp]
theorem predicate_atLeast (m : Links) (threshold : Float) :
    (m.atLeast threshold).predicate = m.predicate :=
  predicate_select ..

theorem reverse_eq_addAll (m : Links) :
    m.reverse = (withPredicate m.predicate).addAll (m.links.map Link.reversed) := by
  rw [reverse, addAll, List.foldl_map]
  rfl

theorem lookup_reversed (ls : List Link) :
    lookup (ls.map Link.reversed) s t = lookup ls t s := by
  induction ls with
  | nil => rfl
  | cons l ls ih => simp only [List.map_cons, lookup_cons, ih, Link.reversed, and_comm]

theorem reversed_pairwise (m : Links) : (m.links.map Link.reversed).Pairwise DifferentPairs := by
  rw [List.pairwise_map]
  exact m.links_pairwise.imp fun h hsame => h ⟨hsame.2, hsame.1⟩

@[simp]
theorem predicate_reverse (m : Links) : m.reverse.predicate = m.predicate := by
  rw [reverse_eq_addAll, predicate_addAll]
  rfl

/-- Reversed links link the same pairs the other way round. -/
theorem find?_reverse (m : Links) : m.reverse.find? s t = m.find? t s := by
  rw [reverse_eq_addAll, find?_addAll m.reversed_pairwise, find?_withPredicate, none_merged,
    lookup_reversed, lookup_links]

/-! Links without empty rows. -/

/-- The size of the links is right, and each source that has a row links something. -/
structure Regular (m : Links) : Prop where
  sized : m.Sized
  rows : ∀ s ∈ m.rows, ∃ t, m.contains s t

theorem regular_withPredicate (p : String) : (withPredicate p).Regular :=
  ⟨sized_withPredicate p, by simp [withPredicate]⟩

theorem mem_rows_add {source target : String} {c : Float}
    (h : s ∈ (m.add source target c).rows) : source = s ∨ s ∈ m.rows := by
  unfold add at h
  simp only [] at h
  split at h
  · split at h
    · simpa using h
    · exact .inr h
  · simpa using h

theorem Regular.add (h : m.Regular) (source target : String) (c : Float) :
    (m.add source target c).Regular := by
  refine ⟨h.sized.add source target c, fun s hs => ?_⟩
  rcases mem_rows_add hs with rfl | hs
  · exact ⟨target, (contains_add ..).mpr (.inl rfl)⟩
  · obtain ⟨t, ht⟩ := h.rows s hs
    exact ⟨t, (contains_add ..).mpr (.inr ht)⟩

theorem Regular.addAll (h : m.Regular) (ls : List Link) : (m.addAll ls).Regular :=
  List.foldlRecOn ls _ h fun _ h _ _ => h.add _ _ _

theorem regular_ofList (ls : List Link) : (ofList ls).Regular :=
  (regular_withPredicate sameAs).addAll ls

theorem regular_select (m : Links) (score : Link → Option Float) : (m.select score).Regular :=
  m.select_eq_addAll score ▸ (regular_withPredicate _).addAll _

theorem regular_atLeast (m : Links) (threshold : Float) : (m.atLeast threshold).Regular :=
  regular_select m _

theorem regular_intersection (m other : Links) : (m.intersection other).Regular :=
  regular_select m _

theorem regular_reverse (m : Links) : m.reverse.Regular :=
  m.reverse_eq_addAll ▸ (regular_withPredicate _).addAll _

theorem mem_rows_addRow {source : String} {row : Row} (h : s ∈ (m.addRow source row).rows) :
    source = s ∨ s ∈ m.rows := by
  cases hrow : m.rows[source]? with
  | none =>
      simp only [addRow, hrow] at h
      simpa using h
  | some known =>
      simp only [addRow, hrow, Std.ExtTreeMap.foldl_eq_foldl_toList] at h
      exact List.foldlRecOn (motive := fun n : Links => s ∈ n.rows → source = s ∨ s ∈ m.rows) _ _
        Or.inr (fun n ih r _ hs => (mem_rows_add hs).elim Or.inl ih) h

/-- A union has the rows of both sides only. -/
theorem mem_rows_union (h : s ∈ (m.union n).rows) : s ∈ m.rows ∨ s ∈ n.rows := by
  rw [union, Std.ExtTreeMap.foldl_eq_foldl_toList] at h
  refine List.foldlRecOn (motive := fun l : Links => s ∈ l.rows → s ∈ m.rows ∨ s ∈ n.rows) _ _
    Or.inl (fun l ih r hr hs => ?_) h
  rcases mem_rows_addRow hs with rfl | hs
  · exact .inr (Std.ExtTreeMap.mem_iff_isSome_getElem?.mpr
      (Std.ExtTreeMap.mem_toList_iff_getElem?_eq_some.mp hr ▸ rfl))
  · exact ih hs

theorem Regular.union (hm : m.Regular) (hn : n.Regular) : (m.union n).Regular := by
  refine ⟨hm.sized.union n, fun s hs => ?_⟩
  rcases mem_rows_union hs with hs | hs
  · obtain ⟨t, ht⟩ := hm.rows s hs
    exact ⟨t, (contains_union m n).mpr (.inl ht)⟩
  · obtain ⟨t, ht⟩ := hn.rows s hs
    exact ⟨t, (contains_union m n).mpr (.inr ht)⟩

theorem mem_rows_of_contains (h : m.contains s t) : s ∈ m.rows := by
  rw [contains, find?] at h
  rw [Std.ExtTreeMap.mem_iff_isSome_getElem?]
  cases hrow : m.rows[s]? with
  | none => simp [hrow] at h
  | some row => rfl

theorem Regular.mem_rows_iff (h : m.Regular) : s ∈ m.rows ↔ ∃ t, m.contains s t :=
  ⟨h.rows s, fun ⟨_, ht⟩ => mem_rows_of_contains ht⟩

/-- Such links are determined by the confidences of all pairs. -/
theorem Regular.ext (hm : m.Regular) (hn : n.Regular) (hpredicate : m.predicate = n.predicate)
    (h : ∀ s t, m.find? s t = n.find? s t) : m = n := by
  have hrows : m.rows = n.rows := by
    refine treeMap_ext (fun s => ?_) fun s row row' hrow hrow' => ?_
    · simp only [hm.mem_rows_iff, hn.mem_rows_iff, contains, h]
    · refine Std.ExtTreeMap.ext_getElem? fun t => ?_
      simpa only [find?, hrow, hrow', Option.bind_some] using h s t
  have hsize : m.size = n.size := by
    rw [hm.sized, hn.sized, links, links, hrows]
  obtain ⟨rows, size, p⟩ := m
  obtain ⟨rows', size', p'⟩ := n
  simp_all

end Links

end LinkDiscovery
