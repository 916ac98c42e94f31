import LinkDiscovery.Proofs.Links.Lattice
import LinkDiscovery.Proofs.Links.Reversal
/-!
Links that are equal. What is compared are rows, a size and a predicate, and the rows show more than the
links do: a source may have a row without any targets. Apart from the sources with such rows, the links
and the predicate determine everything, and no operation that builds its result link by link leaves an
empty row.
-/

namespace LinkDiscovery

/-! Maps. -/

/-- Maps are compared by their sizes and by the values under the keys of one of them. -/
theorem treeMap_beq {β : Type} [BEq β] (m n : Std.ExtTreeMap String β) :
    m == n ↔ m.size = n.size ∧ ∀ (k : String) (v : β), m[k]? = some v → n[k]? == some v := by
  simp only [← Std.ExtTreeMap.mem_toList_iff_getElem?_eq_some]
  rcases m with ⟨⟨m⟩⟩
  rcases n with ⟨⟨n⟩⟩
  induction m using Quotient.inductionOn with
  | _ m =>
      induction n using Quotient.inductionOn with
      | _ n =>
          change Std.DTreeMap.Internal.Impl.Const.beq m.inner n.inner = true ↔
            m.inner.size = n.inner.size ∧
              ∀ k v, (k, v) ∈ Std.DTreeMap.Internal.Impl.Const.toList m.inner →
                (Std.DTreeMap.Internal.Impl.Const.get? n.inner k == some v) = true
          rw [Std.DTreeMap.Internal.Impl.Const.beq,
            Std.DTreeMap.Internal.Impl.all_eq_all_toListModel,
            Std.DTreeMap.Internal.Impl.Const.toList_eq_toListModel_map]
          simp [Sigma.forall]

theorem isSome_of_beq {β : Type} [BEq β] {a b : Option β} (h : a == b) : a.isSome ↔ b.isSome := by
  cases a <;> cases b <;> simp_all

/-- Maps are equal if and only if each key has equal values in them, or none in both. -/
theorem treeMap_beq_iff {β : Type} [BEq β] {m n : Std.ExtTreeMap String β} :
    m == n ↔ ∀ k : String, n[k]? == m[k]? := by
  rw [treeMap_beq, ← Std.ExtTreeMap.length_keys, ← Std.ExtTreeMap.length_keys]
  have hkeys (l : Std.ExtTreeMap String β) (k : String) : k ∈ l.keys ↔ l[k]?.isSome := by
    rw [Std.ExtTreeMap.mem_keys, Std.ExtTreeMap.mem_iff_isSome_getElem?]
  constructor
  · rintro ⟨hlength, hvalues⟩ k
    have hsubset : m.keys ⊆ n.keys := by
      intro k hk
      obtain ⟨v, hv⟩ := Option.isSome_iff_exists.mp ((hkeys m k).mp hk)
      exact (hkeys n k).mpr ((isSome_of_beq (hvalues k v hv)).mpr rfl)
    -- as many keys, so the second map has no key that the first one lacks
    have hperm : m.keys.Perm n.keys :=
      (m.nodup_keys.subperm hsubset).perm_of_length_le hlength.ge
    cases hk : m[k]? with
    | some v => exact hvalues k v hk
    | none =>
        have hnone : n[k]? = none := by
          rw [← Option.not_isSome_iff_eq_none, ← hkeys, ← hperm.mem_iff, hkeys, hk]
          simp
        rw [hnone]
        rfl
  · intro h
    have hperm : m.keys.Perm n.keys := by
      refine (List.perm_ext_iff_of_nodup m.nodup_keys n.nodup_keys).mpr fun k => ?_
      rw [hkeys, hkeys, isSome_of_beq (h k)]
    exact ⟨hperm.length_eq, fun k v hk => hk ▸ h k⟩

namespace Links

open Score

variable {m n r : Links} {s t : String}

/-! Equal links. -/

theorem row_beq_iff :
    n.rows[s]? == m.rows[s]? ↔
      (s ∈ m.rows ↔ s ∈ n.rows) ∧ ∀ t, m.find? s t == n.find? s t := by
  simp only [Std.ExtTreeMap.mem_iff_isSome_getElem?, find?]
  cases hm : m.rows[s]? <;> cases hn : n.rows[s]? <;> simp [treeMap_beq_iff]

theorem beq_iff_rows :
    m == n ↔ m.rows == n.rows ∧ m.size = n.size ∧ m.predicate = n.predicate := by
  obtain ⟨rows, size, p⟩ := m
  obtain ⟨rows', size', p'⟩ := n
  change (rows == rows' && (size == size' && p == p')) = true ↔ _
  simp

theorem SameLinks.contains_iff (h : m.SameLinks n) : m.contains s t ↔ n.contains s t :=
  isSome_of_beq (h s t)

theorem SameLinks.size_eq (h : m.SameLinks n) (hm : m.Sized) (hn : n.Sized) : m.size = n.size := by
  rw [hm, hn, ← length_pairs]
  exact length_eq_links m.pairs_nodup fun s t => mem_pairs.trans h.contains_iff

theorem Numeric.sameLinks (hm : m.Numeric) (h : ∀ s t, m.find? s t = n.find? s t) :
    m.SameLinks n := by
  intro s t
  rw [← h]
  exact (beq_iff_degree (hm s t) (hm s t)).mpr rfl

/-- The sources whose row links nothing. -/
def emptyRows (m : Links) : Set String :=
  { s | s ∈ m.rows ∧ ∀ t, ¬ m.contains s t }

theorem mem_rows_iff : s ∈ m.rows ↔ (∃ t, m.contains s t) ∨ s ∈ m.emptyRows := by
  constructor
  · intro hs
    by_cases h : ∃ t, m.contains s t
    · exact .inl h
    · exact .inr ⟨hs, not_exists.mp h⟩
  · rintro (⟨t, ht⟩ | ⟨hs, -⟩)
    · exact mem_rows_of_contains ht
    · exact hs

theorem Regular.emptyRows_eq (h : m.Regular) : m.emptyRows = ∅ := by
  refine Set.eq_empty_of_forall_notMem ?_
  rintro s ⟨hs, hnone⟩
  obtain ⟨t, ht⟩ := h.rows s hs
  exact hnone t ht

/-- A row with targets does not leave an empty row. -/
theorem Regular.addRow (h : m.Regular) (source : String) {row : Row} (hrow : row ≠ ∅) :
    (m.addRow source row).Regular := by
  refine ⟨h.sized.addRow source row, fun s hs => ?_⟩
  rcases mem_rows_addRow hs with rfl | hs
  · obtain ⟨t, ht⟩ : ∃ t, t ∈ row := by
      simpa [Std.ExtTreeMap.eq_empty_iff_forall_not_mem] using hrow
    exact ⟨t, (contains_addRow _ _).mpr (.inl ⟨rfl, ht⟩)⟩
  · obtain ⟨t, ht⟩ := h.rows s hs
    exact ⟨t, (contains_addRow _ _).mpr (.inr ht)⟩

/-- Links are equal if they have the same predicate, the same links and the same empty rows. -/
theorem Sized.beq_iff (hm : m.Sized) (hn : n.Sized) :
    m == n ↔ m.predicate = n.predicate ∧ m.SameLinks n ∧ m.emptyRows = n.emptyRows := by
  rw [beq_iff_rows, treeMap_beq_iff]
  simp only [row_beq_iff, forall_and]
  constructor
  · rintro ⟨⟨hrows, hsame⟩, -, hpredicate⟩
    refine ⟨hpredicate, hsame, ?_⟩
    ext s
    simp only [emptyRows, Set.mem_ofPred_eq, hrows, SameLinks.contains_iff hsame]
  · rintro ⟨hpredicate, hsame, hempty⟩
    refine ⟨⟨fun s => ?_, hsame⟩, hsame.size_eq hm hn, hpredicate⟩
    rw [mem_rows_iff, mem_rows_iff, hempty]
    simp only [hsame.contains_iff]

/-- Links built anew from the same links are equal to the old ones if those have no empty row. -/
theorem Regular.beq_iff (hr : r.Regular) (hm : m.Sized) (hnumeric : m.Numeric)
    (hpredicate : r.predicate = m.predicate) (h : ∀ s t, r.find? s t = m.find? s t) :
    r == m ↔ m.emptyRows = ∅ := by
  have hsame : r.SameLinks m :=
    Numeric.sameLinks (fun s t => (h s t).symm ▸ hnumeric s t) h
  rw [hr.sized.beq_iff hm, hr.emptyRows_eq, and_iff_right hpredicate, and_iff_right hsame, eq_comm]

/-! Written as JSON and read back. -/

/-- The number that a confidence is written as is read as this confidence. -/
def ReadsBack (c : Float) : Prop :=
  ∀ levels, Json.Decoder.float levels (.ofFloat c) = some c

theorem treeMap_foldl_toList {β : Type} (m : Std.ExtTreeMap String β) :
    m.toList.foldl (fun n p => n.insert p.1 p.2) (∅ : Std.ExtTreeMap String β) = m := by
  rw [← Std.ExtTreeMap.ofList_eq_foldl]
  refine Std.ExtTreeMap.ext_getElem? fun k => ?_
  cases hk : m[k]? with
  | some v =>
      exact Std.ExtTreeMap.getElem?_ofList_of_mem Std.ReflCmp.compare_self m.distinct_keys_toList
        (Std.ExtTreeMap.mem_toList_iff_getElem?_eq_some.mpr hk)
  | none =>
      refine Std.ExtTreeMap.getElem?_ofList_of_contains_eq_false ?_
      rw [Std.ExtTreeMap.map_fst_toList_eq_keys, ← Bool.not_eq_true, List.contains_iff_mem,
        Std.ExtTreeMap.mem_keys, Std.ExtTreeMap.mem_iff_isSome_getElem?, hk]
      simp

theorem entries_object {α β : Type} {decode : Json.Decoder β} {levels : ℕ}
    {xs : List (String × α)} (encode : α → Json) (value : α → β)
    (h : ∀ x ∈ xs, decode levels (encode x.2) = some (value x.2)) :
    Json.Decoder.entries decode (levels + 1) (.object (xs.map fun x => (x.1, encode x.2))) =
      some (xs.map fun x => (x.1, value x.2)) := by
  induction xs with
  | nil => rfl
  | cons x xs ih =>
      obtain ⟨hx, hxs⟩ := List.forall_mem_cons.mp h
      have ih := ih hxs
      simp only [Json.Decoder.entries] at ih ⊢
      simp [List.mapM_cons, hx, ih]

/-- A row as it is written. -/
def rowJson (row : Row) : Json :=
  .object (row.toList.map fun p => (p.1, .ofFloat p.2))

theorem entries_rowJson {levels : ℕ} {row : Row}
    (h : ∀ p ∈ row.toList, ReadsBack p.2) :
    Json.Decoder.entries Json.Decoder.float (levels + 1) (rowJson row) = some row.toList := by
  refine (entries_object Json.ofFloat id fun p hp => h p hp levels).trans ?_
  simp

/-- What is read back are the links, built anew. -/
theorem ofJson?_toJson (levels : ℕ) (h : ∀ l ∈ m.links, ReadsBack l.confidence) :
    ofJson? (levels + 3) m.toJson = some ((withPredicate m.predicate).addAll m.links) := by
  have hfields : Json.fields? ["predicate", "links"] m.toJson =
      some [some (.string m.predicate),
        some (.object (m.rows.toList.map fun r => (r.1, rowJson r.2)))] := by
    simp [Json.fields?, toJson, rowJson]
  have hrows : Json.Decoder.entries (Json.Decoder.entries Json.Decoder.float) (levels + 2)
      (.object (m.rows.toList.map fun r => (r.1, rowJson r.2))) =
        some (m.rows.toList.map fun r => (r.1, r.2.toList)) := by
    refine entries_object rowJson Std.ExtTreeMap.toList fun r hr => entries_rowJson fun p hp => ?_
    exact h ⟨r.1, p.1, p.2⟩ (List.mem_flatMap.mpr ⟨r, hr, List.mem_map.mpr ⟨p, hp, rfl⟩⟩)
  have hbuilt : (m.rows.toList.map fun r => (r.1, r.2.toList)).foldl
      (fun (rows : Std.ExtTreeMap String Row) r =>
        rows.insert r.1 (r.2.foldl (fun (row : Row) p => row.insert p.1 p.2) ∅)) ∅ = m.rows := by
    simp only [List.foldl_map, treeMap_foldl_toList]
  simp only [ofJson?, hfields, Json.defaulted, Json.Decoder.text, hrows, hbuilt, bind, Option.bind]
  rfl

/-! What links hold determines them. -/

theorem numeric_of_finite (h : ∀ l ∈ m.links, l.confidence.isFinite = true) : m.Numeric :=
  fun s t c hc => number_of_finite (h ⟨s, t, c⟩ (mem_links.mpr hc))

/-- Whatever operations links with finite confidences come out of: written as JSON and read back, or
reversed twice, they are equal to what they were if and only if no source has an empty row; and links
of the same predicate that link the same pairs alike are equal if and only if the same sources have
empty rows. -/
theorem equality_exact (hm : m.Reachable) (hfinite : ∀ l ∈ m.links, l.confidence.isFinite = true) :
    ((∀ l ∈ m.links, ReadsBack l.confidence) →
        ∃ r, ofJson? Json.maxLevels m.toJson = some r ∧ (r == m ↔ m.emptyRows = ∅)) ∧
      (m.reverse.reverse == m ↔ m.emptyRows = ∅) ∧
      ∀ n : Links, n.Reachable → m.predicate = n.predicate → m.SameLinks n →
        (m == n ↔ m.emptyRows = n.emptyRows) := by
  have hnumeric := numeric_of_finite hfinite
  refine ⟨fun hreads => ?_, ?_, fun n hn hpredicate hsame => ?_⟩
  · refine ⟨_, ofJson?_toJson 124 hreads, ?_⟩
    refine ((regular_withPredicate _).addAll _).beq_iff hm.sized hnumeric ?_ fun s t => ?_
    · rw [predicate_addAll]
      rfl
    · rw [find?_addAll m.links_pairwise, find?_withPredicate, none_merged, lookup_links]
  · refine (regular_reverse _).beq_iff hm.sized hnumeric ?_ fun s t => ?_
    · rw [predicate_reverse, predicate_reverse]
    · rw [find?_reverse, find?_reverse]
  · rw [hm.sized.beq_iff hn.sized, and_iff_right hpredicate, and_iff_right hsame]

/-- The same links, one by one and as a row. -/
theorem equality_exact_sample :
    let m := ofList [⟨"s", "u", 1⟩, ⟨"s", "t", 0.5⟩]
    let n := empty.addRow "s" (((∅ : Row).insert "t" 0.5).insert "u" 1)
    (∃ r, ofJson? Json.maxLevels m.toJson = some r ∧ r == m) ∧ m.reverse.reverse == m ∧ m == n := by
  intro m n
  have hlinks : m.links = [⟨"s", "t", 0.5⟩, ⟨"s", "u", 1⟩] := rfl
  have hreads : ∀ l ∈ m.links, ReadsBack l.confidence := by
    rw [hlinks, List.forall_mem_cons, List.forall_mem_singleton]
    exact ⟨fun _ => rfl, fun _ => rfl⟩
  have hfinite : ∀ l ∈ m.links, l.confidence.isFinite = true := by
    rw [hlinks, List.forall_mem_cons, List.forall_mem_singleton]
    exact ⟨rfl, rfl⟩
  have hm : m.emptyRows = ∅ := (regular_ofList _).emptyRows_eq
  have hn : n.emptyRows = ∅ :=
    ((regular_withPredicate sameAs).addRow "s" Std.ExtTreeMap.insert_ne_empty).emptyRows_eq
  have hsame : m.SameLinks n := by
    refine (numeric_of_finite hfinite).sameLinks fun s t => ?_
    rw [← lookup_links, ← lookup_links]
    rfl
  obtain ⟨hread, hreverse, hother⟩ := equality_exact (.ofList _) hfinite
  obtain ⟨r, hr, hequal⟩ := hread hreads
  exact ⟨⟨r, hr, hequal.mpr hm⟩, hreverse.mpr hm,
    (hother n (.addRow .empty "s" _) rfl hsame).mpr (hm.trans hn.symm)⟩

/-- A source with an empty row: the links are those of the empty set, and they are not equal to it,
nor to what is read back, nor to what is left after reversing them twice. -/
theorem emptyRow_unequal :
    let m := empty.addRow "s" ∅
    m.Reachable ∧ m.links = [] ∧ m.predicate = empty.predicate ∧
      (∃ r, ofJson? Json.maxLevels m.toJson = some r ∧ (r == m) = false) ∧
        (m.reverse.reverse == m) = false ∧ (empty == m) = false := by
  refine ⟨.addRow .empty "s" ∅, rfl, rfl, ⟨empty, rfl, ?_⟩, ?_, ?_⟩
  · decide +kernel
  · decide +kernel
  · decide +kernel

end Links

end LinkDiscovery
