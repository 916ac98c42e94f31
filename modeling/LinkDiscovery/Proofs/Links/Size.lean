import LinkDiscovery.Links.Json
import LinkDiscovery.Proofs.Links.Lookup
/-!
The number of links that is kept along with them. Each operation changes it by the number of pairs
that become linked, so that after any operations it is the number of links that are there.
-/

namespace LinkDiscovery.Links

/-- The kept number of links is right. -/
def Sized (m : Links) : Prop :=
  m.size = m.links.length

/-- The pairs that are linked. -/
def pairs (m : Links) : List (String × String) :=
  m.links.map fun l => (l.source, l.target)

variable {m other : Links}

/-! The links as a list of different pairs. -/

theorem mem_pairs {s t : String} : (s, t) ∈ m.pairs ↔ m.contains s t := by
  rw [pairs, List.mem_map, contains, ← lookup_links, Option.isSome_iff_exists]
  simp only [lookup_eq_some m.links_pairwise, Prod.mk.injEq]
  constructor
  · rintro ⟨l, hl, rfl, rfl⟩
    exact ⟨l.confidence, hl⟩
  · rintro ⟨c, hl⟩
    exact ⟨_, hl, rfl, rfl⟩

theorem pairs_nodup (m : Links) : m.pairs.Nodup := by
  rw [pairs, List.Nodup, List.pairwise_map]
  refine m.links_pairwise.imp fun h heq => h ?_
  simpa using heq

@[simp]
theorem length_pairs (m : Links) : m.pairs.length = m.links.length := by
  simp [pairs]

/-- A list of the linked pairs without repetition is as long as the list of the links. -/
theorem length_eq_links {ps : List (String × String)} (hps : ps.Nodup)
    (h : ∀ s t, (s, t) ∈ ps ↔ m.contains s t) : ps.length = m.links.length := by
  rw [← length_pairs]
  exact ((List.perm_ext_iff_of_nodup hps m.pairs_nodup).mpr fun p =>
    (h p.1 p.2).trans mem_pairs.symm).length_eq

/-- The links, counted row by row. -/
theorem count_eq (m : Links) : m.count = m.links.length := by
  have hcount (rs : List (String × Row)) (n : ℕ) :
      rs.foldl (fun n r => n + r.2.size) n = n + (rs.map (·.2.size)).sum := by
    induction rs generalizing n with
    | nil => rfl
    | cons r rs ih => simp [ih, Nat.add_assoc]
  rw [count, Std.ExtTreeMap.foldl_eq_foldl_toList, hcount, links, linksOf, List.length_flatMap]
  simp

/-! Single links and rows. -/

theorem contains_add (source target : String) (c : Float) {s t : String} :
    (m.add source target c).contains s t ↔ (s, t) = (source, target) ∨ m.contains s t := by
  rw [contains, find?_add, contains, Prod.mk.injEq, eq_comm (a := s), eq_comm (a := t)]
  split
  · rename_i h
    cases m.find? s t <;> simp [merged, h]
  · rename_i h
    simp [h]

theorem contains_addRow (source : String) (row : Row) {s t : String} :
    (m.addRow source row).contains s t ↔ (source = s ∧ t ∈ row) ∨ m.contains s t := by
  rw [contains, find?_addRow, contains, Std.ExtTreeMap.mem_iff_isSome_getElem?]
  split
  · rename_i h
    cases m.find? s t <;> cases row[t]? <;> simp [merged, h]
  · rename_i h
    simp [h]

theorem contains_union (m other : Links) {s t : String} :
    (m.union other).contains s t ↔ m.contains s t ∨ other.contains s t := by
  rw [contains, contains, contains, find?_union]
  cases m.find? s t <;> cases other.find? s t <;> simp [merged]

theorem size_add (source target : String) (c : Float) :
    (m.add source target c).size = if m.contains source target then m.size else m.size + 1 := by
  cases hold : m.find? source target with
  | none => simp [add, contains, getElem?_row, hold]
  | some old =>
      simp only [add, contains, getElem?_row, hold]
      split <;> rfl

theorem Sized.add (h : m.Sized) (source target : String) (c : Float) :
    (m.add source target c).Sized := by
  rw [Sized, size_add]
  split
  · rename_i hknown
    rw [h, ← length_pairs]
    refine length_eq_links m.pairs_nodup fun s t => ?_
    rw [mem_pairs, contains_add, or_iff_right_of_imp]
    rintro ⟨⟩
    exact hknown
  · rename_i hnew
    have hnodup : ((source, target) :: m.pairs).Nodup :=
      List.nodup_cons.mpr ⟨fun hmem => hnew (mem_pairs.mp hmem), m.pairs_nodup⟩
    rw [h, ← length_pairs, ← List.length_cons]
    refine length_eq_links hnodup fun s t => ?_
    rw [List.mem_cons, mem_pairs, contains_add]

theorem Sized.addRow (h : m.Sized) (source : String) (row : Row) :
    (m.addRow source row).Sized := by
  cases hrow : m.rows[source]? with
  | some known =>
      simp only [Links.addRow, hrow, Std.ExtTreeMap.foldl_eq_foldl_toList]
      exact List.foldlRecOn _ _ h fun _ h _ _ => h.add _ _ _
  | none =>
      have hnone (t : String) : m.contains source t = false := by simp [contains, find?, hrow]
      have hmem (s t : String) : (s, t) ∈ row.keys.map (source, ·) ↔ s = source ∧ t ∈ row := by
        rw [List.mem_map, eq_comm (a := s)]
        constructor
        · rintro ⟨t', ht', ⟨⟩⟩
          exact ⟨rfl, Std.ExtTreeMap.mem_keys.mp ht'⟩
        · rintro ⟨rfl, ht⟩
          exact ⟨t, Std.ExtTreeMap.mem_keys.mpr ht, rfl⟩
      -- the row is taken as it is, and none of its pairs was linked before
      have hnodup : (row.keys.map (source, ·) ++ m.pairs).Nodup := by
        refine List.Nodup.append ?_ m.pairs_nodup ?_
        · exact row.nodup_keys.map fun _ _ heq => (Prod.mk.inj heq).2
        · rintro ⟨s, t⟩ hs hold
          obtain ⟨rfl, -⟩ := (hmem s t).mp hs
          rw [mem_pairs, hnone] at hold
          cases hold
      have hlength : (row.keys.map (source, ·) ++ m.pairs).length =
          (m.addRow source row).links.length := by
        refine length_eq_links hnodup fun s t => ?_
        rw [List.mem_append, hmem, mem_pairs, contains_addRow, eq_comm (a := s)]
      rw [Sized, ← hlength, List.length_append, List.length_map, Std.ExtTreeMap.length_keys,
        length_pairs, ← h, Nat.add_comm, Links.addRow, hrow]

/-! Operations that build links one by one. -/

theorem sized_withPredicate (p : String) : (withPredicate p).Sized := rfl

theorem Sized.addAll (h : m.Sized) (ls : List Link) : (m.addAll ls).Sized :=
  List.foldlRecOn _ _ h fun _ h _ _ => h.add _ _ _

theorem sized_select (m : Links) (score : Link → Option Float) : (m.select score).Sized := by
  refine List.foldlRecOn _ _ (sized_withPredicate _) fun _ h l _ => ?_
  cases score l with
  | none => exact h
  | some c => exact h.add _ _ _

theorem Sized.union (h : m.Sized) (other : Links) : (m.union other).Sized := by
  rw [Links.union, Std.ExtTreeMap.foldl_eq_foldl_toList]
  exact List.foldlRecOn _ _ h fun _ h _ _ => h.addRow _ _

theorem sized_reverse (m : Links) : m.reverse.Sized :=
  List.foldlRecOn _ _ (sized_withPredicate _) fun _ h _ _ => h.add _ _ _

theorem Sized.scale (h : m.Sized) (divisor : Float) : (m.scale divisor).Sized := by
  rw [Links.scale]
  split
  · exact h
  · exact sized_select _ _

theorem sized_ofJson? {levels : ℕ} {json : Json} (h : ofJson? levels json = some m) :
    m.Sized := by
  cases levels with
  | zero => cases h
  | succ levels =>
      simp only [ofJson?, Option.bind_eq_bind, Option.bind_eq_some_iff] at h
      obtain ⟨fields, -, h⟩ := h
      split at h
      · simp only [Option.bind_eq_some_iff] at h
        obtain ⟨p, -, rows, -, ⟨⟩⟩ := h
        exact (sized_withPredicate p).addAll _
      · cases h

/-- The sizes of two parts without a common pair add up. -/
theorem Sized.size_add_size {a b : Links} (h : m.Sized) (ha : a.Sized) (hb : b.Sized)
    (hdisjoint : ∀ s t, a.contains s t → ¬ b.contains s t)
    (hparts : ∀ s t, m.contains s t ↔ a.contains s t ∨ b.contains s t) :
    a.size + b.size = m.size := by
  have hnodup : (a.pairs ++ b.pairs).Nodup := by
    refine a.pairs_nodup.append b.pairs_nodup ?_
    rintro ⟨s, t⟩ hs ht
    exact hdisjoint s t (mem_pairs.mp hs) (mem_pairs.mp ht)
  have hlength : (a.pairs ++ b.pairs).length = m.links.length := by
    refine length_eq_links hnodup fun s t => ?_
    rw [List.mem_append, mem_pairs, mem_pairs, hparts]
  rw [h, ha, hb, ← hlength, List.length_append, length_pairs, length_pairs]

/-! Any operations in a row. -/

/-- Links that come out of any operations in a row, each on links that came out before. -/
inductive Reachable : Links → Prop
  | empty : Reachable .empty
  | withPredicate (predicate : String) : Reachable (.withPredicate predicate)
  | ofList (ls : List Link) : Reachable (.ofList ls)
  | ofJson? {m : Links} (levels : ℕ) (json : Json) (h : ofJson? levels json = some m) :
      Reachable m
  | add {m : Links} (h : Reachable m) (source target : String) (c : Float) :
      Reachable (m.add source target c)
  | addRow {m : Links} (h : Reachable m) (source : String) (row : Row) :
      Reachable (m.addRow source row)
  | clear {m : Links} (h : Reachable m) : Reachable m.clear
  | setPredicate {m : Links} (h : Reachable m) (predicate : String) :
      Reachable (m.setPredicate predicate)
  | union {m other : Links} (h : Reachable m) (hother : Reachable other) :
      Reachable (m.union other)
  | intersection {m other : Links} (h : Reachable m) (hother : Reachable other) :
      Reachable (m.intersection other)
  | difference {m other : Links} (h : Reachable m) (hother : Reachable other) :
      Reachable (m.difference other)
  | symmetricDifference {m other : Links} (h : Reachable m) (hother : Reachable other) :
      Reachable (m.symmetricDifference other)
  | atLeast {m : Links} (h : Reachable m) (threshold : Float) : Reachable (m.atLeast threshold)
  | accepted {m : Links} (h : Reachable m) (acceptance verification : Float) :
      Reachable (m.split acceptance verification).1
  | review {m : Links} (h : Reachable m) (acceptance verification : Float) :
      Reachable (m.split acceptance verification).2
  | bestTargets {m : Links} (h : Reachable m) : Reachable m.bestTargets
  | bestPairs {m : Links} (h : Reachable m) : Reachable m.bestPairs
  | reverse {m : Links} (h : Reachable m) : Reachable m.reverse
  | scale {m : Links} (h : Reachable m) (divisor : Float) : Reachable (m.scale divisor)
  | clamp {m : Links} (h : Reachable m) : Reachable m.clamp

theorem Reachable.sized (h : m.Reachable) : m.Sized := by
  induction h with
  | empty => exact sized_withPredicate _
  | withPredicate predicate => exact sized_withPredicate predicate
  | ofList ls => exact (sized_withPredicate _).addAll ls
  | ofJson? levels json h => exact sized_ofJson? h
  | add _ source target c h => exact h.add source target c
  | addRow _ source row h => exact h.addRow source row
  | clear => exact sized_withPredicate sameAs
  | setPredicate _ predicate h => exact h
  | union _ _ h => exact h.union _
  | symmetricDifference => exact (sized_select _ _).union _
  | scale _ divisor h => exact h.scale divisor
  | bestPairs | reverse => exact sized_reverse _
  | intersection | difference | atLeast | accepted | review | bestTargets | clamp =>
      exact sized_select _ _

/-- Whatever operations links come out of, their size is the number of links counted row by row and
the number of links listed, and no pair is listed twice. -/
theorem size_exact (h : m.Reachable) :
    m.size = m.count ∧ m.size = m.links.length ∧ m.links.Pairwise DifferentPairs :=
  ⟨h.sized.trans m.count_eq.symm, h.sized, m.links_pairwise⟩

/-- Links of a repeated pair and of a confidence that is no number, joined with an empty row. -/
def repeated : Links :=
  ((ofList [⟨"s", "t", 0.5⟩, ⟨"s", "t", 0.75⟩, ⟨"s", "u", 0 / 0⟩]).union (empty.addRow "r" ∅)).add
    "r" "t" 1

theorem size_exact_sample :
    repeated.size = 3 ∧ repeated.size = repeated.count ∧ repeated.size = repeated.links.length ∧
      repeated.links.Pairwise DifferentPairs := by
  have hreachable : repeated.Reachable :=
    .add (.union (.ofList _) (.addRow .empty "r" ∅)) "r" "t" 1
  exact ⟨by decide +kernel, size_exact hreachable⟩

end LinkDiscovery.Links
