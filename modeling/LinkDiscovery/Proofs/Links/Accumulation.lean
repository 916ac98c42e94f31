import LinkDiscovery.Proofs.Links.Lattice
import LinkDiscovery.Proofs.Links.Size
/-!
Links put together from a list: one by one, in rows, or as unions of parts. Each way gathers, for each
pair, the confidences that the list has for it, and keeps the largest one of them, so that neither the
order nor the grouping shows in the end.
-/

namespace LinkDiscovery.Links

open Score

/-- The largest one of some confidences, if there are any. -/
structure IsLargest (cs : Set Float) (c : Option Float) : Prop where
  isSome_iff : c.isSome ↔ cs.Nonempty
  greatest : ∀ x ∈ c, IsGreatest cs x

theorem isLargest_none : IsLargest ∅ none where
  isSome_iff := by simp
  greatest := by simp

theorem isLargest_some {x : Float} (hx : x.isNaN = false) : IsLargest {x} (some x) where
  isSome_iff := by simp
  greatest := by
    rintro _ ⟨⟩
    refine ⟨rfl, ?_⟩
    rintro _ rfl
    exact le_self hx

/-- At most one confidence is the largest one of itself. -/
theorem isLargest_self {c : Option Float} (hc : ∀ x ∈ c, x.isNaN = false) :
    IsLargest { x | x ∈ c } c := by
  cases c with
  | none => simpa using isLargest_none
  | some x => simpa [eq_comm] using isLargest_some (hc x rfl)

namespace IsLargest

variable {cs ds : Set Float} {c d : Option Float}

theorem eq_empty (h : IsLargest cs none) : cs = ∅ :=
  Set.not_nonempty_iff_eq_empty.mp (mt h.isSome_iff.mpr (by simp))

/-- What is merged from the largest confidences of two sets is the largest one of both. -/
theorem merged (hc : IsLargest cs c) (hd : IsLargest ds d) :
    IsLargest (cs ∪ ds) (merged c d) := by
  cases c with
  | none =>
      rw [hc.eq_empty, Set.empty_union]
      exact hd
  | some x =>
      cases d with
      | none =>
          rw [hd.eq_empty, Set.union_empty]
          exact hc
      | some y =>
          have hx := hc.greatest x rfl
          have hlarger := isGreatest_larger hx (hd.greatest y rfl)
          rw [merged_some (number_of_le_left (hx.2 hx.1))]
          refine ⟨iff_of_true rfl ⟨_, hlarger.1⟩, ?_⟩
          rintro _ ⟨⟩
          exact hlarger

/-- The largest confidence is determined as a number. -/
theorem beq (hc : IsLargest cs c) (hd : IsLargest cs d) : c == d := by
  have hsome : c.isSome ↔ d.isSome := hc.isSome_iff.trans hd.isSome_iff.symm
  cases c with
  | none => cases d <;> simp_all
  | some x =>
      cases d with
      | none => simp at hsome
      | some y =>
          have hx := hc.greatest x rfl
          have hy := hd.greatest y rfl
          exact beq_of_le_of_le (hy.2 hx.1) (hx.2 hy.1)

end IsLargest

/-! What a list has for a pair. -/

/-- The confidences that a list of links has for a pair. -/
def listed (ls : List Link) (s t : String) : Set Float :=
  { c | { source := s, target := t, confidence := c } ∈ ls }

/-- The links of a row. -/
def rowLinks (source : String) (row : Row) : List Link :=
  row.toList.map fun (target, confidence) => { source, target, confidence }

/-- A set of links has what a list has, for each pair with the largest confidence listed. -/
def Holds (m : Links) (ls : List Link) : Prop :=
  ∀ s t, IsLargest (listed ls s t) (m.find? s t)

variable {m n : Links} {ls ks : List Link} {s t : String}

theorem listed_nil : listed [] s t = ∅ := by
  simp [listed]

theorem listed_append : listed (ls ++ ks) s t = listed ls s t ∪ listed ks s t := by
  ext c
  simp [listed]

theorem listed_perm (h : ls.Perm ks) : listed ls s t = listed ks s t := by
  ext c
  exact h.mem_iff

theorem listed_cons (l : Link) :
    listed (l :: ls) s t =
      listed ls s t ∪ if l.source = s ∧ l.target = t then {l.confidence} else ∅ := by
  ext c
  obtain ⟨source, target, confidence⟩ := l
  by_cases h : source = s ∧ target = t
  · obtain ⟨rfl, rfl⟩ := h
    simp [listed]
  · have hne : ({ source := s, target := t, confidence := c } : Link) ≠
        { source, target, confidence } := by
      rintro ⟨⟩
      exact h ⟨rfl, rfl⟩
    rw [if_neg h, Set.union_empty]
    exact List.mem_cons.trans (or_iff_right hne)

theorem listed_rowLinks (source : String) (row : Row) :
    listed (rowLinks source row) s t = if source = s then { c | c ∈ row[t]? } else ∅ := by
  ext c
  by_cases h : source = s <;> simp [listed, rowLinks, h]

namespace Holds

theorem withPredicate (p : String) : (withPredicate p).Holds [] := by
  intro s t
  rw [find?_withPredicate, listed_nil]
  exact isLargest_none

theorem perm (h : m.Holds ls) (hperm : ls.Perm ks) : m.Holds ks := by
  intro s t
  rw [← listed_perm hperm]
  exact h s t

theorem addLink (h : m.Holds ls) {l : Link} (hl : l.confidence.isNaN = false) :
    (m.addLink l).Holds (l :: ls) := by
  intro s t
  rw [Links.addLink, find?_add, listed_cons]
  split
  · exact (h s t).merged (isLargest_some hl)
  · rw [Set.union_empty]
    exact h s t

theorem addAll (h : m.Holds ls) (hks : ∀ l ∈ ks, l.confidence.isNaN = false) :
    (m.addAll ks).Holds (ks ++ ls) := by
  induction ks generalizing m ls with
  | nil => exact h
  | cons l ks ih =>
      obtain ⟨hl, hks⟩ := List.forall_mem_cons.mp hks
      exact (ih (h.addLink hl) hks).perm List.perm_middle

theorem addRow (h : m.Holds ls) {source : String} {row : Row}
    (hrow : ∀ l ∈ rowLinks source row, l.confidence.isNaN = false) :
    (m.addRow source row).Holds (ls ++ rowLinks source row) := by
  intro s t
  rw [find?_addRow, listed_append, listed_rowLinks]
  split
  · refine (h s t).merged (isLargest_self fun c hc => ?_)
    exact hrow { source, target := t, confidence := c } (List.mem_map.mpr
      ⟨(t, c), Std.ExtTreeMap.mem_toList_iff_getElem?_eq_some.mpr hc, rfl⟩)
  · rw [Set.union_empty]
    exact h s t

theorem union (h : m.Holds ls) (hn : n.Holds ks) : (m.union n).Holds (ls ++ ks) := by
  intro s t
  rw [find?_union, listed_append]
  exact (h s t).merged (hn s t)

theorem contains_iff (h : m.Holds ls) :
    m.contains s t ↔ (s, t) ∈ ls.map fun l => (l.source, l.target) := by
  rw [contains, (h s t).isSome_iff, List.mem_map]
  constructor
  · rintro ⟨c, hc⟩
    exact ⟨_, hc, rfl⟩
  · rintro ⟨l, hl, ⟨⟩⟩
    exact ⟨l.confidence, hl⟩

/-- Links whose number is kept right have as many as a list has different pairs. -/
theorem size_eq (h : m.Holds ls) (hm : m.Sized) :
    m.size = (ls.map fun l => (l.source, l.target)).toFinset.card := by
  rw [hm, List.card_toFinset]
  refine (length_eq_links (List.nodup_dedup _) fun s t => ?_).symm
  rw [List.mem_dedup, h.contains_iff]

end Holds

/-! Ways to put a list of links together. -/

/-- Sets of links that a list can be put in: link by link, row by row, or in parts that are joined by
unions, each in any order. -/
inductive Accumulated : List Link → Links → Prop
  | withPredicate (predicate : String) : Accumulated [] (.withPredicate predicate)
  | ofList (ls : List Link) : Accumulated ls (.ofList ls)
  | add {ls : List Link} {m : Links} (h : Accumulated ls m) (source target : String) (c : Float) :
      Accumulated (⟨source, target, c⟩ :: ls) (m.add source target c)
  | addRow {ls : List Link} {m : Links} (h : Accumulated ls m) (source : String) (row : Row) :
      Accumulated (ls ++ rowLinks source row) (m.addRow source row)
  | union {ls ks : List Link} {m n : Links} (h : Accumulated ls m) (hn : Accumulated ks n) :
      Accumulated (ls ++ ks) (m.union n)
  | perm {ls ks : List Link} {m : Links} (h : Accumulated ls m) (hperm : ls.Perm ks) :
      Accumulated ks m

namespace Accumulated

theorem reachable (h : Accumulated ls m) : m.Reachable := by
  induction h with
  | withPredicate predicate => exact .withPredicate predicate
  | ofList ls => exact .ofList ls
  | add _ source target c ih => exact .add ih source target c
  | addRow _ source row ih => exact .addRow ih source row
  | union _ _ ih ihn => exact .union ih ihn
  | perm _ _ ih => exact ih

theorem holds (h : Accumulated ls m) (hls : ∀ l ∈ ls, l.confidence.isNaN = false) :
    m.Holds ls := by
  induction h with
  | withPredicate predicate => exact .withPredicate predicate
  | ofList ls =>
      have hofList := (Holds.withPredicate sameAs).addAll hls
      rwa [List.append_nil] at hofList
  | add _ source target c ih =>
      obtain ⟨hc, hls⟩ := List.forall_mem_cons.mp hls
      exact (ih hls).addLink (l := ⟨source, target, c⟩) hc
  | addRow _ source row ih =>
      obtain ⟨hls, hrow⟩ := List.forall_mem_append.mp hls
      exact (ih hls).addRow hrow
  | union _ _ ih ihn =>
      obtain ⟨hls, hks⟩ := List.forall_mem_append.mp hls
      exact (ih hls).union (ihn hks)
  | perm _ hperm ih => exact (ih fun l hl => hls l (hperm.mem_iff.mp hl)).perm hperm

/-- Two ways to put a list together come to the same links. -/
theorem sameLinks (hm : Accumulated ls m) (hn : Accumulated ls n)
    (hls : ∀ l ∈ ls, l.confidence.isNaN = false) : m.SameLinks n :=
  fun s t => (hm.holds hls s t).beq (hn.holds hls s t)

end Accumulated

/-- However a list of links whose confidences are numbers is put together, the pairs of the list are
linked and no others, each with the largest confidence listed for it, and the size is the number of
different pairs. -/
theorem accumulated_exact (h : Accumulated ls m) (hls : ∀ l ∈ ls, l.confidence.isNaN = false) :
    (∀ s t, (m.contains s t ↔ ∃ c, { source := s, target := t, confidence := c } ∈ ls) ∧
        ∀ c ∈ m.find? s t,
          IsGreatest { d | { source := s, target := t, confidence := d } ∈ ls } c) ∧
      m.size = (ls.map fun l => (l.source, l.target)).toFinset.card :=
  ⟨fun s t => ⟨(h.holds hls s t).isSome_iff, (h.holds hls s t).greatest⟩,
    (h.holds hls).size_eq h.reachable.sized⟩

/-- A pair listed twice, and a pair with both zeros for confidences, in a row and in two parts. -/
theorem accumulated_exact_sample :
    let row : Row := ((∅ : Row).insert "t" 0.75).insert "u" (-0)
    let m := ((ofList [⟨"s", "u", 0⟩, ⟨"s", "t", 0.5⟩]).addRow "s" row).union (empty.add "r" "t" 1)
    let ls : List Link :=
      [⟨"r", "t", 1⟩, ⟨"s", "u", -0⟩, ⟨"s", "t", 0.75⟩, ⟨"s", "t", 0.5⟩, ⟨"s", "u", 0⟩]
    Accumulated ls m ∧ m.find? "s" "t" = some 0.75 ∧
      IsGreatest { c | { source := "s", target := "t", confidence := c } ∈ ls } 0.75 ∧
      m.size = 3 := by
  intro row m ls
  have hrow : rowLinks "s" row = [⟨"s", "t", 0.75⟩, ⟨"s", "u", -0⟩] := rfl
  have hparts := (Accumulated.ofList [⟨"s", "u", 0⟩, ⟨"s", "t", 0.5⟩]).addRow "s" row |>.union
    ((Accumulated.withPredicate sameAs).add "r" "t" 1)
  rw [hrow] at hparts
  have h : Accumulated ls m := hparts.perm (List.reverse_perm _).symm
  have hfind : m.find? "s" "t" = some 0.75 := rfl
  obtain ⟨hpairs, hsize⟩ := accumulated_exact h (by decide +kernel)
  exact ⟨h, hfind, (hpairs "s" "t").2 _ hfind, hsize⟩

end LinkDiscovery.Links
