import LinkDiscovery.Proofs.Links.Size
/-!
The text that lists the linked pairs, one a line. The links may be met in any order; as they are sorted by
source and target before they are written, the text depends on nothing but which pairs are linked. Where no
name holds a line feed and no source a comma, the pairs can be read off it again.
-/

namespace LinkDiscovery

namespace Text

/-- The lines of a text. The last one may lack its line feed. -/
def lines (text : String) : List String :=
  let parts := text.toList.splitOn '\n'
  (if parts.getLast? = some [] then parts.dropLast else parts).map String.ofList

/-- Parts that each end with a character they do not hold are divided where it stands. -/
theorem splitOn_ended {c : Char} {parts : List (List Char)} (h : ∀ p ∈ parts, c ∉ p) :
    (parts.flatMap (· ++ [c])).splitOn c = parts ++ [[]] := by
  induction parts with
  | nil => rfl
  | cons p parts ih =>
      obtain ⟨hp, hparts⟩ := List.forall_mem_cons.mp h
      rw [List.flatMap_cons, List.append_assoc, List.singleton_append,
        List.splitOn_append_cons_self_of_not_mem hp, ih hparts, List.cons_append]

/-- Lines without line feeds of their own, each ended by one, are the lines of their text. -/
theorem lines_join {ls : List String} (h : ∀ l ∈ ls, '\n' ∉ l.toList) :
    lines (String.join (ls.map (· ++ "\n"))) = ls := by
  have htext : (String.join (ls.map (· ++ "\n"))).toList =
      (ls.map String.toList).flatMap (· ++ ['\n']) := by
    simp [String.toList_join, List.flatMap_map]
  have hparts : ∀ p ∈ ls.map String.toList, '\n' ∉ p := by simpa using h
  simp [lines, htext, splitOn_ended hparts]

end Text

namespace Links

open Text

/-- The same pairs are linked. -/
def SamePairs (m n : Links) : Prop :=
  ∀ s t, m.contains s t ↔ n.contains s t

/-- The names of the linked entities hold no line feed, and those of the sources no comma. -/
def Listable (m : Links) : Prop :=
  ∀ s t, m.contains s t → '\n' ∉ s.toList ∧ ',' ∉ s.toList ∧ '\n' ∉ t.toList

/-- The line of a pair. -/
def pairLine (p : String × String) : String :=
  p.1 ++ "," ++ p.2

variable {m n : Links} {ls ks : List Link}

/-! Sorting. -/

theorem order_isLE {a b : Link} :
    (a.order b).isLE ↔ toLex (a.source, a.target) ≤ toLex (b.source, b.target) := by
  rw [Prod.Lex.toLex_le_toLex, Link.order]
  rcases hsource : compare a.source b.source with _ | _ | _
  · simp [compare_lt_iff_lt.mp hsource]
  · have htarget : (compare a.target b.target).isLE ↔ a.target ≤ b.target :=
      Ordering.ne_gt_iff_isLE.symm.trans compare_le_iff_le
    simp [compare_eq_iff_eq.mp hsource, htarget]
  · have hgt := compare_gt_iff_gt.mp hsource
    simp [hgt.asymm, hgt.ne']

/-- The pairs of some links in the order in which they are written. -/
def sortedPairs (ls : List Link) : List (String × String) :=
  (sorted ls).map fun l => (l.source, l.target)

theorem sortedPairs_pairwise (ls : List Link) :
    (sortedPairs ls).Pairwise fun p q => toLex p ≤ toLex q := by
  rw [sortedPairs, List.pairwise_map, sorted]
  refine (List.pairwise_mergeSort (fun a b c hab hbc => ?_) (fun a b => ?_) ls).imp order_isLE.mp
  · exact order_isLE.mpr ((order_isLE.mp hab).trans (order_isLE.mp hbc))
  · rw [Bool.or_eq_true, order_isLE, order_isLE]
    exact le_total _ _

/-- In whatever order the links are met, their pairs are those that are linked. -/
theorem sortedPairs_perm (hls : ls.Perm m.links) : (sortedPairs ls).Perm m.pairs :=
  ((List.mergeSort_perm ls _).trans hls).map _

theorem mem_sortedPairs (hls : ls.Perm m.links) {s t : String} :
    (s, t) ∈ sortedPairs ls ↔ m.contains s t :=
  (sortedPairs_perm hls).mem_iff.trans mem_pairs

theorem sortedPairs_strict (hls : ls.Perm m.links) :
    (sortedPairs ls).Pairwise fun p q => toLex p < toLex q :=
  (sortedPairs_pairwise ls).imp₂ (fun _ _ hle hne => lt_of_le_of_ne hle hne)
    ((sortedPairs_perm hls).nodup_iff.mpr m.pairs_nodup)

/-- The pairs that are linked determine how they are written, whatever order they are met in. -/
theorem SamePairs.sortedPairs_eq (h : m.SamePairs n) (hls : ls.Perm m.links) (hks : ks.Perm n.links) :
    sortedPairs ls = sortedPairs ks := by
  have hpairs : m.pairs.Perm n.pairs :=
    (List.perm_ext_iff_of_nodup m.pairs_nodup n.pairs_nodup).mpr fun p =>
      mem_pairs.trans ((h p.1 p.2).trans mem_pairs.symm)
  have hperm := (sortedPairs_perm hls).trans (hpairs.trans (sortedPairs_perm hks).symm)
  -- the comparison tells different pairs apart, so that the same pairs are sorted in one way only
  exact hperm.eq_of_pairwise (fun _ _ _ _ hle hge => toLex.injective (le_antisymm hle hge))
    (sortedPairs_pairwise ls) (sortedPairs_pairwise ks)

/-! Lines. -/

theorem pairsTextOf_eq (ls : List Link) :
    pairsTextOf ls = String.join (((sortedPairs ls).map pairLine).map (· ++ "\n")) := by
  simp only [pairsTextOf, sortedPairs, List.map_map]
  rfl

/-- The first comma of a line divides source and target. -/
theorem pairLine_injective {p q : String × String} (hp : ',' ∉ p.1.toList) (hq : ',' ∉ q.1.toList)
    (h : pairLine p = pairLine q) : p = q := by
  have hlist : p.1.toList ++ ',' :: p.2.toList = q.1.toList ++ ',' :: q.2.toList := by
    simpa [pairLine] using congrArg String.toList h
  have hhead (r : String × String) (hr : ',' ∉ r.1.toList) :
      ((r.1.toList ++ ',' :: r.2.toList).splitOn ',').head? = some r.1.toList := by
    rw [List.splitOn_append_cons_self_of_not_mem hr, List.head?_cons]
  have hsource : p.1.toList = q.1.toList := by
    have hparts := hhead p hp
    rw [hlist, hhead q hq] at hparts
    exact (Option.some.inj hparts).symm
  rw [hsource, List.append_cancel_left_eq, List.cons.injEq, String.toList_inj] at hlist
  exact Prod.ext (String.toList_inj.mp hsource) hlist.2

theorem Listable.lines_pairsTextOf (h : m.Listable) (hls : ls.Perm m.links) :
    lines (pairsTextOf ls) = (sortedPairs ls).map pairLine := by
  rw [pairsTextOf_eq, lines_join]
  intro line hline
  obtain ⟨⟨s, t⟩, hp, rfl⟩ := List.mem_map.mp hline
  obtain ⟨hs, -, ht⟩ := h s t ((mem_sortedPairs hls).mp hp)
  simp [pairLine, hs, ht]

theorem Listable.contains_of_pairsTextOf (hm : m.Listable) (hn : n.Listable) (hls : ls.Perm m.links)
    (hks : ks.Perm n.links) (h : pairsTextOf ls = pairsTextOf ks) {s t : String}
    (hst : m.contains s t) : n.contains s t := by
  have hlines : (sortedPairs ls).map pairLine = (sortedPairs ks).map pairLine := by
    rw [← hm.lines_pairsTextOf hls, ← hn.lines_pairsTextOf hks, h]
  have hline : pairLine (s, t) ∈ (sortedPairs ks).map pairLine :=
    hlines ▸ List.mem_map_of_mem ((mem_sortedPairs hls).mpr hst)
  obtain ⟨⟨s', t'⟩, hmem, heq⟩ := List.mem_map.mp hline
  have hst' := (mem_sortedPairs hks).mp hmem
  obtain ⟨rfl, rfl⟩ := Prod.mk.inj (pairLine_injective (hn _ _ hst').2.1 (hm _ _ hst).2.1 heq)
  exact hst'

/-- The lines of a text are those of the linked pairs, by source and then by target, and there are as many
as there are links. -/
def WrittenAs (m : Links) (text : String) : Prop :=
  ∃ ps : List (String × String), (ps.Pairwise fun p q => toLex p < toLex q) ∧
    (∀ s t, (s, t) ∈ ps ↔ m.contains s t) ∧ lines text = ps.map pairLine ∧
      (lines text).length = m.size

theorem Listable.writtenAs (h : m.Listable) (hm : m.Reachable) (hls : ls.Perm m.links) :
    m.WrittenAs (pairsTextOf ls) := by
  have hlines := h.lines_pairsTextOf hls
  have hsize : m.size = m.links.length := hm.sized
  refine ⟨sortedPairs ls, sortedPairs_strict hls, fun _ _ => mem_sortedPairs hls, hlines, ?_⟩
  rw [hlines, List.length_map, (sortedPairs_perm hls).length_eq, length_pairs, hsize]

/-- In whatever orders the links of two sets are met, sets of the same pairs are written as the same text,
whatever else is different. Where the names can be listed, the text of links has as many lines as there
are links, one for each pair, and links of the same text have the same pairs. -/
theorem pairsText_canonical (hm : m.Reachable) (hn : n.Reachable) (hls : ls.Perm m.links)
    (hks : ks.Perm n.links) :
    (m.SamePairs n → pairsTextOf ls = pairsTextOf ks) ∧
      (m.Listable → n.Listable →
        m.WrittenAs (pairsTextOf ls) ∧ n.WrittenAs (pairsTextOf ks) ∧
          (pairsTextOf ls = pairsTextOf ks → m.SamePairs n)) := by
  refine ⟨fun h => ?_, fun h h' => ⟨h.writtenAs hm hls, h'.writtenAs hn hks, fun heq s t => ?_⟩⟩
  · rw [pairsTextOf_eq, pairsTextOf_eq, h.sortedPairs_eq hls hks]
  · exact ⟨h.contains_of_pairsTextOf h' hls hks heq, h'.contains_of_pairsTextOf h hks hls heq.symm⟩

/-- The same pairs out of different operations, under different predicates and with different
confidences, met in different orders; one source has no targets. A target may hold a comma. -/
theorem pairsText_canonical_sample :
    let m := (ofList [⟨"b", "y", 0.5⟩, ⟨"a", "z,z", 0.25⟩, ⟨"a", "x", 1⟩]).setPredicate "p"
    let n := ((empty.addRow "c" ∅).addRow "a" (((∅ : Row).insert "x" 0).insert "z,z" 0)).add "b" "y" 1
    let ls : List Link := [⟨"b", "y", 0.5⟩, ⟨"a", "x", 1⟩, ⟨"a", "z,z", 0.25⟩]
    let ks : List Link := [⟨"a", "z,z", 0⟩, ⟨"b", "y", 1⟩, ⟨"a", "x", 0⟩]
    m.Reachable ∧ n.Reachable ∧ ls.Perm m.links ∧ ks.Perm n.links ∧ m.SamePairs n ∧ m.Listable ∧
      n.Listable ∧ pairsTextOf ls = pairsTextOf ks ∧ m.WrittenAs (pairsTextOf ls) ∧
        n.WrittenAs (pairsTextOf ks) := by
  intro m n ls ks
  have hm : m.Reachable := .setPredicate (.ofList _) "p"
  have hn : n.Reachable := .add (.addRow (.addRow .empty "c" ∅) "a" _) "b" "y" 1
  have hmlinks : m.links = [⟨"a", "x", 1⟩, ⟨"a", "z,z", 0.25⟩, ⟨"b", "y", 0.5⟩] := rfl
  have hnlinks : n.links = [⟨"a", "x", 0⟩, ⟨"a", "z,z", 0⟩, ⟨"b", "y", 1⟩] := rfl
  have hls : ls.Perm m.links := by
    rw [hmlinks]
    exact (List.perm_append_singleton _ [_, _]).symm
  have hks : ks.Perm n.links := by
    rw [hnlinks]
    exact List.perm_append_singleton _ [_, _]
  have hmpairs : m.pairs = [("a", "x"), ("a", "z,z"), ("b", "y")] := by rw [pairs, hmlinks]; rfl
  have hnpairs : n.pairs = [("a", "x"), ("a", "z,z"), ("b", "y")] := by rw [pairs, hnlinks]; rfl
  have hsame : m.SamePairs n := fun s t => by rw [← mem_pairs, ← mem_pairs, hmpairs, hnpairs]
  have hlistable : m.Listable := by
    intro s t hst
    have hmem := mem_pairs.mpr hst
    rw [hmpairs] at hmem
    have hcases : s = "a" ∧ t = "x" ∨ s = "a" ∧ t = "z,z" ∨ s = "b" ∧ t = "y" := by
      simpa using hmem
    rcases hcases with ⟨rfl, rfl⟩ | ⟨rfl, rfl⟩ | ⟨rfl, rfl⟩
    all_goals decide
  have hlistable' : n.Listable := fun s t hst => hlistable s t ((hsame s t).mpr hst)
  obtain ⟨htext, hlossless⟩ := pairsText_canonical hm hn hls hks
  obtain ⟨hwritten, hwritten', -⟩ := hlossless hlistable hlistable'
  exact ⟨hm, hn, hls, hks, hsame, hlistable, hlistable', htext hsame, hwritten, hwritten'⟩

end Links

end LinkDiscovery
