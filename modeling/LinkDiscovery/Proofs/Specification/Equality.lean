import LinkDiscovery.Proofs.Double.Distance
import LinkDiscovery.Specification.Building
import LinkDiscovery.Specification.Comparison
/-!
Equality of specifications, the hash that goes with it, and what may be changed about the children of
a node without leaving equality. Equality is no equivalence, as close thresholds need not be close to
the same third one; but trees that are rearrangements of each other are equal to the same trees.
-/

namespace LinkDiscovery.Specification

/-- What holds of a node if it holds of its children holds of all specifications. -/
theorem induction {P : Specification → Prop}
    (h : ∀ l cs, (∀ c ∈ cs, P c) → P (node l cs)) : ∀ s, P s
  | node l cs => h l cs fun c _ => induction h c

variable {l m : Label} {cs ds : List Specification}

/-! Equality by columns and rows comes to equality by members. -/

theorem sameTable_eq (cs ds : List Specification) :
    sameTable cs ds = cs.map fun c => ds.map (same c) := by
  induction cs with
  | nil => rfl
  | cons c cs ih => rw [sameTable, ih, List.map_cons]

theorem columns_map {α β : Type} (f : α → β → Bool) (x : α) (xs : List α) (ys : List β) :
    columns ((x :: xs).map fun x => ys.map (f x)) = ys.map fun y => (x :: xs).any (f · y) := by
  induction xs generalizing x with
  | nil => simp [columns]
  | cons x' xs ih =>
      change List.zipWith or (ys.map (f x)) (columns ((x' :: xs).map fun x => ys.map (f x))) = _
      rw [ih, List.zipWith_map, List.zipWith_self]
      rfl

theorem same_node (hcs : cs ≠ []) (hds : ds ≠ []) :
    same (node l cs) (node m ds) = true ↔
      l.operator = m.operator ∧ l.weights.isSome = m.weights.isSome ∧
        (∀ c ∈ cs, ∃ d ∈ ds, same c d = true) ∧ ∀ d ∈ ds, ∃ c ∈ cs, same c d = true := by
  obtain ⟨c, cs, rfl⟩ := List.exists_cons_of_ne_nil hcs
  obtain ⟨d, ds, rfl⟩ := List.exists_cons_of_ne_nil hds
  have htable : (d :: ds).map (same c) :: sameTable cs (d :: ds) =
      (c :: cs).map fun c => (d :: ds).map (same c) :=
    sameTable_eq (c :: cs) (d :: ds)
  rw [same, htable, coversAll, columns_map]
  simp [and_assoc]

theorem same_leaf_node (hds : ds ≠ []) : same (node l []) (node m ds) = false := by
  obtain ⟨d, ds, rfl⟩ := List.exists_cons_of_ne_nil hds
  rfl

theorem same_node_leaf (hcs : cs ≠ []) : same (node l cs) (node m []) = false := by
  obtain ⟨c, cs, rfl⟩ := List.exists_cons_of_ne_nil hcs
  rfl

theorem sameLeaf_comm (l m : Label) : sameLeaf l m = sameLeaf m l := by
  unfold sameLeaf
  cases l.filter with
  | none => cases m.filter <;> rfl
  | some x =>
      cases m.filter with
      | none => rfl
      | some y =>
          simp only [Text.sameLetters, Double.distance_comm l.threshold m.threshold]
          rw [Bool.beq_comm]

theorem same_comm (s t : Specification) : same s t = same t s := by
  induction s using induction generalizing t with
  | h l cs ih =>
      obtain ⟨m, ds⟩ := t
      by_cases hcs : cs = [] <;> by_cases hds : ds = []
      · subst hcs hds
        exact sameLeaf_comm l m
      · rw [hcs, same_leaf_node hds, same_node_leaf hds]
      · rw [hds, same_leaf_node hcs, same_node_leaf hcs]
      · rw [Bool.eq_iff_iff, same_node hcs hds, same_node hds hcs]
        have hto (c : Specification) (hc : c ∈ cs) :
            (∃ d ∈ ds, same c d = true) ↔ ∃ d ∈ ds, same d c = true := by
          simp only [ih c hc]
        have hback (d : Specification) :
            (∃ c ∈ cs, same c d = true) ↔ ∃ c ∈ cs, same d c = true :=
          exists_congr fun c => and_congr_right fun hc => by rw [ih c hc]
        rw [forall₂_congr hto, forall₂_congr fun d _ => hback d, eq_comm,
          eq_comm (a := l.weights.isSome), and_comm (a := ∀ c ∈ cs, _)]

/-! The hash. -/

theorem hashes_eq (cs : List Specification) : hashes cs = cs.map hash := by
  induction cs with
  | nil => rfl
  | cons c cs ih => rw [hashes, ih, List.map_cons]

/-- The bytes of hashes depend on which hashes there are, not on their order and number. -/
theorem ascending_congr {xs ys : List UInt64} (h : ∀ x, x ∈ xs ↔ x ∈ ys) :
    ascending xs = ascending ys := by
  have hset : Std.ExtTreeSet.ofList xs = Std.ExtTreeSet.ofList ys := by
    apply Std.ExtTreeSet.ext_mem
    intro x
    simp [Std.ExtTreeSet.mem_ofList, h]
  rw [ascending, ascending, hset]

theorem hash_node (hcs : cs ≠ []) :
    hash (node l cs) =
      Digest.hash (Digest.utf8 "node:" ++ Digest.utf8 ((l.operator.map Operator.text).getD "") ++
        (if l.weights.isSome then Digest.utf8 ":weighted" else []) ++ ascending (cs.map hash)) := by
  obtain ⟨c, cs, rfl⟩ := List.exists_cons_of_ne_nil hcs
  rw [hash, hashes_eq, List.map_cons]

theorem hash_eq_of_sameLeaf (h : sameLeaf l m = true) : hash (node l []) = hash (node m []) := by
  unfold sameLeaf at h
  rw [hash, hash]
  split at h
  · rename_i hl hm
    rw [hl, hm]
  · rename_i x y hl hm
    rw [Bool.and_eq_true] at h
    have hletters : Text.lowerLetters x = Text.lowerLetters y := by simpa [Text.sameLetters] using h.1
    rw [hl, hm, Option.getD_some, Option.getD_some, hletters]
  · cases h

/-- Equal specifications have one hash. -/
theorem hash_eq_of_same {s t : Specification} (h : same s t = true) : hash s = hash t := by
  induction s using induction generalizing t with
  | h l cs ih =>
      obtain ⟨m, ds⟩ := t
      by_cases hcs : cs = [] <;> by_cases hds : ds = []
      · subst hcs hds
        exact hash_eq_of_sameLeaf h
      · rw [hcs, same_leaf_node hds] at h
        cases h
      · rw [hds, same_node_leaf hcs] at h
        cases h
      · obtain ⟨hoperator, hweights, hto, hback⟩ := (same_node hcs hds).mp h
        have hmem (x : UInt64) : x ∈ cs.map hash ↔ x ∈ ds.map hash := by
          constructor
          · intro hx
            obtain ⟨c, hc, rfl⟩ := List.mem_map.mp hx
            obtain ⟨d, hd, hsame⟩ := hto c hc
            exact List.mem_map.mpr ⟨d, hd, (ih c hc hsame).symm⟩
          · intro hx
            obtain ⟨d, hd, rfl⟩ := List.mem_map.mp hx
            obtain ⟨c, hc, hsame⟩ := hback d hd
            exact List.mem_map.mpr ⟨c, hc, ih c hc hsame⟩
        rw [hash_node hcs, hash_node hds, hoperator, hweights, ascending_congr hmem]

/-! Rearrangements. -/

/-- One specification comes out of another one by putting children into another order and by
repeating them, at any depth. The texts of inner nodes may change with their children. -/
inductive Rearranged : Specification → Specification → Prop
  | reordered (l : Label) {cs ds : List Specification} (h : cs.Perm ds) :
      Rearranged (node l cs) (node l ds)
  | repeated (l : Label) {c : Specification} {cs : List Specification} (h : c ∈ cs) :
      Rearranged (node l cs) (node l (c :: cs))
  | relabelled {l m : Label} {cs : List Specification} (hcs : cs ≠ [])
      (hoperator : l.operator = m.operator) (hweights : l.weights.isSome = m.weights.isSome) :
      Rearranged (node l cs) (node m cs)
  | within (l : Label) (before after : List Specification) {c d : Specification}
      (h : Rearranged c d) :
      Rearranged (node l (before ++ c :: after)) (node l (before ++ d :: after))
  | trans {s t u : Specification} (hst : Rearranged s t) (htu : Rearranged t u) : Rearranged s u

/-- Nodes whose children are equal to the same specifications are equal to the same ones. -/
theorem same_congr (hcs : cs ≠ []) (hds : ds ≠ []) (hoperator : l.operator = m.operator)
    (hweights : l.weights.isSome = m.weights.isSome)
    (hto : ∀ c ∈ cs, ∃ d ∈ ds, ∀ t, same c t = same d t)
    (hback : ∀ d ∈ ds, ∃ c ∈ cs, ∀ t, same c t = same d t) (t : Specification) :
    same (node l cs) t = same (node m ds) t := by
  obtain ⟨n, es⟩ := t
  by_cases hes : es = []
  · rw [hes, same_node_leaf hcs, same_node_leaf hds]
  · have hrows : (∀ c ∈ cs, ∃ e ∈ es, same c e = true) ↔ ∀ d ∈ ds, ∃ e ∈ es, same d e = true := by
      constructor
      · intro h d hd
        obtain ⟨c, hc, heq⟩ := hback d hd
        obtain ⟨e, he, hsame⟩ := h c hc
        exact ⟨e, he, heq e ▸ hsame⟩
      · intro h c hc
        obtain ⟨d, hd, heq⟩ := hto c hc
        obtain ⟨e, he, hsame⟩ := h d hd
        exact ⟨e, he, (heq e).symm ▸ hsame⟩
    have hcolumns (e : Specification) :
        (∃ c ∈ cs, same c e = true) ↔ ∃ d ∈ ds, same d e = true := by
      constructor
      · rintro ⟨c, hc, hsame⟩
        obtain ⟨d, hd, heq⟩ := hto c hc
        exact ⟨d, hd, heq e ▸ hsame⟩
      · rintro ⟨d, hd, hsame⟩
        obtain ⟨c, hc, heq⟩ := hback d hd
        exact ⟨c, hc, (heq e).symm ▸ hsame⟩
    rw [Bool.eq_iff_iff, same_node hcs hes, same_node hds hes, hoperator, hweights, hrows,
      forall₂_congr fun e _ => hcolumns e]

/-- Members that two lists of children share are no reason to tell their nodes apart. -/
theorem same_congr_of_mem (hcs : cs ≠ []) (h : ∀ c, c ∈ cs ↔ c ∈ ds) (t : Specification) :
    same (node l cs) t = same (node l ds) t := by
  have hds : ds ≠ [] := by
    obtain ⟨c, hc⟩ := List.exists_mem_of_ne_nil cs hcs
    exact List.ne_nil_of_mem ((h c).mp hc)
  exact same_congr hcs hds rfl rfl (fun c hc => ⟨c, (h c).mp hc, fun _ => rfl⟩)
    (fun d hd => ⟨d, (h d).mpr hd, fun _ => rfl⟩) t

/-- Rearrangements of each other are equal to the same specifications. -/
theorem Rearranged.same_eq {s t : Specification} (h : Rearranged s t) (u : Specification) :
    same s u = same t u := by
  induction h generalizing u with
  | @reordered l cs ds h =>
      by_cases hcs : cs = []
      · subst hcs
        rw [h.nil_eq]
      · exact same_congr_of_mem hcs (fun c => h.mem_iff) u
  | @repeated l c cs h =>
      refine same_congr_of_mem (List.ne_nil_of_mem h) (fun d => ?_) u
      rw [List.mem_cons, or_iff_right_of_imp]
      rintro rfl
      exact h
  | relabelled hcs hoperator hweights =>
      exact same_congr hcs hcs hoperator hweights (fun c hc => ⟨c, hc, fun _ => rfl⟩)
        (fun c hc => ⟨c, hc, fun _ => rfl⟩) u
  | @within l before after c d h ih =>
      refine same_congr (by simp) (by simp) rfl rfl (fun x hx => ?_) (fun x hx => ?_) u
      · rcases List.mem_append.mp hx with hx | hx
        · exact ⟨x, by simp [hx], fun _ => rfl⟩
        · rcases List.mem_cons.mp hx with rfl | hx
          · exact ⟨d, by simp, ih⟩
          · exact ⟨x, by simp [hx], fun _ => rfl⟩
      · rcases List.mem_append.mp hx with hx | hx
        · exact ⟨x, by simp [hx], fun _ => rfl⟩
        · rcases List.mem_cons.mp hx with rfl | hx
          · exact ⟨c, by simp, ih⟩
          · exact ⟨x, by simp [hx], fun _ => rfl⟩
  | trans _ _ ihst ihtu => exact (ihst u).trans (ihtu u)

/-! Equality with itself. -/

theorem leavesOf_eq (cs : List Specification) : leavesOf cs = cs.flatMap leaves := by
  induction cs with
  | nil => rfl
  | cons c cs ih => rw [leavesOf, ih, List.flatMap_cons]

theorem mem_leaves_node {c t : Specification} :
    t ∈ (node l (c :: cs)).leaves ↔ ∃ d ∈ c :: cs, t ∈ d.leaves := by
  rw [leaves, leavesOf_eq, ← List.flatMap_cons, List.mem_flatMap]

theorem mem_leaves_of_child {c t : Specification} (hc : c ∈ cs) (ht : t ∈ c.leaves) :
    t ∈ (node l cs).leaves := by
  obtain ⟨d, ds, rfl⟩ := List.exists_cons_of_ne_nil (List.ne_nil_of_mem hc)
  exact mem_leaves_node.mpr ⟨c, hc, ht⟩

theorem sameLeaf_self (h : l.threshold.isFinite = true) : sameLeaf l l = true := by
  have hclose : (l.threshold - l.threshold).abs < tolerance := by
    rw [Double.distance_self h]
    decide
  unfold sameLeaf
  cases l.filter with
  | none => rfl
  | some x => simp [Text.sameLetters, hclose]

/-- With finite thresholds at its leaves a specification is equal to itself. -/
theorem same_self {s : Specification} (h : ∀ t ∈ s.leaves, t.threshold.isFinite = true) :
    same s s = true := by
  induction s using induction with
  | h l cs ih =>
      by_cases hcs : cs = []
      · subst hcs
        exact sameLeaf_self (h (node l []) (by simp [leaves]))
      · have hsame (c : Specification) (hc : c ∈ cs) : same c c = true :=
          ih c hc fun t ht => h t (mem_leaves_of_child hc ht)
        exact (same_node hcs hcs).mpr
          ⟨rfl, rfl, fun c hc => ⟨c, hc, hsame c hc⟩, fun c hc => ⟨c, hc, hsame c hc⟩⟩

/-- Equality does not depend on the order of its sides and implies equal hashes and digests. With
finite thresholds at its leaves, a specification is equal to its rearrangements. -/
theorem hash_respects_equality (a b : Specification) :
    (a == b) = (b == a) ∧ (a == b → a.hash = b.hash ∧ a.digest = b.digest) ∧
      ((∀ t ∈ a.leaves, t.threshold.isFinite = true) → Rearranged a b →
        a == b ∧ a.hash = b.hash ∧ a.digest = b.digest) := by
  have hequal (h : same a b = true) : a.hash = b.hash ∧ a.digest = b.digest := by
    have hhash := hash_eq_of_same h
    exact ⟨hhash, by rw [digest, digest, hhash]⟩
  refine ⟨same_comm a b, hequal, fun hfinite hrearranged => ?_⟩
  have hsame : same a b = true := by
    rw [same_comm, ← hrearranged.same_eq]
    exact same_self hfinite
  exact ⟨hsame, hequal hsame⟩

theorem hash_respects_equality_sample :
    let x := leaf "exactmatch" "x.a" "y.a" 0.5
    let y := leaf "trigrams" "x.b" "y.b" 0.25
    let a := composite .or 0.5 [composite .and 0.5 [x, y], y]
    let b := composite .or 0.5 [y, composite .and 0.5 [y, x, y], y]
    (∀ t ∈ a.leaves, t.threshold.isFinite = true) ∧ Rearranged a b ∧
      (a == b) = (b == a) ∧ a == b ∧ a.hash = b.hash ∧ a.digest = b.digest := by
  intro x y a b
  have hfinite : ∀ t ∈ a.leaves, t.threshold.isFinite = true := by
    change ∀ t ∈ [x, y, y], t.threshold.isFinite = true
    simp only [List.forall_mem_cons, List.not_mem_nil, false_implies, implies_true, and_true,
      and_self]
    have hx : x.threshold.isFinite = true := by decide
    have hy : y.threshold.isFinite = true := by decide
    exact ⟨hx, hy⟩
  have hinner : Rearranged (composite .and 0.5 [x, y]) (composite .and 0.5 [y, x, y]) :=
    .trans (.repeated _ (by simp)) (.relabelled (by simp) rfl rfl)
  have hrearranged : Rearranged a b :=
    .trans (.within _ [] [y] hinner) (.trans (.repeated _ (by simp)) (.relabelled (by simp) rfl rfl))
  obtain ⟨hcomm, -, hsame⟩ := hash_respects_equality a b
  exact ⟨hfinite, hrearranged, hcomm, hsame hfinite hrearranged⟩

end LinkDiscovery.Specification
