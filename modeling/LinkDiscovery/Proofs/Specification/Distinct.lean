import LinkDiscovery.Proofs.Specification.Equality
import LinkDiscovery.Proofs.Specification.WrittenOut
/-!
Sets of specifications, built by adding one after another unless an equal one is there already. How many
are kept depends on the order in which they come if and only if equality is not transitive among them,
and it is leaves with close thresholds that equality is not transitive among.
-/

namespace LinkDiscovery.Specification

open Grammar

/-- Adds specifications one after another to a set of different ones; gives the set. -/
def distinct (ss : List Specification) : List Specification :=
  ss.foldl (fun kept s => (addDistinct? kept s).getD kept) []

/-! Equality of trees is as transitive as equality of their leaves. -/

theorem leaves_of_leaf (l : Label) : (node l []).leaves = [node l []] := by
  rw [leaves]

/-- Leaves are equal to leaves only. -/
theorem nil_iff_of_same {l m : Label} {cs ds : List Specification}
    (h : same (node l cs) (node m ds) = true) : cs = [] ↔ ds = [] := by
  by_cases hcs : cs = [] <;> by_cases hds : ds = []
  · exact iff_of_true hcs hds
  · rw [hcs, same_leaf_node hds] at h
    cases h
  · rw [hds, same_node_leaf hcs] at h
    cases h
  · exact iff_of_false hcs hds

/-- Equality goes from one tree over a second one to a third if it does so from leaf to leaf. -/
theorem same_trans {a b c : Specification}
    (hleaves : ∀ x ∈ a.leaves, ∀ y ∈ b.leaves, ∀ z ∈ c.leaves,
      same x y = true → same y z = true → same x z = true)
    (hab : same a b = true) (hbc : same b c = true) : same a c = true := by
  induction a using induction generalizing b c with
  | h l as ih =>
      obtain ⟨m, bs⟩ := b
      obtain ⟨n, cs⟩ := c
      have hnilab := nil_iff_of_same hab
      have hnilbc := nil_iff_of_same hbc
      by_cases has : as = []
      · obtain rfl := hnilab.mp has
        obtain rfl := hnilbc.mp rfl
        subst has
        simp only [leaves_of_leaf, List.mem_singleton, forall_eq] at hleaves
        exact hleaves hab hbc
      · have hbs : bs ≠ [] := has ∘ hnilab.mpr
        have hcs : cs ≠ [] := hbs ∘ hnilbc.mpr
        obtain ⟨hoab, hwab, htoab, hbackab⟩ := (same_node has hbs).mp hab
        obtain ⟨hobc, hwbc, htobc, hbackbc⟩ := (same_node hbs hcs).mp hbc
        have hchild {a b c : Specification} (ha : a ∈ as) (hb : b ∈ bs) (hc : c ∈ cs)
            (hab : same a b = true) (hbc : same b c = true) : same a c = true :=
          ih a ha (fun x hx y hy z hz => hleaves x (mem_leaves_of_child ha hx) y
            (mem_leaves_of_child hb hy) z (mem_leaves_of_child hc hz)) hab hbc
        refine (same_node has hcs).mpr ⟨hoab.trans hobc, hwab.trans hwbc, fun a ha => ?_,
          fun c hc => ?_⟩
        · obtain ⟨b, hb, hab⟩ := htoab a ha
          obtain ⟨c, hc, hbc⟩ := htobc b hb
          exact ⟨c, hc, hchild ha hb hc hab hbc⟩
        · obtain ⟨b, hb, hbc⟩ := hbackbc c hc
          obtain ⟨a, ha, hab⟩ := hbackab b hb
          exact ⟨a, ha, hchild ha hb hc hab hbc⟩

/-! What is kept. -/

/-- Equal hashes are no obstacle, as equal specifications have them. -/
theorem addDistinct?_eq (kept : List Specification) (s : Specification) :
    addDistinct? kept s = if kept.any (same · s) then none else some (s :: kept) := by
  have htest : (fun t : Specification => t.hash == s.hash && t == s) = (same · s) := by
    funext t
    change (t.hash == s.hash && same t s) = same t s
    cases h : same t s with
    | false => rw [Bool.and_false]
    | true => rw [hash_eq_of_same h, beq_self_eq_true, Bool.and_true]
  rw [addDistinct?, htest]

/-- What is kept of some specifications: different ones, and for each specification an equal one. -/
structure KeptOf (ss kept : List Specification) : Prop where
  subset : kept ⊆ ss
  different : kept.Pairwise fun a b => same a b = false
  covers : ∀ s ∈ ss, ∃ k ∈ kept, same k s = true

theorem keptOf_nil : KeptOf [] [] :=
  ⟨List.Subset.refl [], .nil, by simp⟩

/-- Adding a specification keeps different ones, and an equal one for each. -/
theorem KeptOf.add {ss kept : List Specification} (h : KeptOf ss kept) {s : Specification}
    (hself : same s s = true) : KeptOf (ss ++ [s]) ((addDistinct? kept s).getD kept) := by
  rw [addDistinct?_eq]
  cases hany : kept.any (same · s) with
  | true =>
      obtain ⟨k, hk, hks⟩ := List.any_eq_true.mp hany
      refine ⟨fun k hk => List.mem_append_left _ (h.subset hk), h.different, fun t ht => ?_⟩
      rcases List.mem_append.mp ht with ht | ht
      · exact h.covers t ht
      · obtain rfl := List.mem_singleton.mp ht
        exact ⟨k, hk, hks⟩
  | false =>
      have hnew : ∀ k ∈ kept, same s k = false := fun k hk => by
        rw [same_comm]
        simpa using List.any_eq_false.mp hany k hk
      refine ⟨fun k hk => ?_, List.pairwise_cons.mpr ⟨hnew, h.different⟩, fun t ht => ?_⟩
      · rcases List.mem_cons.mp hk with rfl | hk
        · simp
        · exact List.mem_append_left _ (h.subset hk)
      · rcases List.mem_append.mp ht with ht | ht
        · obtain ⟨k, hk, hkt⟩ := h.covers t ht
          exact ⟨k, List.mem_cons_of_mem _ hk, hkt⟩
        · obtain rfl := List.mem_singleton.mp ht
          exact ⟨t, List.mem_cons_self, hself⟩

theorem KeptOf.addAll {before kept : List Specification} (h : KeptOf before kept)
    {ss : List Specification} (hself : ∀ s ∈ ss, same s s = true) :
    KeptOf (before ++ ss) (ss.foldl (fun kept s => (addDistinct? kept s).getD kept) kept) := by
  induction ss generalizing before kept with
  | nil => simpa using h
  | cons s ss ih =>
      obtain ⟨hs, hss⟩ := List.forall_mem_cons.mp hself
      have hkept := ih (h.add hs) hss
      rwa [List.append_assoc] at hkept

theorem keptOf_distinct {ss : List Specification} (hself : ∀ s ∈ ss, same s s = true) :
    KeptOf ss (distinct ss) :=
  keptOf_nil.addAll hself

section

variable {xs : List Specification} (hself : ∀ s ∈ xs, same s s = true)
  (htrans : ∀ a ∈ xs, ∀ b ∈ xs, ∀ c ∈ xs, same a b = true → same b c = true → same a c = true)
include hself htrans

/-- Where equality is transitive, equal specifications are those with the same equal ones. -/
theorem same_iff_filter {a b : Specification} (ha : a ∈ xs) (hb : b ∈ xs) :
    same a b = true ↔ xs.filter (same a) = xs.filter (same b) := by
  constructor
  · intro hab
    refine List.filter_congr fun c hc => Bool.eq_iff_iff.mpr ⟨?_, htrans a ha b hb c hc hab⟩
    exact htrans b hb a ha c hc (same_comm a b ▸ hab)
  · intro h
    have hmem : b ∈ xs.filter (same a) := h ▸ List.mem_filter.mpr ⟨hb, hself b hb⟩
    exact (List.mem_filter.mp hmem).2

/-- Where equality is transitive, no more are kept of some specifications than of others that are
all there as well. -/
theorem KeptOf.length_le {ys zs kept kept' : List Specification} (h : KeptOf ys kept)
    (h' : KeptOf zs kept') (hyz : ys ⊆ zs) (hzx : zs ⊆ xs) : kept.length ≤ kept'.length := by
  have hmem {k : Specification} (hk : k ∈ kept) : k ∈ xs := hzx (hyz (h.subset hk))
  have hnodup : (kept.map fun k => xs.filter (same k)).Nodup := by
    refine List.pairwise_map.mpr (h.different.imp_of_mem fun {a b} ha hb hab heq => ?_)
    rw [(same_iff_filter hself htrans (hmem ha) (hmem hb)).mpr heq] at hab
    cases hab
  have hsubset : (kept.map fun k => xs.filter (same k)) ⊆ kept'.map fun k => xs.filter (same k) := by
    intro members hmembers
    obtain ⟨k, hk, rfl⟩ := List.mem_map.mp hmembers
    obtain ⟨k', hk', hsame⟩ := h'.covers k (hyz (h.subset hk))
    have heq := (same_iff_filter hself htrans (hzx (h'.subset hk')) (hmem hk)).mp hsame
    exact List.mem_map.mpr ⟨k', hk', heq⟩
  simpa using (hnodup.subperm hsubset).length_le

end

/-- With finite thresholds at their leaves, specifications are equal to themselves, equality does not
depend on the order of its sides, and it is transitive where it is so for the leaves. The number of
specifications that are kept of any of them is the same for every order if and only if equality is
transitive among them. -/
theorem distinct_length_iff {xs : List Specification}
    (hfinite : ∀ s ∈ xs, ∀ t ∈ s.leaves, t.threshold.isFinite = true) :
    (∀ a ∈ xs, a == a) ∧ (∀ a b : Specification, (a == b) = (b == a)) ∧
      (∀ a b c : Specification,
        (∀ x ∈ a.leaves, ∀ y ∈ b.leaves, ∀ z ∈ c.leaves, x == y → y == z → x == z) →
          a == b → b == c → a == c) ∧
      ((∀ a ∈ xs, ∀ b ∈ xs, ∀ c ∈ xs, a == b → b == c → a == c) ↔
        ∀ ys zs, ys ⊆ xs → ys.Perm zs → (distinct ys).length = (distinct zs).length) := by
  have hself (s : Specification) (hs : s ∈ xs) : same s s = true := same_self (hfinite s hs)
  refine ⟨hself, same_comm, fun a b c => same_trans, ?_, ?_⟩
  · intro htrans ys zs hys hperm
    have hzs : zs ⊆ xs := fun s hs => hys (hperm.mem_iff.mpr hs)
    have hkept := keptOf_distinct fun s hs => hself s (hys hs)
    have hkept' := keptOf_distinct fun s hs => hself s (hzs hs)
    exact le_antisymm (hkept.length_le hself htrans hkept' hperm.subset hzs)
      (hkept'.length_le hself htrans hkept hperm.symm.subset hys)
  · intro horder a ha b hb c hc hab hbc
    change same a b = true at hab
    change same b c = true at hbc
    change same a c = true
    by_contra hac
    -- after `b` neither of the others is kept, but after `a` only `b` is left out
    have hba : same b a = true := same_comm a b ▸ hab
    have hlength := horder [a, b, c] [b, a, c] (by simp [ha, hb, hc]) (.swap b a [c])
    simp [distinct, addDistinct?_eq, hab, hba, hbc, hac] at hlength

theorem distinct_length_iff_sample :
    let x := leaf "exactmatch" "x.a" "y.a" 0.5
    let y := leaf "ExactMatch" "x.a" "y.a" 0.5
    let xs := [composite .and 0.5 [x, y], composite .and 0.5 [y]]
    (∀ s ∈ xs, ∀ t ∈ s.leaves, t.threshold.isFinite = true) ∧ (∀ a ∈ xs, a == a) ∧
      ((∀ a ∈ xs, ∀ b ∈ xs, ∀ c ∈ xs, a == b → b == c → a == c) ↔
        ∀ ys zs, ys ⊆ xs → ys.Perm zs → (distinct ys).length = (distinct zs).length) := by
  intro x y xs
  have hfinite : ∀ s ∈ xs, ∀ t ∈ s.leaves, t.threshold.isFinite = true := by
    have hx : x.threshold.isFinite = true := by decide
    have hy : y.threshold.isFinite = true := by decide
    have hleaves : (composite .and 0.5 [x, y]).leaves = [x, y] ∧
        (composite .and 0.5 [y]).leaves = [y] := ⟨rfl, rfl⟩
    simp [xs, hleaves, hx, hy]
  obtain ⟨hself, -, -, horder⟩ := distinct_length_iff hfinite
  exact ⟨hfinite, hself, horder⟩

/-- Three readings of one text, each with a threshold close to that of the next one: the first is equal
to the second and the second to the third, but not the first to the third, so that the order in which
they come decides how many are kept. -/
theorem close_not_transitive :
    let w := Spelling.leaf "exactmatch".toList [] ["x.a".toList, " y.a".toList]
    ∃ a b c, parse (String.ofList w.chars) 0.5 = .ok a ∧ parse (String.ofList w.chars) 0.5006 = .ok b ∧
      parse (String.ofList w.chars) 0.5012 = .ok c ∧ a == b ∧ b == c ∧ (a == c) = false ∧
        (distinct [a, b, c]).length = 2 ∧ (distinct [b, a, c]).length = 1 := by
  intro w
  obtain ⟨-, -, ⟨-, hw⟩, -⟩ := Spelling.sample_writtenOut
    (show Keyword.ofLetters? ['a', 'd', 'd'] = some .add from rfl)
  refine ⟨_, _, _, (hw.parse_chars 0.5).2, (hw.parse_chars 0.5006).2, (hw.parse_chars 0.5012).2, ?_⟩
  decide +kernel

end LinkDiscovery.Specification
