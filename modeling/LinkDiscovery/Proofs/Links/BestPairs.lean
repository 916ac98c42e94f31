import LinkDiscovery.Proofs.Links.Lattice
import LinkDiscovery.Proofs.Links.Reversal
/-!
The links that are best for their source and then, among these, best for their target. The second
choice sees, for each target, only what the first one left, so that a link stays if no link that is best
for its own source has the same target and a larger confidence. All links that stay for one source have
equal confidences, and so have all that stay for one target; choosing again therefore changes nothing.
-/

namespace LinkDiscovery

namespace Score

/-- The larger ones of some numbers, taken one after another, come to the greatest of them. -/
theorem isGreatest_foldl_larger {c : Float} {cs : List Float}
    (h : ∀ d ∈ c :: cs, d.isNaN = false) :
    IsGreatest { d | d ∈ c :: cs } (cs.foldl larger c) := by
  have hself {d : Float} (hd : d.isNaN = false) : IsGreatest {d} d :=
    ⟨rfl, by rintro _ rfl; exact le_self hd⟩
  induction cs using List.reverseRecOn with
  | nil =>
      have hsingle : { d | d ∈ [c] } = {c} := by simp
      rw [hsingle]
      exact hself (h c List.mem_cons_self)
  | append_singleton cs d ih =>
      have hsplit : { x | x ∈ c :: (cs ++ [d]) } = { x | x ∈ c :: cs } ∪ {d} := by
        ext x
        simp [or_comm, or_left_comm]
      rw [List.foldl_append, hsplit]
      refine isGreatest_larger (ih fun x hx => h x ?_) (hself (h d (by simp)))
      exact List.mem_append_left [d] hx

/-- A number of a set is equal to the greatest one if and only if it is a greatest one as well. -/
theorem beq_iff_isGreatest {S : Set Float} {c d : Float} (hd : IsGreatest S d) (hc : c ∈ S) :
    (d == c) = true ↔ IsGreatest S c := by
  constructor
  · intro h
    obtain ⟨-, hnc, hposition⟩ := beq_iff.mp h
    refine ⟨hc, fun x hx => ?_⟩
    obtain ⟨hnx, -, hxd⟩ := le_iff.mp (hd.2 hx)
    exact le_iff.mpr ⟨hnx, hnc, hposition ▸ hxd⟩
  · intro h
    exact beq_of_le_of_le (h.2 hd.1) (hd.2 hc)

end Score

namespace Links

open Score

/-- The confidences in the row of a source. -/
def rowConfidences (m : Links) (s : String) : Set Float :=
  { c | ∃ t, m.find? s t = some c }

/-- The confidence of a pair, if it is the greatest one in the row of the source. -/
def BestForSource (m : Links) (s t : String) (c : Float) : Prop :=
  m.find? s t = some c ∧ IsGreatest (m.rowConfidences s) c

variable {m : Links} {s t : String} {c : Float}

theorem mem_values (m : Links) (s : String) (c : Float) :
    c ∈ (m.rows.getD s ∅).values ↔ c ∈ m.rowConfidences s := by
  simp [values_eq_map_toList, rowConfidences, getElem?_row]

/-- The largest confidence of a source that has links is the greatest one in its row. -/
theorem exists_best? (hm : m.Numeric) (hc : c ∈ m.rowConfidences s) :
    ∃ d, m.best? s = some d ∧ IsGreatest (m.rowConfidences s) d := by
  have hvalues : { d | d ∈ (m.rows.getD s ∅).values } = m.rowConfidences s :=
    Set.ext fun d => m.mem_values s d
  have hnumber : ∀ d ∈ (m.rows.getD s ∅).values, d.isNaN = false := by
    intro d hd
    obtain ⟨t, ht⟩ := (m.mem_values s d).mp hd
    exact hm s t d ht
  rw [← hvalues] at hc ⊢
  unfold best?
  generalize (m.rows.getD s ∅).values = values at hc hnumber
  cases values with
  | nil => cases hc
  | cons x xs => exact ⟨_, rfl, isGreatest_foldl_larger hnumber⟩

/-- The first choice: what is best for its source. -/
theorem find?_bestTargets (hm : m.Numeric) :
    m.bestTargets.find? s t = some c ↔ m.BestForSource s t c := by
  rw [bestTargets, find?_select, Option.bind_eq_some_iff, BestForSource]
  constructor
  · rintro ⟨d, hd, h⟩
    obtain ⟨g, hbest, hg⟩ := exists_best? hm ⟨t, hd⟩
    rw [hbest, Option.some_beq_some] at h
    split at h
    · rename_i heq
      obtain rfl := Option.some.inj h
      exact ⟨hd, (beq_iff_isGreatest hg ⟨t, hd⟩).mp heq⟩
    · cases h
  · rintro ⟨hc, hgreatest⟩
    obtain ⟨g, hbest, hg⟩ := exists_best? hm ⟨t, hc⟩
    refine ⟨c, hc, if_pos ?_⟩
    rw [hbest, Option.some_beq_some]
    exact (beq_iff_isGreatest hg ⟨t, hc⟩).mpr hgreatest

theorem Numeric.bestTargets_reverse (hm : m.Numeric) : m.bestTargets.reverse.Numeric := by
  intro t s c hc
  rw [find?_reverse] at hc
  exact hm s t c ((find?_bestTargets hm).mp hc).1

/-- The second choice: what no other link that is best for its source exceeds at the same target. -/
theorem find?_bestPairs (hm : m.Numeric) :
    m.bestPairs.find? s t = some c ↔
      m.BestForSource s t c ∧ ∀ s' d, m.BestForSource s' t d → d ≤ c := by
  have hcolumn : m.bestTargets.reverse.rowConfidences t =
      { d | ∃ s', m.BestForSource s' t d } := by
    simp only [rowConfidences, find?_reverse, find?_bestTargets hm]
  rw [bestPairs, find?_reverse, find?_bestTargets hm.bestTargets_reverse, BestForSource,
    find?_reverse, find?_bestTargets hm, hcolumn]
  constructor
  · rintro ⟨hbest, -, hgreatest⟩
    exact ⟨hbest, fun s' d hd => hgreatest ⟨s', hd⟩⟩
  · rintro ⟨hbest, hgreatest⟩
    refine ⟨hbest, ⟨s, hbest⟩, ?_⟩
    rintro d ⟨s', hd⟩
    exact hgreatest s' d hd

theorem Numeric.bestPairs (hm : m.Numeric) : m.bestPairs.Numeric :=
  fun s t c hc => hm s t c ((find?_bestPairs hm).mp hc).1.1

/-- What is left is best for its source among what is left. -/
theorem bestForSource_bestPairs (hm : m.Numeric) (h : m.bestPairs.find? s t = some c) :
    m.bestPairs.BestForSource s t c := by
  refine ⟨h, ⟨t, h⟩, ?_⟩
  rintro d ⟨t', hd⟩
  obtain ⟨hbest, -⟩ := (find?_bestPairs hm).mp h
  obtain ⟨hbest', -⟩ := (find?_bestPairs hm).mp hd
  exact hbest.2.2 ⟨t', hbest'.1⟩

theorem regular_bestPairs (m : Links) : m.bestPairs.Regular :=
  regular_reverse _

theorem bestPairs_bestPairs (hm : m.Numeric) : m.bestPairs.bestPairs = m.bestPairs := by
  refine (regular_bestPairs _).ext m.regular_bestPairs ?_ fun s t => ?_
  · simp only [Links.bestPairs, bestTargets, predicate_reverse, predicate_select]
  · refine Option.ext fun c => ?_
    rw [find?_bestPairs hm.bestPairs]
    refine ⟨fun h => h.1.1, fun h => ⟨bestForSource_bestPairs hm h, fun s' d hd => ?_⟩⟩
    obtain ⟨-, hgreatest⟩ := (find?_bestPairs hm).mp h
    exact hgreatest s' d ((find?_bestPairs hm).mp hd.1).1

/-- Links have one of the greatest confidence, unless there are none. -/
theorem exists_greatest (hm : m.Numeric) (h : m.links ≠ []) :
    ∃ l ∈ m.links, ∀ l' ∈ m.links, l'.confidence ≤ l.confidence := by
  have hnumber : ∀ l ∈ m.links, l.confidence.isNaN = false :=
    fun l hl => hm _ _ _ (mem_links.mp hl)
  obtain ⟨l, hl, hgreatest⟩ := Set.exists_max_image { l | l ∈ m.links }
    (fun l => position l.confidence) (List.finite_toSet _) (List.exists_mem_of_ne_nil _ h)
  exact ⟨l, hl, fun l' hl' => le_iff.mpr ⟨hnumber l' hl', hnumber l hl, hgreatest l' hl'⟩⟩

theorem mem_bestPairs_of_greatest (hm : m.Numeric) {l : Link} (hl : l ∈ m.links)
    (h : ∀ l' ∈ m.links, l'.confidence ≤ l.confidence) : l ∈ m.bestPairs.links := by
  have hle {s t : String} {d : Float} (hd : m.find? s t = some d) : d ≤ l.confidence :=
    h ⟨s, t, d⟩ (mem_links.mpr hd)
  have hlink := mem_links.mp hl
  refine mem_links.mpr ((find?_bestPairs hm).mpr ⟨⟨hlink, ⟨_, hlink⟩, ?_⟩, fun s' d hd => ?_⟩)
  · rintro d ⟨t, hd⟩
    exact hle hd
  · exact hle hd.1

theorem bestPairs_isEmpty (hm : m.Numeric) (h : m.bestPairs.isEmpty = true) : m.links = [] := by
  have hnone : m.bestPairs.links = [] := by
    rw [← List.length_eq_zero_iff, ← m.regular_bestPairs.sized]
    simpa [isEmpty] using h
  by_contra hlinks
  obtain ⟨l, hl, hgreatest⟩ := exists_greatest hm hlinks
  have hmem := mem_bestPairs_of_greatest hm hl hgreatest
  rw [hnone] at hmem
  cases hmem

/-- Greatest confidences are equal. -/
theorem beq_of_isGreatest {S : Set Float} {c d : Float} (hc : IsGreatest S c) (hd : IsGreatest S d) :
    (c == d) = true :=
  (beq_iff_isGreatest hc hd.1).mpr hd

theorem links_nodup (m : Links) : m.links.Nodup :=
  m.links_pairwise.imp fun h heq => by
    subst heq
    exact h ⟨rfl, rfl⟩

/-- Where all confidences are different, links of one source that are left are the same link, and so are
links of one target. -/
theorem nodup_bestPairs (hm : m.Numeric)
    (h : ∀ a ∈ m.links, ∀ b ∈ m.links, (a.confidence == b.confidence) = true → a = b) :
    (m.bestPairs.links.map (·.source)).Nodup ∧ (m.bestPairs.links.map (·.target)).Nodup := by
  have hchosen {l : Link} (hl : l ∈ m.bestPairs.links) :
      l ∈ m.links ∧ m.BestForSource l.source l.target l.confidence ∧
        ∀ s d, m.BestForSource s l.target d → d ≤ l.confidence := by
    obtain ⟨hbest, hgreatest⟩ := (find?_bestPairs hm).mp (mem_links.mp hl)
    exact ⟨mem_links.mpr hbest.1, hbest, hgreatest⟩
  constructor
  · refine List.Nodup.map_on (fun a ha b hb heq => ?_) m.bestPairs.links_nodup
    obtain ⟨hma, hbesta, -⟩ := hchosen ha
    obtain ⟨hmb, hbestb, -⟩ := hchosen hb
    rw [← heq] at hbestb
    exact h a hma b hmb (beq_of_isGreatest hbesta.2 hbestb.2)
  · refine List.Nodup.map_on (fun a ha b hb heq => ?_) m.bestPairs.links_nodup
    obtain ⟨hma, hbesta, hgreatesta⟩ := hchosen ha
    obtain ⟨hmb, hbestb, hgreatestb⟩ := hchosen hb
    have hba : b.confidence ≤ a.confidence := hgreatesta _ _ (heq ▸ hbestb)
    have hab : a.confidence ≤ b.confidence := hgreatestb _ _ (heq ▸ hbesta)
    exact h a hma b hmb (beq_of_le_of_le hab hba)

/-- Links chosen from others: those that are best for their source and that no other link which is best
for its source exceeds at the same target. -/
structure ChosenFrom (m r : Links) : Prop where
  find?_eq_some_iff : ∀ s t c, r.find? s t = some c ↔
    m.BestForSource s t c ∧ ∀ s' d, m.BestForSource s' t d → d ≤ c
  mem_of_greatest : ∀ l ∈ m.links, (∀ l' ∈ m.links, l'.confidence ≤ l.confidence) → l ∈ r.links
  links_eq_nil : r.isEmpty = true → m.links = []
  bestPairs_eq : r.bestPairs = r
  nodup : (∀ a ∈ m.links, ∀ b ∈ m.links, (a.confidence == b.confidence) = true → a = b) →
    (r.links.map (·.source)).Nodup ∧ (r.links.map (·.target)).Nodup

/-- The best pairs of links whose confidences are numbers are those that are best for their source and
then for their target. A greatest confidence is always among them, choosing again changes nothing, and
where all confidences are different no source and no target occurs twice. -/
theorem bestPairs_chosenFrom (hm : m.Numeric) : ChosenFrom m m.bestPairs where
  find?_eq_some_iff _ _ _ := find?_bestPairs hm
  mem_of_greatest _ := mem_bestPairs_of_greatest hm
  links_eq_nil := bestPairs_isEmpty hm
  bestPairs_eq := bestPairs_bestPairs hm
  nodup := nodup_bestPairs hm

/-- A source with both zeros, a target that two sources are tied for, and a target whose best link is
not the best one of its source. -/
theorem bestPairs_chosenFrom_sample :
    let m := Links.ofList [⟨"p", "x", 0⟩, ⟨"p", "y", -0⟩, ⟨"q", "z", 0.5⟩, ⟨"r", "z", 0.5⟩,
      ⟨"s", "v", 0.75⟩, ⟨"s", "w", 1⟩, ⟨"u", "v", 0.25⟩]
    m.Numeric ∧ ChosenFrom m m.bestPairs ∧
      m.bestPairs.pairs = [("p", "x"), ("p", "y"), ("q", "z"), ("r", "z"), ("s", "w"), ("u", "v")] := by
  intro m
  have hm : m.Numeric := .ofList (by decide +kernel)
  exact ⟨hm, bestPairs_chosenFrom hm, by decide +kernel⟩

end Links

end LinkDiscovery
