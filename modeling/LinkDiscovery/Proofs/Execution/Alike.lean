import LinkDiscovery.Proofs.Execution.Meaning
/-!
Links that are alike. Links between different collections are alike if whether and with which
confidence a pair is linked depends on its two entities alone, and in the same way on both sides. All
operations on links keep links alike, and so do buffers.
-/

namespace LinkDiscovery

namespace Links

/-- The confidence of each pair is what `f` gives for its entities. -/
def GivenBy (m : Links) (sides : Sides) (f : Entity → Entity → Option Float) : Prop :=
  ∀ s t, m.find? s t = sides.onPair s t f

/-- Links between two pairs of collections that depend on the entities of a pair in the same way. -/
def Alike (a b : Sides) (m n : Links) : Prop :=
  ∃ f, m.GivenBy a f ∧ n.GivenBy b f

variable {a b : Sides} {m m' n n' : Links}

theorem GivenBy.empty (sides : Sides) : Links.empty.GivenBy sides fun _ _ => none := by
  intro s t
  unfold Sides.onPair
  cases sides.source.find? s <;> cases sides.target.find? t <;> simp

theorem GivenBy.apply {sides : Sides} {f g : Entity → Entity → Option Float}
    (hm : m.GivenBy sides f) (hn : n.GivenBy sides g) (o : SetOperation) :
    (o.apply m n).GivenBy sides fun x y => o.joined (f x y) (g x y) := by
  intro s t
  rw [SetOperation.find?_apply, hm, hn, Sides.joined_onPair]

theorem GivenBy.atLeast {sides : Sides} {f : Entity → Entity → Option Float}
    (hm : m.GivenBy sides f) (threshold : Float) :
    (m.atLeast threshold).GivenBy sides fun x y => (f x y).bind (reached threshold) := by
  intro s t
  rw [find?_atLeast, hm, Sides.onPair_bind]
  rfl

theorem GivenBy.rescore {sides : Sides} {f : Entity → Entity → Option Float}
    (hm : m.GivenBy sides f) (scorer : Scorer) (threshold : Float) (main : Option Float) :
    (m.rescore sides scorer threshold main).GivenBy sides fun x y => (f x y).bind fun c =>
      (Link.mk x.uri y.uri c).rescored (scorer.score x y) threshold main := by
  intro s t
  rw [find?_rescored, hm]
  exact Sides.onPair_bind_onPair sides s t f fun c x y =>
    (Link.mk x.uri y.uri c).rescored (scorer.score x y) threshold main

theorem Alike.empty : Alike a b .empty .empty :=
  ⟨_, GivenBy.empty a, GivenBy.empty b⟩

theorem Alike.apply (h : Alike a b m n) (h' : Alike a b m' n') (o : SetOperation) :
    Alike a b (o.apply m m') (o.apply n n') := by
  obtain ⟨f, hm, hn⟩ := h
  obtain ⟨g, hm', hn'⟩ := h'
  exact ⟨_, hm.apply hm' o, hn.apply hn' o⟩

theorem Alike.atLeast (h : Alike a b m n) (threshold : Float) :
    Alike a b (m.atLeast threshold) (n.atLeast threshold) := by
  obtain ⟨f, hm, hn⟩ := h
  exact ⟨_, hm.atLeast threshold, hn.atLeast threshold⟩

theorem Alike.rescore (h : Alike a b m n) (scorer : Scorer) (threshold : Float)
    (main : Option Float) :
    Alike a b (m.rescore a scorer threshold main) (n.rescore b scorer threshold main) := by
  obtain ⟨f, hm, hn⟩ := h
  exact ⟨_, hm.rescore scorer threshold main, hn.rescore scorer threshold main⟩

theorem Alike.pairsAtLeast (ha : a.Keyed) (hb : b.Keyed) (score : Entity → Entity → Float)
    (threshold : Float) :
    Alike a b (ofList (Mapper.pairsAtLeast a score threshold))
      (ofList (Mapper.pairsAtLeast b score threshold)) :=
  ⟨fun x y => reached threshold (score x y), Mapper.find?_pairsAtLeast ha score threshold,
    Mapper.find?_pairsAtLeast hb score threshold⟩

end Links

/-- The same warnings, and links that depend on the entities of a pair in the same way. -/
structure Execution.Alike (a b : Sides) (x y : Execution) : Prop where
  links : x.links.Alike a b y.links
  warnings : x.warnings = y.warnings

/-- Results that are alike, slot by slot. -/
def SlotBuffer.Alike (a b : Sides) (x y : SlotBuffer) : Prop :=
  List.Forall₂ (Links.Alike a b) x.slots y.slots

namespace SlotBuffer

variable {a b : Sides} {x y : SlotBuffer}

theorem Alike.length_eq (h : Alike a b x y) : x.length = y.length :=
  List.Forall₂.length_eq h

theorem Alike.isEmpty_eq (h : Alike a b x y) : x.isEmpty = y.isEmpty := by
  obtain ⟨xs⟩ := x
  obtain ⟨ys⟩ := y
  change List.Forall₂ _ xs ys at h
  cases h <;> rfl

/-- Both buffers have a result in a slot, or neither has. -/
theorem Alike.get? (h : Alike a b x y) (slot : ℕ) :
    Option.Rel (Links.Alike a b) (x.get? slot) (y.get? slot) := by
  obtain ⟨xs⟩ := x
  obtain ⟨ys⟩ := y
  change Option.Rel _ xs[slot]? ys[slot]?
  change List.Forall₂ _ xs ys at h
  induction h generalizing slot with
  | nil => exact .none
  | cons hlinks _ ih =>
      cases slot with
      | zero => exact .some hlinks
      | succ slot => exact ih slot

theorem last?_eq_get? (x : SlotBuffer) : x.last? = x.get? (x.length - 1) :=
  List.getLast?_eq_getElem?

theorem getD_alike {m n : Option Links} (h : Option.Rel (Links.Alike a b) m n) :
    (m.getD .empty).Alike a b (n.getD .empty) := by
  cases h with
  | some hlinks => exact hlinks
  | none => exact .empty

theorem Alike.last (h : Alike a b x y) :
    (x.last?.getD .empty).Alike a b (y.last?.getD .empty) := by
  rw [last?_eq_get?, last?_eq_get?, ← h.length_eq]
  exact getD_alike (h.get? _)

theorem Alike.place {m n : Links} (h : Alike a b x y) (hlinks : Links.Alike a b m n)
    (slot : Option ℕ) : Alike a b (x.place slot m) (y.place slot n) := by
  have hpadding : List.Forall₂ (Links.Alike a b)
      (List.replicate (x.slotFor slot - x.length) Links.empty)
      (List.replicate (y.slotFor slot - y.length) Links.empty) := by
    rw [slotFor, slotFor, h.length_eq, List.forall₂_iff_get]
    simp [Links.Alike.empty]
  exact List.rel_append (List.rel_append h hpadding) (.cons hlinks .nil)

end SlotBuffer

end LinkDiscovery
