import LinkDiscovery.Measure.Registry
import LinkDiscovery.Proofs.Links.Lookup
/-!
Links between all pairs of two collections. When every entity is kept under its own address, a pair
of addresses is linked if and only if both are known and their entities reach the threshold. The
standard measures serve as their own mappers.
-/

namespace LinkDiscovery

namespace Collection

/-- Every entity is kept under its own address. -/
def Keyed (c : Collection) : Prop :=
  ∀ uri e, c.find? uri = some e → e.uri = uri

variable {c : Collection}

theorem mem_toList {e : Entity} : e ∈ c.toList ↔ ∃ uri, c.find? uri = some e := by
  simp [toList, values_eq_map_toList, find?]

theorem keyed_empty : empty.Keyed := by
  simp [Keyed, empty, find?]

theorem uri_merge (e other : Entity) : (e.merge other).uri = e.uri := by
  rw [Entity.merge, Std.ExtTreeMap.foldl_eq_foldl_toList]
  generalize other.properties.toList = properties
  induction properties generalizing e with
  | nil => rfl
  | cons p properties ih => exact ih (e.addValues p.1 p.2)

/-- Adding an entity keeps every entity under its own address. -/
theorem Keyed.addEntity (h : c.Keyed) (e : Entity) : (c.addEntity e).Keyed := by
  have hinsert {e' : Entity} (he : e'.uri = e.uri) :
      (Collection.mk (c.entities.insert e.uri e')).Keyed := by
    intro uri f hf
    simp only [find?, Std.ExtTreeMap.getElem?_insert] at hf
    split at hf
    · obtain rfl := Option.some.inj hf
      simp_all
    · exact h uri f hf
  unfold Collection.addEntity
  split
  · rename_i known hknown
    exact hinsert ((uri_merge known e).trans (h e.uri known hknown))
  · exact hinsert rfl

theorem keyed_ofList (es : List Entity) : (ofList es).Keyed := by
  rw [ofList]
  generalize hempty : empty = start
  have hstart : start.Keyed := hempty ▸ keyed_empty
  clear hempty
  induction es generalizing start with
  | nil => exact hstart
  | cons e es ih => exact ih _ (hstart.addEntity e)

theorem Keyed.mem_toList (h : c.Keyed) {e : Entity} : e ∈ c.toList ↔ c.find? e.uri = some e := by
  rw [Collection.mem_toList]
  constructor
  · rintro ⟨uri, he⟩
    rwa [h uri e he]
  · exact fun he => ⟨e.uri, he⟩

theorem Keyed.pairwise (h : c.Keyed) : c.toList.Pairwise fun a b => a.uri ≠ b.uri := by
  rw [toList, values_eq_map_toList, List.pairwise_map]
  refine (List.Pairwise.imp_of_mem ?_ c.entities.distinct_keys_toList)
  rintro ⟨k, a⟩ ⟨k', b⟩ ha hb hne heq
  have ha := h k a (Std.ExtTreeMap.mem_toList_iff_getElem?_eq_some.mp ha)
  have hb := h k' b (Std.ExtTreeMap.mem_toList_iff_getElem?_eq_some.mp hb)
  exact Links.compare_ne_eq hne (ha.symm.trans (heq.trans hb))

end Collection

namespace Sides

/-- What `f` gives for the entities of two addresses, if both are known. -/
def onPair (sides : Sides) {α : Type} (source target : String)
    (f : Entity → Entity → Option α) : Option α :=
  (sides.source.find? source).bind fun s => (sides.target.find? target).bind fun t => f s t

/-- Both collections keep every entity under its own address. -/
def Keyed (sides : Sides) : Prop :=
  sides.source.Keyed ∧ sides.target.Keyed

end Sides

/-- A confidence that reaches a threshold. -/
def reached (threshold c : Float) : Option Float :=
  if threshold ≤ c then some c else none

namespace Mapper

variable {sides : Sides}

theorem pairsAtLeast_pairwise (h : sides.Keyed) (score : Entity → Entity → Float)
    (threshold : Float) :
    (pairsAtLeast sides score threshold).Pairwise Links.DifferentPairs := by
  have hmade {s t : Entity} {l : Link} (hl : (if threshold ≤ score s t then
      some ({ source := s.uri, target := t.uri, confidence := score s t } : Link) else none) =
        some l) : l.source = s.uri ∧ l.target = t.uri := by
    split at hl
    · obtain rfl := Option.some.inj hl
      exact ⟨rfl, rfl⟩
    · cases hl
  rw [pairsAtLeast, List.pairwise_flatMap]
  constructor
  · intro s _
    refine List.Pairwise.filterMap _ ?_ h.2.pairwise
    intro a b hab l hl l' hl' hsame
    have ha := (hmade hl).2
    have hb := (hmade hl').2
    exact hab (ha.symm.trans (hsame.2.trans hb))
  · refine h.1.pairwise.imp ?_
    intro a b hab l hl l' hl' hsame
    obtain ⟨t, -, hl⟩ := List.mem_filterMap.mp hl
    obtain ⟨t', -, hl'⟩ := List.mem_filterMap.mp hl'
    exact hab ((hmade hl).1.symm.trans (hsame.1.trans (hmade hl').1))

theorem confidence_of_mem_pairsAtLeast {score : Entity → Entity → Float} {threshold : Float}
    {l : Link} (h : l ∈ pairsAtLeast sides score threshold) :
    ∃ a b, l.confidence = score a b ∧ threshold ≤ score a b := by
  simp only [pairsAtLeast, List.mem_flatMap, List.mem_filterMap] at h
  obtain ⟨a, -, b, -, hl⟩ := h
  split at hl
  · obtain rfl := Option.some.inj hl
    exact ⟨a, b, rfl, by assumption⟩
  · cases hl

/-- All pairs of two collections that reach a threshold. -/
theorem find?_pairsAtLeast (h : sides.Keyed) (score : Entity → Entity → Float) (threshold : Float)
    (source target : String) :
    (Links.ofList (pairsAtLeast sides score threshold)).find? source target =
      sides.onPair source target fun s t => reached threshold (score s t) := by
  rw [Links.ofList, Links.find?_addAll (pairsAtLeast_pairwise h score threshold),
    Links.find?_empty, Links.none_merged]
  apply Option.ext
  intro c
  rw [Links.lookup_eq_some (pairsAtLeast_pairwise h score threshold)]
  simp only [pairsAtLeast, List.mem_flatMap, List.mem_filterMap, h.1.mem_toList, h.2.mem_toList,
    Sides.onPair, Option.bind_eq_some_iff, reached]
  constructor
  · rintro ⟨a, ha, b, hb, hl⟩
    split at hl
    · obtain ⟨rfl, rfl, rfl⟩ := Link.mk.inj (Option.some.inj hl)
      exact ⟨a, ha, b, hb, by simp [*]⟩
    · cases hl
  · rintro ⟨a, ha, b, hb, hc⟩
    -- the link bears the addresses of the entities, under which they are kept
    have hsource : a.uri = source := h.1 source a ha
    have htarget : b.uri = target := h.2 target b hb
    refine ⟨a, by rwa [hsource], b, by rwa [htarget], ?_⟩
    split at hc
    · obtain rfl := Option.some.inj hc
      simp [*]
    · cases hc

end Mapper

namespace Registry

/-- Every measure serves as its own mapper, and there are no other mappers. -/
def Pairwise (r : Registry) : Prop :=
  ∀ name, r.mapper? name = (r.measure? name).map .pairwise

theorem Pairwise.registerAs {r : Registry} (h : r.Pairwise) (name : String) (m : Measure)
    (hfresh : r.measure? name = none) : (r.registerAs name m).Pairwise := by
  intro other
  have hother := h other
  have hmapper := h name
  simp only [measure?] at hfresh
  simp only [mapper?, measure?, hfresh, Option.map_none] at hmapper hother ⊢
  have hname : Text.lowerLetters name ∉ r.mappers := by simpa using hmapper
  rw [Registry.registerAs, Std.ExtTreeMap.getElem?_insert, Std.ExtTreeMap.getElem?_insertIfNew]
  by_cases hsame : Text.lowerLetters name = Text.lowerLetters other
  · rw [hsame] at hname
    simp [hsame, hname]
  · simpa [hsame] using hother

theorem standard_pairwise : standard.Pairwise := by
  have hempty : empty.Pairwise := fun _ => by simp [mapper?, measure?, empty]
  have h₁ := hempty.registerAs "exactmatch" .exactMatch (by decide)
  have h₂ := h₁.registerAs "jaccard" .jaccard (by decide)
  have h₃ := h₂.registerAs "levenshtein" .levenshtein (by decide)
  have h₄ := h₃.registerAs "trigrams" .trigrams (by decide)
  exact h₄.registerAs "trigram" .trigrams (by decide)

end Registry

end LinkDiscovery
