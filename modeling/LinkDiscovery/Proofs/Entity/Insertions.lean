import LinkDiscovery.Entity.Basic
import LinkDiscovery.Proofs.Execution.Pairs
import Mathlib
/-!
What a collection holds after any insertions: of each address that was mentioned, the properties that
were mentioned with it, and all values that were given for them. Nothing else about the insertions
counts, so that neither their order nor their repetition makes a difference.
-/

namespace LinkDiscovery

namespace Entity

variable {e other : Entity} {p q v : String}

/-- Entities with one address, the same properties and the same values of each are equal. -/
theorem ext_of_values (huri : e.uri = other.uri)
    (hproperties : ∀ p, p ∈ e.properties ↔ p ∈ other.properties)
    (hvalues : ∀ p v, v ∈ e.values p ↔ v ∈ other.values p) : e = other := by
  obtain ⟨uri, properties⟩ := e
  obtain ⟨uri', properties'⟩ := other
  obtain rfl : uri = uri' := huri
  congr 1
  refine treeMap_ext hproperties fun p vs vs' h h' => Std.ExtTreeSet.ext_mem fun v => ?_
  simpa [values, Std.ExtTreeMap.getD_eq_getD_getElem?, h, h'] using hvalues p v

@[simp]
theorem mem_addProperty : p ∈ (e.addProperty q v).properties ↔ q = p ∨ p ∈ e.properties := by
  simp [addProperty]

@[simp]
theorem mem_values_addProperty {w : String} :
    w ∈ (e.addProperty q v).values p ↔ q = p ∧ v = w ∨ w ∈ e.values p := by
  by_cases h : q = p
  · subst h
    simp [addProperty, values]
  · simp [addProperty, values, Std.ExtTreeMap.getD_insert, h]

@[simp]
theorem mem_addValues {vs : Std.ExtTreeSet String} :
    p ∈ (e.addValues q vs).properties ↔ q = p ∨ p ∈ e.properties := by
  simp [addValues]

@[simp]
theorem mem_values_addValues {vs : Std.ExtTreeSet String} :
    v ∈ (e.addValues q vs).values p ↔ q = p ∧ v ∈ vs ∨ v ∈ e.values p := by
  by_cases h : q = p
  · subst h
    simp [addValues, values, or_comm]
  · simp [addValues, values, Std.ExtTreeMap.getD_insert, h]

/-- Merging adds properties, and values to each of them. -/
theorem mem_foldl_addValues (properties : List (String × Std.ExtTreeSet String)) (e : Entity) :
    (p ∈ (properties.foldl (fun e q => e.addValues q.1 q.2) e).properties ↔
        (∃ q ∈ properties, q.1 = p) ∨ p ∈ e.properties) ∧
      (v ∈ (properties.foldl (fun e q => e.addValues q.1 q.2) e).values p ↔
        (∃ q ∈ properties, q.1 = p ∧ v ∈ q.2) ∨ v ∈ e.values p) := by
  induction properties generalizing e with
  | nil => simp
  | cons q properties ih =>
      obtain ⟨hproperty, hvalue⟩ := ih (e.addValues q.1 q.2)
      simp only [List.foldl_cons, hproperty, hvalue, mem_addValues, mem_values_addValues,
        List.exists_mem_cons_iff]
      exact ⟨by rw [or_left_comm, or_assoc], by rw [or_left_comm, or_assoc]⟩

theorem mem_merge : p ∈ (e.merge other).properties ↔ p ∈ other.properties ∨ p ∈ e.properties := by
  have hkeys : (∃ q ∈ other.properties.toList, q.1 = p) ↔ p ∈ other.properties := by
    rw [← Std.ExtTreeMap.mem_keys, ← Std.ExtTreeMap.map_fst_toList_eq_keys, List.mem_map]
  rw [merge, Std.ExtTreeMap.foldl_eq_foldl_toList,
    (mem_foldl_addValues (v := p) other.properties.toList e).1, hkeys]

theorem mem_values_merge : v ∈ (e.merge other).values p ↔ v ∈ other.values p ∨ v ∈ e.values p := by
  rw [merge, Std.ExtTreeMap.foldl_eq_foldl_toList, (mem_foldl_addValues other.properties.toList e).2]
  cases h : other.properties[p]? <;> simp [values, Std.ExtTreeMap.getD_eq_getD_getElem?, h]

end Entity

/-- What is recorded in a collection: one value of a property, or all that is known of an entity. -/
inductive Insertion where
  | triple (uri property value : String)
  | entity (e : Entity)

namespace Insertion

/-- The address of which something is recorded. -/
def uri : Insertion → String
  | triple uri _ _ => uri
  | entity e => e.uri

/-- The property is mentioned, with or without a value. -/
def Mentions (i : Insertion) (property : String) : Prop :=
  match i with
  | triple _ p _ => p = property
  | entity e => property ∈ e.properties

/-- The property gets the value. -/
def Gives (i : Insertion) (property value : String) : Prop :=
  match i with
  | triple _ p v => p = property ∧ v = value
  | entity e => value ∈ e.values property

end Insertion

namespace Collection

/-- Records one insertion. -/
def record (c : Collection) : Insertion → Collection
  | .triple uri property value => c.addTriple uri property value
  | .entity e => c.addEntity e

/-- Records insertions one by one. -/
def recordAll (c : Collection) (is : List Insertion) : Collection :=
  is.foldl record c

/-- A collection holds what the insertions say, and nothing else. -/
structure Holds (c : Collection) (is : List Insertion) : Prop where
  keyed : c.Keyed
  known : ∀ uri, (c.find? uri).isSome ↔ ∃ i ∈ is, i.uri = uri
  property : ∀ uri e, c.find? uri = some e → ∀ p,
    p ∈ e.properties ↔ ∃ i ∈ is, i.uri = uri ∧ i.Mentions p
  value : ∀ uri e, c.find? uri = some e → ∀ p v,
    v ∈ e.values p ↔ ∃ i ∈ is, i.uri = uri ∧ i.Gives p v

variable {c d : Collection} {is js : List Insertion}

/-- The entity that an insertion leaves at its address. -/
def recorded (known : Option Entity) : Insertion → Entity
  | .triple uri property value => (known.getD (.ofUri uri)).addProperty property value
  | .entity e => (known.map (·.merge e)).getD e

theorem find?_record (c : Collection) (i : Insertion) (uri : String) :
    (c.record i).find? uri =
      if i.uri = uri then some (recorded (c.find? uri) i) else c.find? uri := by
  cases i with
  | triple u p v =>
      change (c.entities.insert u _)[uri]? = if u = uri then _ else _
      rw [Std.ExtTreeMap.getElem?_insert, Std.ExtTreeMap.getD_eq_getD_getElem?]
      by_cases h : u = uri
      · simp [h, recorded, find?]
      · simp [h, find?]
  | entity e =>
      change (c.addEntity e).entities[uri]? = if e.uri = uri then _ else _
      by_cases h : e.uri = uri
      · cases hknown : c.entities[uri]? <;> simp [addEntity, recorded, find?, h, hknown]
      · cases hknown : c.entities[e.uri]? <;>
          simp [addEntity, find?, Std.ExtTreeMap.getElem?_insert, h, hknown]

theorem find?_record_eq_some {i : Insertion} {uri : String} {e : Entity} :
    (c.record i).find? uri = some e ↔
      i.uri = uri ∧ recorded (c.find? uri) i = e ∨ i.uri ≠ uri ∧ c.find? uri = some e := by
  rw [find?_record]
  split
  · rename_i huri
    simp [huri]
  · rename_i huri
    simp [huri]

theorem uri_recorded {known : Option Entity} {i : Insertion} (h : ∀ e ∈ known, e.uri = i.uri) :
    (recorded known i).uri = i.uri := by
  cases known with
  | none => cases i <;> rfl
  | some e =>
      cases i with
      | triple u p v => exact h e rfl
      | entity e' => exact (uri_merge e e').trans (h e rfl)

theorem mem_recorded {known : Option Entity} {i : Insertion} {p : String} :
    p ∈ (recorded known i).properties ↔ (∃ e ∈ known, p ∈ e.properties) ∨ i.Mentions p := by
  cases i with
  | triple u q v => cases known <;> simp [recorded, Insertion.Mentions, Entity.ofUri, or_comm]
  | entity e => cases known <;> simp [recorded, Insertion.Mentions, Entity.mem_merge, or_comm]

theorem mem_values_recorded {known : Option Entity} {i : Insertion} {p v : String} :
    v ∈ (recorded known i).values p ↔ (∃ e ∈ known, v ∈ e.values p) ∨ i.Gives p v := by
  cases i with
  | triple u q w =>
      have hnone : v ∉ (Entity.ofUri u).values p := by simp [Entity.ofUri, Entity.values]
      cases known <;> simp [recorded, Insertion.Gives, hnone, or_comm]
  | entity e => cases known <;> simp [recorded, Insertion.Gives, Entity.mem_values_merge, or_comm]

namespace Holds

theorem empty : empty.Holds [] where
  keyed := keyed_empty
  known := by simp [Collection.empty, find?]
  property := by simp [Collection.empty, find?]
  value := by simp [Collection.empty, find?]

/-- What is said of an address is known of the entity that stands there. -/
theorem exists_find? (h : c.Holds is) {uri : String} {K : Entity → Prop} {S : Insertion → Prop}
    (hK : ∀ e, c.find? uri = some e → (K e ↔ ∃ i ∈ is, i.uri = uri ∧ S i)) :
    (∃ e ∈ c.find? uri, K e) ↔ ∃ i ∈ is, i.uri = uri ∧ S i := by
  constructor
  · rintro ⟨e, he, hke⟩
    exact (hK e he).mp hke
  · rintro ⟨i, hi, huri, hs⟩
    obtain ⟨e, he⟩ := Option.isSome_iff_exists.mp ((h.known uri).mpr ⟨i, hi, huri⟩)
    exact ⟨e, he, (hK e he).mpr ⟨i, hi, huri, hs⟩⟩

/-- A collection goes on to hold what is said when one more insertion is recorded. -/
theorem record (h : c.Holds is) (i : Insertion) : (c.record i).Holds (is ++ [i]) := by
  have hmem (P : Insertion → Prop) : (∃ j ∈ is ++ [i], P j) ↔ (∃ j ∈ is, P j) ∨ P i := by
    simp [or_and_right, exists_or]
  refine ⟨fun uri e he => ?_, fun uri => ?_, fun uri e he p => ?_, fun uri e he p v => ?_⟩
  · rcases find?_record_eq_some.mp he with ⟨huri, rfl⟩ | ⟨-, he⟩
    · rw [uri_recorded fun e he => (h.keyed uri e he).trans huri.symm, huri]
    · exact h.keyed uri e he
  · rw [find?_record, hmem, ← h.known]
    by_cases huri : i.uri = uri <;> simp [huri]
  · rw [hmem]
    rcases find?_record_eq_some.mp he with ⟨huri, rfl⟩ | ⟨huri, he⟩
    · rw [mem_recorded, h.exists_find? fun e he => h.property uri e he p, and_iff_right huri]
    · rw [h.property uri e he, or_iff_left fun hi => huri hi.1]
  · rw [hmem]
    rcases find?_record_eq_some.mp he with ⟨huri, rfl⟩ | ⟨huri, he⟩
    · rw [mem_values_recorded, h.exists_find? fun e he => h.value uri e he p v, and_iff_right huri]
    · rw [h.value uri e he, or_iff_left fun hi => huri hi.1]

theorem recordAll (h : c.Holds is) (js : List Insertion) : (c.recordAll js).Holds (is ++ js) := by
  induction js generalizing c is with
  | nil => rwa [List.append_nil]
  | cons j js ih =>
      have hnext := ih (h.record j)
      rwa [List.append_assoc] at hnext

/-- What insertions say determines the collection. -/
theorem eq (hc : c.Holds is) (hd : d.Holds js) (h : ∀ i, i ∈ is ↔ i ∈ js) : c = d := by
  have hsame {P : Insertion → Prop} : (∃ i ∈ is, P i) ↔ ∃ i ∈ js, P i :=
    exists_congr fun i => and_congr_left' (h i)
  obtain ⟨entities⟩ := c
  obtain ⟨entities'⟩ := d
  congr 1
  refine treeMap_ext (fun uri => ?_) fun uri e e' he he' => ?_
  · rw [Std.ExtTreeMap.mem_iff_isSome_getElem?, Std.ExtTreeMap.mem_iff_isSome_getElem?]
    exact ((hc.known uri).trans hsame).trans (hd.known uri).symm
  · refine Entity.ext_of_values ?_ (fun p => ?_) (fun p v => ?_)
    · exact (hc.keyed uri e he).trans (hd.keyed uri e' he').symm
    · exact ((hc.property uri e he p).trans hsame).trans (hd.property uri e' he' p).symm
    · exact ((hc.value uri e he p v).trans hsame).trans (hd.value uri e' he' p v).symm

/-- A collection holds what its own entities say. -/
theorem of_keyed (h : c.Keyed) {es : List Entity} (hes : ∀ e, e ∈ es ↔ e ∈ c.toList) :
    c.Holds (es.map .entity) := by
  have hentities (uri : String) (S : Insertion → Prop) :
      (∃ i ∈ es.map Insertion.entity, i.uri = uri ∧ S i) ↔
        ∃ e, c.find? uri = some e ∧ S (.entity e) := by
    simp only [List.mem_map, exists_exists_and_eq_and, hes, h.mem_toList, Insertion.uri]
    constructor
    · rintro ⟨e, he, rfl, hs⟩
      exact ⟨e, he, hs⟩
    · rintro ⟨e, he, hs⟩
      obtain rfl := h uri e he
      exact ⟨e, he, rfl, hs⟩
  refine ⟨h, fun uri => ?_, fun uri e he p => ?_, fun uri e he p v => ?_⟩
  · have hknown := hentities uri fun _ => True
    simp only [and_true] at hknown
    rw [hknown, Option.isSome_iff_exists]
  · rw [hentities, he]
    simp [Insertion.Mentions]
  · rw [hentities, he]
    simp [Insertion.Gives]

end Holds

theorem holds_recordAll (is : List Insertion) : (empty.recordAll is).Holds is :=
  Holds.empty.recordAll is

theorem ofList_eq_recordAll (es : List Entity) : ofList es = empty.recordAll (es.map .entity) := by
  rw [ofList, recordAll, List.foldl_map]
  rfl

/-- Insertions leave the same collection in whatever order they are recorded. It holds the addresses
that they mention, each with its own entity, the properties that they mention and the values that they
give. A list of its entities, each of them as often as it may be and in any order, makes the same
collection again. -/
theorem recordAll_exact (is : List Insertion) :
    (∀ js, is.Perm js → empty.recordAll js = empty.recordAll is) ∧
      (∀ uri, ((empty.recordAll is).find? uri).isSome ↔ ∃ i ∈ is, i.uri = uri) ∧
      (∀ uri e, (empty.recordAll is).find? uri = some e → e.uri = uri ∧ ∀ p,
        (p ∈ e.properties ↔ ∃ i ∈ is, i.uri = uri ∧ i.Mentions p) ∧
          ∀ v, v ∈ e.values p ↔ ∃ i ∈ is, i.uri = uri ∧ i.Gives p v) ∧
      ∀ es : List Entity, (∀ e, e ∈ es ↔ e ∈ (empty.recordAll is).toList) →
        ofList es = empty.recordAll is := by
  have hholds := holds_recordAll is
  refine ⟨fun js hjs => ?_, hholds.known, fun uri e he => ⟨hholds.keyed uri e he, fun p => ?_⟩,
    fun es hes => ?_⟩
  · exact (holds_recordAll js).eq hholds fun i => hjs.mem_iff.symm
  · exact ⟨hholds.property uri e he p, hholds.value uri e he p⟩
  · rw [ofList_eq_recordAll]
    exact (holds_recordAll _).eq (.of_keyed hholds.keyed hes) fun _ => Iff.rfl

/-- Insertions for two addresses: values one by one and together, one of them twice, and a property
without a value. -/
def sampleInsertions : List Insertion :=
  [.triple "s" "a" "one", .entity ((Entity.ofUri "s").addValues "b" ∅),
    .entity ((Entity.ofUri "s").addProperty "a" "two"), .triple "t" "a" "one",
    .triple "s" "a" "one"]

theorem recordAll_exact_sample :
    sampleInsertions.Perm sampleInsertions.reverse ∧
      empty.recordAll sampleInsertions.reverse = empty.recordAll sampleInsertions ∧
      (∃ e, (empty.recordAll sampleInsertions).find? "s" = some e ∧ e.uri = "s" ∧
        "b" ∈ e.properties ∧ ∀ v, v ∈ e.values "b" ↔
          ∃ i ∈ sampleInsertions, i.uri = "s" ∧ i.Gives "b" v) ∧
      let es := (empty.recordAll sampleInsertions).toList
      es.length = 2 ∧ ofList (es.reverse ++ es) = empty.recordAll sampleInsertions := by
  obtain ⟨hperm, hknown, hentity, hagain⟩ := recordAll_exact sampleInsertions
  have hreverse := (List.reverse_perm sampleInsertions).symm
  obtain ⟨e, he⟩ := Option.isSome_iff_exists.mp
    ((hknown "s").mpr ⟨.triple "s" "a" "one", by simp [sampleInsertions], rfl⟩)
  obtain ⟨huri, hproperties⟩ := hentity "s" e he
  obtain ⟨hproperty, hvalue⟩ := hproperties "b"
  have hmentioned := hproperty.mpr ⟨.entity ((Entity.ofUri "s").addValues "b" ∅),
    by simp [sampleInsertions], rfl, Entity.mem_addValues.mpr (.inl rfl)⟩
  exact ⟨hreverse, hperm _ hreverse, ⟨e, he, huri, hmentioned, hvalue⟩, by decide +kernel,
    hagain _ (by simp)⟩

end Collection

end LinkDiscovery
