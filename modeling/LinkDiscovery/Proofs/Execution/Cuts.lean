import LinkDiscovery.Proofs.Execution.Locality
/-!
Raising the threshold of an expression. Without sums, the plan for a larger threshold links what the
plan for a smaller one links, cut at the larger one: only minima and maxima hand the threshold of a
node on to its terms, and cuts commute with the intersections and unions that they stand for.
-/

namespace LinkDiscovery

open Score

/-- Of two cuts one after the other, the larger one counts. -/
theorem reached_bind_reached {θ θ' : Float} (h : θ ≤ θ') (c : Option Float) :
    (c.bind (reached θ)).bind (reached θ') = c.bind (reached θ') := by
  cases c with
  | none => rfl
  | some c =>
      by_cases hc : θ' ≤ c
      · simp only [Option.bind_some, reached_self (le_trans h hc)]
      · by_cases hc' : θ ≤ c
        · simp only [Option.bind_some, reached_self hc']
        · simp only [Option.bind_some, reached_below hc', reached_below hc, Option.bind_none]

/-- Raising thresholds to zero keeps their order. -/
theorem larger_zero_le {θ θ' : Float} (h : θ ≤ θ') : larger θ 0 ≤ larger θ' 0 := by
  have hzero : (0 : Float).isNaN = false := number_of_le_left zero_nonneg
  have hle := le_larger_iff (c := θ) (number_of_le_right h) hzero
  have hpos := le_larger_iff (c := 0) (number_of_le_right h) hzero
  exact (larger_le_iff (number_of_le_left h) hzero).mpr
    ⟨hle.mpr (.inl h), hpos.mpr (.inr zero_nonneg)⟩

/-- The larger one of two confidences is cut as they are. -/
theorem Links.merged_cut {c d : Option Float} (hc : ∀ x ∈ c, x.isNaN = false)
    (hd : ∀ x ∈ d, x.isNaN = false) (θ : Float) :
    (merged c d).bind (reached θ) = merged (c.bind (reached θ)) (d.bind (reached θ)) := by
  cases c with
  | none => rfl
  | some x =>
      cases d with
      | none => simp
      | some y =>
          have hx := hc x rfl
          have hy := hd y rfl
          by_cases hxy : x < y
          · by_cases hθ : θ ≤ x
            · simp [merged, hxy, reached_self hθ, reached_self (le_trans hθ (le_of_lt hxy))]
            · simp [merged, hxy, reached_below hθ]
          · have hyx := (not_lt hx hy).mp hxy
            by_cases hθ : θ ≤ y
            · simp [merged, hxy, reached_self hθ, reached_self (le_trans hθ hyx)]
            · simp only [merged, hxy, if_false, Option.bind_some, reached_below hθ]
              exact (merged_none _).symm

/-- Cuts commute with intersections and unions. -/
theorem SetOperation.joined_cut {o : SetOperation} (ho : o = .intersection ∨ o = .union)
    {c d : Option Float} (hc : ∀ x ∈ c, x.isNaN = false) (hd : ∀ x ∈ d, x.isNaN = false)
    (θ : Float) :
    (o.joined c d).bind (reached θ) = o.joined (c.bind (reached θ)) (d.bind (reached θ)) := by
  rcases ho with rfl | rfl
  · cases c with
    | none => rfl
    | some x =>
        cases d with
        | none => cases h : reached θ x <;> simp [joined, h]
        | some y =>
            have h := le_smaller_iff (c := θ) (hc x rfl) (hd y rfl)
            by_cases hx : θ ≤ x
            · by_cases hy : θ ≤ y
              · simp [joined, reached_self hx, reached_self hy, reached_self (h.mpr ⟨hx, hy⟩)]
              · have hxy : ¬ θ ≤ smaller x y := fun hxy => hy (h.mp hxy).2
                simp [joined, reached_self hx, reached_below hy, reached_below hxy]
            · have hxy : ¬ θ ≤ smaller x y := fun hxy => hx (h.mp hxy).1
              simp [joined, reached_below hx, reached_below hxy]
  · exact Links.merged_cut hc hd θ

namespace Links

variable {m n : Links} {θ θ' : Float}

/-- All confidences reach a threshold; in particular they are numbers. -/
def Reaches (m : Links) (θ : Float) : Prop :=
  ∀ s t, ∀ c ∈ m.find? s t, θ ≤ c

/-- The links that reach a threshold among others. -/
def IsCut (m n : Links) (θ : Float) : Prop :=
  ∀ s t, m.find? s t = (n.find? s t).bind (reached θ)

theorem Reaches.number (h : m.Reaches θ) (s t : String) : ∀ c ∈ m.find? s t, c.isNaN = false :=
  fun c hc => number_of_le_right (h s t c hc)

theorem reaches_empty : Links.empty.Reaches θ := by
  simp [Reaches]

theorem isCut_empty : Links.empty.IsCut .empty θ := by
  simp [IsCut]

theorem Reaches.add (h : m.Reaches θ) {c : Float} (hc : θ ≤ c) (source target : String) :
    (m.add source target c).Reaches θ :=
  forall_find?_add h hc source target

theorem Reaches.addAll {ls : List Link} (h : m.Reaches θ) (hls : ∀ l ∈ ls, θ ≤ l.confidence) :
    (m.addAll ls).Reaches θ :=
  forall_find?_addAll h hls

/-- Leaving out the links that miss a threshold before links are added comes to the same as cutting
what they are added up to, even if a pair comes several times. -/
theorem IsCut.addAll {ls : List Link} (h : m.IsCut n θ') (hn : n.Reaches θ)
    (hls : ∀ l ∈ ls, θ ≤ l.confidence) :
    (m.addAll (ls.filter fun l => θ' ≤ l.confidence)).IsCut (n.addAll ls) θ' := by
  induction ls generalizing m n with
  | nil => exact h
  | cons l ls ih =>
      obtain ⟨hl, hls⟩ := List.forall_mem_cons.mp hls
      have hreaches := hn.add hl l.source l.target
      have hcut (s t : String) :
          ((n.addLink l).find? s t).bind (reached θ') =
            if l.source = s ∧ l.target = t then
              merged (m.find? s t) (reached θ' l.confidence) else m.find? s t := by
        rw [addLink, find?_add, h s t]
        split
        · have hnumber : ∀ x ∈ some l.confidence, x.isNaN = false := by
            rintro _ ⟨⟩
            exact number_of_le_right hl
          exact merged_cut (hn.number s t) hnumber θ'
        · rfl
      rw [List.filter_cons]
      split
      · rename_i hkept
        refine ih (m := m.addLink l) (fun s t => ?_) hreaches hls
        rw [addLink, find?_add, hcut, reached_self (of_decide_eq_true hkept)]
      · rename_i hleft
        refine ih (m := m) (fun s t => ?_) hreaches hls
        rw [hcut, reached_below (fun hle => hleft (decide_eq_true hle)), merged_none, ite_self]

/-- Confidences from zero upwards reach a threshold if they reach it raised to zero. -/
theorem IsCut.of_raised (h : m.IsCut n (larger θ' 0)) (hθ : θ'.isNaN = false)
    (hn : n.Reaches (larger θ 0)) (hθ₀ : θ.isNaN = false) : m.IsCut n θ' := by
  intro s t
  rw [h s t]
  cases hc : n.find? s t with
  | none => rfl
  | some c =>
      have hreach := (larger_le_iff hθ₀ (number_of_le_left zero_nonneg)).mp (hn s t c hc)
      exact reached_larger hθ hreach.2

theorem reaches_atLeast (m : Links) (θ : Float) : (m.atLeast θ).Reaches θ := by
  intro s t c hc
  rw [find?_atLeast] at hc
  obtain ⟨d, -, hd⟩ := Option.bind_eq_some_iff.mp hc
  split at hd
  · rename_i hle
    obtain rfl := Option.some.inj hd
    exact hle
  · cases hd

/-- Of links that come to the same when they are cut, the filters at the ends are cuts of each
other. -/
theorem isCut_atLeast (hle : θ ≤ θ')
    (h : ∀ s t, (m.find? s t).bind (reached θ') = (n.find? s t).bind (reached θ')) :
    (m.atLeast θ').IsCut (n.atLeast θ) θ' := by
  intro s t
  calc (m.atLeast θ').find? s t
      = (m.find? s t).bind (reached θ') := m.find?_atLeast θ'
    _ = (n.find? s t).bind (reached θ') := h s t
    _ = ((n.find? s t).bind (reached θ)).bind (reached θ') := (reached_bind_reached hle _).symm
    _ = ((n.atLeast θ).find? s t).bind (reached θ') := by rw [n.find?_atLeast θ]; rfl

end Links

namespace Mapper

variable {sides : Sides} {score : Entity → Entity → Float} {θ θ' : Float}

theorem le_of_mem_pairsAtLeast {l : Link} (h : l ∈ pairsAtLeast sides score θ) :
    θ ≤ l.confidence := by
  obtain ⟨s, t, hscore, hle⟩ := confidence_of_mem_pairsAtLeast h
  rwa [hscore]

theorem filter_pairsAtLeast (h : θ ≤ θ') :
    (pairsAtLeast sides score θ).filter (fun l => θ' ≤ l.confidence) =
      pairsAtLeast sides score θ' := by
  simp only [pairsAtLeast, List.filter_flatMap, List.filter_filterMap]
  congr 1
  funext s
  congr 1
  funext t
  by_cases hkept : θ' ≤ score s t
  · simp [hkept, le_trans h hkept]
  · by_cases hfound : θ ≤ score s t <;> simp [hkept, hfound]

/-- A mapper that is asked for a larger threshold finds what it finds for a smaller one, cut. -/
theorem isCut_pairsAtLeast (h : θ ≤ θ') :
    (Links.ofList (pairsAtLeast sides score θ')).IsCut (.ofList (pairsAtLeast sides score θ))
      θ' := by
  rw [← filter_pairsAtLeast h]
  exact Links.isCut_empty.addAll Links.reaches_empty fun _ => le_of_mem_pairsAtLeast

theorem reaches_pairsAtLeast : (Links.ofList (pairsAtLeast sides score θ)).Reaches θ :=
  Links.reaches_empty.addAll fun _ => le_of_mem_pairsAtLeast

end Mapper

/-- The threshold of a compound does not reach its terms, or it reaches both as it is, and then their
links are intersected or united. -/
theorem Compound.thresholds_or {c : Compound} (hc : c.keyword ≠ .add) :
    (∀ θ, c.thresholds θ = (c.left.threshold, c.right.threshold)) ∨
      (∀ θ, c.thresholds θ = (θ, θ)) ∧ (c.keyword.operator.setOperation = .intersection ∨
        c.keyword.operator.setOperation = .union) := by
  cases hk : c.keyword with
  | add => exact absurd hk hc
  | and | or | xor | minus => exact .inl fun θ => by simp only [thresholds, hk]
  | min => exact .inr ⟨fun θ => by simp only [thresholds, hk], .inl rfl⟩
  | max => exact .inr ⟨fun θ => by simp only [thresholds, hk], .inr rfl⟩

/-- Two executions, for a threshold and for a larger one: the second has the same warnings and links
what the first one links, cut. -/
structure Execution.Raised (θ θ' : Float) (x y : Execution) : Prop where
  reaches : x.links.Reaches θ
  cut : y.links.IsCut x.links θ'
  warnings : y.warnings = x.warnings

/-- An execution with the warnings of another one, whose links are those of the other one that reach a
threshold. -/
structure Execution.CutAt (θ : Float) (x y : Execution) : Prop where
  warnings : y.warnings = x.warnings
  links : ∀ source target, y.links.find? source target = (x.links.atLeast θ).find? source target

/-- With raised thresholds, links are cut at the thresholds as they are. -/
theorem Execution.Raised.cutAt {θ θ' : Float} {x y : Execution} (h : θ ≤ θ')
    (hxy : Raised (larger θ 0) (larger θ' 0) x y) : CutAt θ' x y := by
  refine ⟨hxy.warnings, fun source target => ?_⟩
  rw [Links.find?_atLeast]
  exact hxy.cut.of_raised (number_of_le_right h) hxy.reaches (number_of_le_left h) source target

namespace Engine

variable {e : Engine} {θ θ' : Float}

theorem run_raised (hr : e.registry.MapsPairwise) (h : θ ≤ θ') (text : String) (position : ℕ) :
    Agree (Execution.Raised θ θ') (e.run (.run text θ) position)
      (e.run (.run text θ') position) := by
  simp only [run, Instruction.run, require, bind, Except.bind, Mapper.run]
  cases Comparison.read text e.sides.sourceVar e.sides.targetVar with
  | error fault => cases fault <;> exact .error _
  | ok c =>
      simp only []
      cases hmapper : e.registry.mapper? c.measure with
      | none => exact .ok ⟨Links.reaches_empty, Links.isCut_empty, rfl⟩
      | some mapper =>
          obtain ⟨m, rfl⟩ := hr _ _ hmapper
          exact .ok ⟨Mapper.reaches_pairsAtLeast, Mapper.isCut_pairsAtLeast h, rfl⟩

/-- Plans that join and filter results filter them to cuts of each other, if what they join comes to
the same when it is cut. -/
theorem executeNested_join_raised {R : Execution → Execution → Prop} {p p' q q' : NestedPlan}
    {o : SetOperation} (h : θ ≤ θ') (hp : Agree R (e.executeNested p) (e.executeNested p'))
    (hq : Agree R (e.executeNested q) (e.executeNested q'))
    (hwarnings : ∀ x y, R x y → y.warnings = x.warnings)
    (hcut : ∀ x y x' y', R x y → R x' y' → ∀ s t,
      (o.joined (y.links.find? s t) (y'.links.find? s t)).bind (reached θ') =
        (o.joined (x.links.find? s t) (x'.links.find? s t)).bind (reached θ')) :
    Agree (Execution.Raised θ θ')
      (e.executeNested (.node [] [p, q] (some o) (some (.filtering θ))))
      (e.executeNested (.node [] [p', q'] (some o) (some (.filtering θ')))) := by
  simp only [executeNested_join]
  refine hp.bind fun x y hxy => ?_
  refine hq.bind fun x' y' hxy' => ?_
  refine .ok ⟨Links.reaches_atLeast _ θ, Links.isCut_atLeast h fun s t => ?_, ?_⟩
  · rw [SetOperation.find?_apply, SetOperation.find?_apply]
    exact hcut x y x' y' hxy hxy' s t
  · simp only [hwarnings x y hxy, hwarnings x' y' hxy']

open Specification in
/-- Raising the threshold of an expression without sums cuts what its plan links. -/
theorem executeNested_raised (hr : e.registry.MapsPairwise) {o : Outline} (hsums : o.NoSums)
    (h : θ ≤ θ') :
    Agree (Execution.Raised (larger θ 0) (larger θ' 0))
      (e.executeNested (ofOutline o θ).plan) (e.executeNested (ofOutline o θ').plan) := by
  have hraised := larger_zero_le h
  induction o with
  | leaf text call =>
      change Agree _ (e.executeNested (.atomic [.run text (larger θ 0)]))
        (e.executeNested (.atomic [.run text (larger θ' 0)]))
      rw [executeNested_run, executeNested_run]
      exact run_raised hr hraised text 0
  | node c left right ihl ihr =>
      obtain ⟨hc, hl, hrt⟩ := hsums
      simp only [ofOutline, plan_ofCompound, hc, if_false]
      rcases Compound.thresholds_or hc with hwritten | ⟨hpassed, ho⟩
      · -- the terms are planned the same for both thresholds
        simp only [hwritten]
        refine executeNested_join_raised hraised (.of_self (fun _ => rfl) _)
          (.of_self (fun _ => rfl) _) (by rintro x _ rfl; rfl) ?_
        rintro x _ x' _ rfl rfl s t
        rfl
      · simp only [hpassed]
        refine executeNested_join_raised hraised (ihl hl) (ihr hrt) (fun _ _ hxy => hxy.warnings) ?_
        intro x y x' y' hxy hxy' s t
        have hjoined := SetOperation.joined_cut ho (hxy.reaches.number s t)
          (hxy'.reaches.number s t) (larger θ' 0)
        rw [hxy.cut s t, hxy'.cut s t, ← hjoined]
        exact reached_bind_reached (le_self (number_of_le_right hraised)) _

/-- For a text without sums, a larger threshold makes no difference to whether there is a canonical
plan, to the fault of the plan or to its warnings, and the plan links the pairs that it links for the
smaller threshold and that reach the larger one. -/
theorem executeNested_atLeast {text : String}
    (hsums : ∀ o, Outline.parse text = .ok o → o.NoSums) (h : θ ≤ θ') (sides : Sides) :
    Agree (fun s s' => Agree (Execution.CutAt θ') ((standard sides).executeNested s.plan)
        ((standard sides).executeNested s'.plan))
      (Specification.parse text θ) (Specification.parse text θ') := by
  unfold Specification.parse
  cases hread : Outline.read text with
  | error fault => exact .error fault
  | ok o =>
      have hraised := executeNested_raised (e := standard sides)
        Registry.standard_pairwise.mapsPairwise (hsums o (Outline.read_eq_ok.mp hread).1) h
      exact .ok (hraised.imp fun _ _ hex => hex.cutAt h)

/-- A minimum hands its threshold on to both of its terms. -/
theorem executeNested_atLeast_sample :
    let w := Grammar.Spelling.sample .min ['M', 'i', 'n']
    let text := String.ofList w.chars
    Specification.parse text 0.5 = .ok (w.tree 0.5) ∧
      (∀ o, Outline.parse text = .ok o → o.NoSums) ∧ (0.5 : Float) ≤ 0.75 ∧
      Agree (fun s s' => Agree (Execution.CutAt 0.75) ((standard sampleSides).executeNested s.plan)
          ((standard sampleSides).executeNested s'.plan))
        (Specification.parse text 0.5) (Specification.parse text 0.75) := by
  intro w text
  have hw : w.WrittenOut := Grammar.Spelling.sample_writtenOut rfl
  obtain ⟨ho, hs⟩ := hw.parse_chars 0.5
  have hsums : ∀ o, Outline.parse text = .ok o → o.NoSums := by
    intro o ho'
    obtain rfl : w.outline = o := Except.ok.inj (ho.symm.trans ho')
    exact ⟨by decide, trivial, trivial⟩
  have hle : (0.5 : Float) ≤ 0.75 := by decide
  exact ⟨hs, hsums, hle, executeNested_atLeast hsums hle sampleSides⟩

end Engine

end LinkDiscovery
