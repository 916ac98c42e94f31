import LinkDiscovery.Configuration
import LinkDiscovery.Proofs.Grammar.Levels
/-!
Variables in front of properties. A configuration may declare a variable with any number of question marks
in front of its name, and the name may begin with a blank. Of a path the blanks at both ends are dropped,
and then one question mark, before the name is looked for at its beginning. So the name is found behind one
question mark, without one if it does not begin with a blank, and never behind several. A path in which the
name is not found stays whole.
-/

namespace LinkDiscovery

open Text

/-! What configurations declare. -/

/-- A configuration of exact matches, with a given variable for both sides. -/
def Configuration.exactly (v : String) : Configuration where
  source := { id := "source", var := v }
  target := { id := "target", var := v }
  metric := "exactmatch(a, a)"
  acceptance := 1
  verification := 1
  acceptanceFile := none
  verificationFile := none

theorem Configuration.fault?_exactly {v : String} (h : Path.bareName v ≠ "") :
    (exactly v).fault? = none := by
  have hmetric : isBlankText "exactmatch(a, a)" = false := by decide
  have hunit : inUnit 1 = true := by decide +kernel
  have horder : ¬ (1 : Float) < 1 := by decide +kernel
  exact fault?_eq_none.mpr ⟨hmetric, hunit, hunit, horder, h, h⟩

namespace Path

/-- A configuration without faults can declare the variable for one of its knowledge bases. -/
def Declarable (v : String) : Prop :=
  ∃ c : Configuration, c.fault? = none ∧ (v = c.source.var ∨ v = c.target.var)

/-- The variables that can be declared are those that have a name. -/
theorem declarable_iff {v : String} : Declarable v ↔ bareName v ≠ "" := by
  constructor
  · rintro ⟨c, hc, hv⟩
    obtain ⟨-, -, -, -, hsource, htarget⟩ := Configuration.fault?_eq_none.mp hc
    rcases hv with rfl | rfl
    · exact hsource
    · exact htarget
  · intro h
    exact ⟨.exactly v, Configuration.fault?_exactly h, .inl rfl⟩

/-! Names and their question marks. -/

/-- How many question marks a variable has in front of its name. -/
def marks (v : String) : ℕ :=
  (v.toList.takeWhile (· = '?')).length

/-- The text begins with a blank. -/
def StartsBlank (text : List Char) : Prop :=
  ∃ c rest, text = c :: rest ∧ isBlank c = true

/-- A name begins with a character other than the question mark. -/
def IsName (name : List Char) : Prop :=
  ∃ c rest, name = c :: rest ∧ c ≠ '?'

variable {v p path : String} {name front : List Char} {n : ℕ}

theorem toList_bareName (v : String) : (bareName v).toList = v.toList.dropWhile (· = '?') :=
  String.toList_ofList

theorem isName_bareName (h : bareName v ≠ "") : IsName (bareName v).toList := by
  cases hname : (bareName v).toList with
  | nil => exact absurd (String.toList_eq_nil_iff.mp hname) h
  | cons c rest =>
      have hhead := List.head?_dropWhile_not (· = '?') v.toList
      rw [← toList_bareName, hname] at hhead
      exact ⟨c, rest, rfl, of_decide_eq_false hhead⟩

/-- A variable is its name behind its question marks. -/
theorem marks_append_bareName (v : String) :
    List.replicate (marks v) '?' ++ (bareName v).toList = v.toList := by
  have hmarks : v.toList.takeWhile (· = '?') = List.replicate (marks v) '?' := by
    apply List.eq_replicate_of_mem
    intro c hc
    simpa using List.mem_takeWhile_imp hc
  rw [toList_bareName, ← hmarks, List.takeWhile_append_dropWhile]

/-! Properties behind a point. -/

/-- A property is not empty, and has no blanks at its ends. -/
structure IsProperty (p : String) : Prop where
  ne_empty : p ≠ ""
  trimmed : trim p = p

theorem IsProperty.trimChars (hp : IsProperty p) : trimChars p.toList = p.toList := by
  rw [← toList_trim, hp.trimmed]

theorem IsProperty.toList_ne (hp : IsProperty p) : p.toList ≠ [] :=
  fun h => hp.ne_empty (String.toList_eq_nil_iff.mp h)

theorem trimEnd_append (hp : IsProperty p) : trimEnd (front ++ p.toList) = front ++ p.toList := by
  have hend : p.toList.rdropWhile isBlank = p.toList := by
    rw [← hp.trimChars]
    exact List.rdropWhile_idempotent isBlank _
  apply List.rdropWhile_eq_self_iff.mpr
  intro h
  rw [List.getLast_append_of_ne_nil h hp.toList_ne]
  exact List.rdropWhile_eq_self_iff.mp hend hp.toList_ne

/-- Of a property behind a point, only what stands in front can lose blanks. -/
theorem trimChars_behind (hp : IsProperty p) (front : List Char) :
    trimChars (front ++ '.' :: p.toList) = front.dropWhile isBlank ++ '.' :: p.toList := by
  have hfront : (front ++ '.' :: p.toList).dropWhile isBlank =
      front.dropWhile isBlank ++ '.' :: p.toList := by
    rw [List.dropWhile_append]
    split
    · rename_i hempty
      rw [List.isEmpty_iff.mp hempty]
      rfl
    · rfl
  rw [trimChars, hfront, List.append_cons]
  exact trimEnd_append hp

/-! Where a name is found. -/

/-- What stands behind a name in a path, without the blanks and the question mark that are dropped first. -/
def afterVariable? (name path : List Char) : Option (List Char) :=
  afterName? name (dropMark (trimChars path))

theorem property_eq (h : bareName v ≠ "") :
    property path v =
      ((afterVariable? (bareName v).toList path.toList).map String.ofList).getD (trim path) := by
  have hname : (bareName v).toList.isEmpty = false := by
    simpa using h
  simp only [property, hname, afterVariable?, trim]
  cases afterName? (bareName v).toList (dropMark (trimChars path.toList)) <;> rfl

theorem dropMark_cons_of_ne {c : Char} (h : c ≠ '?') (rest : List Char) :
    dropMark (c :: rest) = c :: rest := by
  rw [dropMark]
  simpa using h

theorem afterName?_eq_some {rest path : List Char} :
    afterName? name path = some rest ↔ path = name ++ '.' :: rest := by
  rw [afterName?, eq_comm (a := path), ← List.isPrefixOf?_eq_some_iff_append_eq]
  constructor
  · intro h
    split at h
    · rename_i hfound
      rw [hfound, Option.some.inj h]
    · exact absurd h nofun
  · intro h
    simp only [h]

/-- A text with the character `x` behind it cannot begin with a text that is not empty and does not have
`x`, and then with itself and `x`. -/
theorem append_cons_ne {x : Char} {w : List Char} (hne : w ≠ []) (hx : x ∉ w) (d a b : List Char) :
    d ++ x :: a ≠ w ++ (d ++ x :: b) := by
  -- Where `d` is long enough it begins with `w`, and the rest of it is a shorter text of the same kind.
  induction hlength : d.length using Nat.strong_induction_on generalizing d with
  | _ k ih =>
    intro h
    rcases List.append_eq_append_iff.mp h with ⟨r, rfl, hr⟩ | ⟨d', rfl, hd'⟩
    · -- `d` ends inside `w`, and the `x` behind it is either in `w` or where `d` begins again.
      cases r with
      | nil =>
          obtain ⟨c, d, rfl⟩ := List.exists_cons_of_ne_nil (by simpa using hne)
          obtain ⟨rfl, -⟩ := List.cons.inj hr
          exact hx (by simp)
      | cons c r =>
          obtain ⟨rfl, -⟩ := List.cons.inj hr
          exact hx (by simp)
    · have hshorter : d'.length < k := by
        have hpos := List.length_pos_iff.mpr hne
        rw [List.length_append] at hlength
        omega
      rw [List.append_assoc] at hd'
      exact ih d'.length hshorter d' rfl hd'.symm

/-- The name is found where so many question marks stand in front of it. -/
def Found (n : ℕ) (name : List Char) : Prop :=
  n = 1 ∨ n = 0 ∧ ¬ StartsBlank name

/-- Behind a question mark no blanks are lost. -/
theorem trimChars_mark (hp : IsProperty p) (front : List Char) :
    trimChars ('?' :: (front ++ '.' :: p.toList)) = '?' :: (front ++ '.' :: p.toList) := by
  have hdark : ¬ isBlank '?' = true := by decide
  rw [← List.cons_append, trimChars_behind hp, List.dropWhile_cons_of_neg hdark]

theorem afterVariable?_one (hp : IsProperty p) (name : List Char) :
    afterVariable? name ('?' :: (name ++ '.' :: p.toList)) = some p.toList := by
  rw [afterVariable?, trimChars_mark hp]
  exact afterName?_eq_some.mpr rfl

theorem afterVariable?_several (hname : IsName name) (hp : IsProperty p) (n : ℕ) :
    afterVariable? name (List.replicate (n + 2) '?' ++ (name ++ '.' :: p.toList)) = none := by
  obtain ⟨c, rest, rfl, hc⟩ := hname
  rw [afterVariable?, List.replicate_succ, List.cons_append, ← List.append_assoc, trimChars_mark hp,
    Option.eq_none_iff_forall_ne_some]
  intro found h
  -- Only one question mark is dropped, and the next one is not what the name begins with.
  have hfound := afterName?_eq_some.mp h
  exact hc (List.cons.inj hfound).1.symm

theorem afterVariable?_dark (hname : IsName name) (hdark : ¬ StartsBlank name) (hp : IsProperty p) :
    afterVariable? name (name ++ '.' :: p.toList) = some p.toList := by
  obtain ⟨c, rest, rfl, hc⟩ := hname
  have hfirst : ¬ isBlank c = true := fun h => hdark ⟨c, rest, rfl, h⟩
  rw [afterVariable?, trimChars_behind hp, List.dropWhile_cons_of_neg hfirst, List.cons_append,
    dropMark_cons_of_ne hc]
  exact afterName?_eq_some.mpr rfl

/-- The blanks in front of a name are lost with those of the path, and then the name is not found, not even
further on in the property. -/
theorem afterVariable?_blank (hblank : StartsBlank name) (hp : IsProperty p) :
    afterVariable? name (name ++ '.' :: p.toList) = none := by
  rw [afterVariable?, trimChars_behind hp, Option.eq_none_iff_forall_ne_some]
  intro found h
  have hfound := afterName?_eq_some.mp h
  have hstart (d : Char) (text : List Char) (hd : isBlank d = false) :
      d :: text ≠ name ++ '.' :: found := by
    obtain ⟨c, rest, rfl, hc⟩ := hblank
    intro heq
    rw [(List.cons.inj heq).1, hc] at hd
    exact absurd hd nofun
  cases hcore : name.dropWhile isBlank with
  | nil =>
      rw [hcore] at hfound
      exact hstart '.' p.toList rfl hfound
  | cons d core =>
      have hd : isBlank d = false := by
        have hhead := List.head?_dropWhile_not isBlank name
        rwa [hcore] at hhead
      rw [hcore, List.cons_append] at hfound
      by_cases hmark : d = '?'
      · -- Without its blanks the name begins with a question mark, which is dropped as well.
        subst hmark
        have hblanks : name.takeWhile isBlank ++ '?' :: core = name := by
          rw [← hcore, List.takeWhile_append_dropWhile]
        have hpoint : '.' ∉ name.takeWhile isBlank ++ ['?'] := by
          intro hmem
          rcases List.mem_append.mp hmem with hmem | hmem
          · exact absurd (List.mem_takeWhile_imp hmem) (by decide)
          · exact absurd hmem (by decide)
        apply append_cons_ne (by simp) hpoint core p.toList found
        calc
          core ++ '.' :: p.toList = name ++ '.' :: found := hfound
          _ = (name.takeWhile isBlank ++ '?' :: core) ++ '.' :: found := by rw [hblanks]
          _ = (name.takeWhile isBlank ++ ['?']) ++ (core ++ '.' :: found) := by simp
      · rw [dropMark_cons_of_ne hmark] at hfound
        exact hstart d _ hd hfound

theorem afterVariable?_of_found (hname : IsName name) (hp : IsProperty p) (h : Found n name) :
    afterVariable? name (List.replicate n '?' ++ (name ++ '.' :: p.toList)) = some p.toList := by
  rcases h with rfl | ⟨rfl, hdark⟩
  · exact afterVariable?_one hp name
  · exact afterVariable?_dark hname hdark hp

theorem afterVariable?_of_not_found (hname : IsName name) (hp : IsProperty p) (h : ¬ Found n name) :
    afterVariable? name (List.replicate n '?' ++ (name ++ '.' :: p.toList)) = none := by
  rcases n with _ | _ | n
  · have hblank : StartsBlank name := by
      by_contra hdark
      exact h (.inr ⟨rfl, hdark⟩)
    exact afterVariable?_blank hblank hp
  · exact absurd (.inl rfl) h
  · exact afterVariable?_several hname hp n

/-! What a path names. -/

/-- A property behind a name and so many question marks. -/
def marked (n : ℕ) (name p : String) : String :=
  String.ofList (List.replicate n '?') ++ name ++ "." ++ p

theorem toList_marked (n : ℕ) (name p : String) :
    (marked n name p).toList = List.replicate n '?' ++ (name.toList ++ '.' :: p.toList) := by
  simp [marked]

theorem trim_marked_ne (hp : IsProperty p) (n : ℕ) (name : String) : trim (marked n name p) ≠ p := by
  intro h
  have hlength := congrArg (fun text => text.toList.length) h
  rw [toList_trim, toList_marked, ← List.append_assoc, trimChars_behind hp] at hlength
  simp only [List.length_append, List.length_cons] at hlength
  omega

/-- Behind the name of its variable a property is named where the name is found, and only there. -/
theorem property_marked_iff (hv : Declarable v) (hp : IsProperty p) (n : ℕ) :
    property (marked n (bareName v) p) v = p ↔ Found n (bareName v).toList := by
  have hname := isName_bareName (declarable_iff.mp hv)
  rw [property_eq (declarable_iff.mp hv), toList_marked]
  by_cases h : Found n (bareName v).toList
  · simp [afterVariable?_of_found hname hp h, h]
  · simp [afterVariable?_of_not_found hname hp h, h, trim_marked_ne hp]

/-- A path stays whole where the name of its variable is not found. -/
theorem property_marked_of_not_found (hv : Declarable v) (hp : IsProperty p)
    (h : ¬ Found n (bareName v).toList) :
    property (marked n (bareName v) p) v = trim (marked n (bareName v) p) := by
  have hname := isName_bareName (declarable_iff.mp hv)
  rw [property_eq (declarable_iff.mp hv), toList_marked, afterVariable?_of_not_found hname hp h]
  rfl

theorem marked_marks (v p : String) : marked (marks v) (bareName v) p = v ++ "." ++ p := by
  rw [← String.toList_inj, toList_marked, ← List.append_assoc, marks_append_bareName]
  simp

theorem marked_zero (name p : String) : marked 0 name p = name ++ "." ++ p := by
  simp [marked]

theorem marked_one (name p : String) : marked 1 name p = "?" ++ name ++ "." ++ p := rfl

/-- A variable with one question mark in front of its name or none, and no blank, is found as it is declared,
without question marks and with one. -/
theorem property_behind_plain (hv : Declarable v) (hp : IsProperty p) (hmarks : marks v ≤ 1)
    (hdark : ¬ StartsBlank (bareName v).toList) :
    property (v ++ "." ++ p) v = p ∧ property (bareName v ++ "." ++ p) v = p ∧
      property ("?" ++ bareName v ++ "." ++ p) v = p := by
  have hfound (n : ℕ) (hn : n ≤ 1) : property (marked n (bareName v) p) v = p := by
    apply (property_marked_iff hv hp n).mpr
    rcases Nat.le_one_iff_eq_zero_or_eq_one.mp hn with rfl | rfl
    · exact .inr ⟨rfl, hdark⟩
    · exact .inl rfl
  rw [← marked_marks v p, ← marked_zero (bareName v) p, ← marked_one (bareName v) p]
  exact ⟨hfound _ hmarks, hfound 0 (by decide), hfound 1 le_rfl⟩

example : property "x.x.name" "?x" = "x.name" := by decide

/-- A property behind a variable that can be declared: with one question mark in front of the name it is
always named, without one if and only if the name does not begin with a blank, and with the question marks
of the variable if and only if there is one, or none and no blank. Otherwise the path stays whole. -/
theorem property_behind_variable (hv : Declarable v) (hp : IsProperty p) :
    (property (v ++ "." ++ p) v = p ↔
        marks v = 1 ∨ marks v = 0 ∧ ¬ StartsBlank (bareName v).toList) ∧
      (property (bareName v ++ "." ++ p) v = p ↔ ¬ StartsBlank (bareName v).toList) ∧
      property ("?" ++ bareName v ++ "." ++ p) v = p ∧
      ∀ path ∈ [v ++ "." ++ p, bareName v ++ "." ++ p],
        property path v ≠ p → property path v = trim path := by
  have hfound := property_marked_iff hv hp
  have hwhole (n : ℕ) (h : property (marked n (bareName v) p) v ≠ p) :
      property (marked n (bareName v) p) v = trim (marked n (bareName v) p) :=
    property_marked_of_not_found hv hp fun hn => h ((hfound n).mpr hn)
  rw [← marked_marks v p, ← marked_zero (bareName v) p, ← marked_one (bareName v) p]
  refine ⟨hfound _, ?_, (hfound 1).mpr (.inl rfl), ?_⟩
  · rw [hfound]
    simp [Found]
  · intro path hpath
    rcases (by simpa using hpath) with rfl | rfl
    · exact hwhole (marks v)
    · exact hwhole 0

/-- A variable with two question marks, and a property that repeats its name. -/
theorem property_behind_variable_sample :
    Declarable "??x" ∧ IsProperty "x. x" ∧ property "??x.x. x" "??x" = "??x.x. x" ∧
      property "x.x. x" "??x" = "x. x" ∧ property "?x.x. x" "??x" = "x. x" := by
  have hname : bareName "??x" = "x" := by decide
  have hmarks : marks "??x" = 2 := by decide
  have hdark : ¬ StartsBlank (bareName "??x").toList := by
    rintro ⟨c, rest, hc, hblank⟩
    rw [hname] at hc
    obtain ⟨rfl, -⟩ := List.cons.inj hc
    exact absurd hblank (by decide)
  have hv : Declarable "??x" := declarable_iff.mpr (by decide)
  have hp : IsProperty "x. x" := ⟨by decide, by decide⟩
  obtain ⟨hmarked, hbare, hone, hwhole⟩ := property_behind_variable hv hp
  have hlost : property "??x.x. x" "??x" ≠ "x. x" := by
    intro h
    simpa [hmarks] using hmarked.mp h
  exact ⟨hv, hp, hwhole _ (by simp) hlost, hbare.mpr hdark, hone⟩

/-- A variable with two question marks is not found in front of a property, and a name with a blank in
front is not found in front of it either. -/
theorem property_variable_not_found :
    (Declarable "??x" ∧ IsProperty "name" ∧
        property ("??x" ++ "." ++ "name") "??x" = "??x.name") ∧
      Declarable " x" ∧ IsProperty "name" ∧
        property (bareName " x" ++ "." ++ "name") " x" = "x.name" := by
  have hp : IsProperty "name" := ⟨by decide, by decide⟩
  have hmarks : Declarable "??x" := declarable_iff.mpr (by decide)
  have hblank : Declarable " x" := declarable_iff.mpr (by decide)
  exact ⟨⟨hmarks, hp, by decide⟩, hblank, hp, by decide⟩

end Path

end LinkDiscovery
