import LinkDiscovery.Proofs.Measure.EditDistance
/-!
Edit scripts: insertions, deletions and substitutions of single characters, one after another. The edit
distance of two texts is the length of the shortest script that turns one into the other. Distances add
up along a script, and one edit makes a distance of at most one, so that no script is shorter; the
recursion that the rows compute spells out a script of that length.
-/

namespace LinkDiscovery.Measure

/-- A change of a single character at a place of a text. -/
inductive Edit where
  | insert (place : ℕ) (c : Char)
  | delete (place : ℕ)
  | substitute (place : ℕ) (c : Char)
  deriving DecidableEq, Repr

/-- The text after an edit, if the text has such a place. A character may be inserted after the last
one. -/
def Edit.changed? (text : List Char) : Edit → Option (List Char)
  | .insert place c =>
    if place ≤ text.length then some (text.take place ++ c :: text.drop place) else none
  | .delete place =>
    if place < text.length then some (text.take place ++ text.drop (place + 1)) else none
  | .substitute place c =>
    if place < text.length then some (text.take place ++ c :: text.drop (place + 1)) else none

/-- The text after the edits of a script, one after another. -/
def edited? (text : List Char) (script : List Edit) : Option (List Char) :=
  script.foldlM Edit.changed? text

/-- A script of `n` edits turns the first text into the second one. -/
def Script (n : ℕ) (x y : List Char) : Prop :=
  ∃ script, script.length = n ∧ edited? x script = some y

variable {n k : ℕ} {x y z p q : List Char} {e : Edit} {script : List Edit}

/-! The distance along a script. -/

@[simp]
theorem distance_self (p : List Char) : distance p p = 0 := by
  induction p with
  | nil => exact nil_distance []
  | cons a p ih => simp [distance_cons_cons, ih]

theorem length_le_distance (p q : List Char) : p.length ≤ distance p q + q.length := by
  induction p, q using distance.induct with
  | case1 q => simp
  | case2 a p => simp
  | case3 a p b q ihboth ihleft ihright =>
      rw [distance_cons_cons]
      simp only [List.length_cons] at ihleft ihright ⊢
      omega

/-- A way over a third text is no shorter. -/
theorem distance_triangle (p q r : List Char) : distance p r ≤ distance p q + distance q r := by
  induction p, q using distance.induct generalizing r with
  | case1 q =>
      rw [nil_distance, nil_distance, distance_comm q, Nat.add_comm]
      exact length_le_distance r q
  | case2 a p =>
      have hle := distance_le (a :: p) r
      rw [distance_nil, nil_distance]
      omega
  | case3 a p b q ihboth ihleft ihright =>
      induction r with
      | nil =>
          rw [distance_nil, distance_nil]
          exact length_le_distance (a :: p) (b :: q)
      | cons c r ihr =>
          have hcost : (if a = c then 0 else 1) ≤
              (if a = b then 0 else 1) + if b = c then 0 else 1 := by
            split_ifs <;> simp_all
          have hac := distance_cons_cons a p c r
          have hab := distance_cons_cons a p b q
          have hbc := distance_cons_cons b q c r
          -- one case for each pair of first steps, that of the way to the third text and that from it
          have hboth := ihboth r
          have hdelete := ihboth (c :: r)
          have hleft := ihleft (c :: r)
          have hinsert := ihright r
          have hdrop := ihright (c :: r)
          omega

/-- A common beginning makes nothing longer. -/
theorem distance_append_le (before p q : List Char) :
    distance (before ++ p) (before ++ q) ≤ distance p q := by
  induction before with
  | nil => exact le_rfl
  | cons a before ih =>
      rw [List.cons_append, List.cons_append, distance_cons_cons]
      simp only [if_true]
      omega

theorem cons_distance_le (a : Char) (p q : List Char) :
    distance (a :: p) q ≤ distance p q + 1 := by
  cases q with
  | nil => simp
  | cons b q =>
      rw [distance_cons_cons]
      omega

/-- Texts that differ in a stretch of at most one character are at most one edit apart. -/
theorem distance_stretch_le {old new : List Char} (hold : old.length ≤ 1) (hnew : new.length ≤ 1)
    (before after : List Char) :
    distance (before ++ old ++ after) (before ++ new ++ after) ≤ 1 := by
  have hself := distance_self after
  rw [List.append_assoc, List.append_assoc]
  refine (distance_append_le before _ _).trans ?_
  match old, new, hold, hnew with
  | [], [], _, _ => simp
  | [], [b], _, _ =>
      rw [distance_comm]
      exact (cons_distance_le b after after).trans (by omega)
  | [a], [], _, _ => exact (cons_distance_le a after after).trans (by omega)
  | [a], [b], _, _ =>
      rw [List.singleton_append, List.singleton_append, distance_cons_cons, hself]
      split <;> omega

/-- An edit exchanges a stretch of at most one character for another one. -/
theorem changed?_stretch (h : e.changed? x = some y) : ∃ before old new after,
    old.length ≤ 1 ∧ new.length ≤ 1 ∧ x = before ++ old ++ after ∧ y = before ++ new ++ after := by
  cases e with
  | insert place c =>
      obtain ⟨hplace, rfl⟩ := by simpa [Edit.changed?] using h
      exact ⟨x.take place, [], [c], x.drop place, by simp, by simp, by simp, by simp⟩
  | delete place =>
      obtain ⟨hplace, rfl⟩ := by simpa [Edit.changed?] using h
      exact ⟨x.take place, [x[place]], [], x.drop (place + 1), by simp, by simp, by simp, by simp⟩
  | substitute place c =>
      obtain ⟨hplace, rfl⟩ := by simpa [Edit.changed?] using h
      exact ⟨x.take place, [x[place]], [c], x.drop (place + 1), by simp, by simp, by simp, by simp⟩

/-- No script is shorter than the distance, whichever end the texts are taken apart from. -/
theorem Script.distance_le (h : Script n x y) :
    distance x y ≤ n ∧ distance x.reverse y.reverse ≤ n := by
  obtain ⟨script, rfl, h⟩ := h
  induction script generalizing x with
  | nil =>
      obtain rfl : x = y := Option.some.inj h
      simp
  | cons e script ih =>
      obtain ⟨z, hz, h⟩ := Option.bind_eq_some_iff.mp h
      obtain ⟨hrest, hrest'⟩ := ih h
      obtain ⟨before, old, new, after, hold, hnew, hx, hz⟩ := changed?_stretch hz
      have hfirst := distance_stretch_le hold hnew before after
      have hfirst' : distance (after.reverse ++ old.reverse ++ before.reverse)
          (after.reverse ++ new.reverse ++ before.reverse) ≤ 1 :=
        distance_stretch_le (by simpa using hold) (by simpa using hnew) _ _
      have hreverse (between : List Char) : after.reverse ++ between.reverse ++ before.reverse =
          (before ++ between ++ after).reverse := by simp
      rw [hreverse, hreverse, ← hx, ← hz] at hfirst'
      rw [← hx, ← hz] at hfirst
      rw [List.length_cons]
      constructor
      · exact (distance_triangle x z y).trans (by omega)
      · exact (distance_triangle x.reverse z.reverse y.reverse).trans (by omega)

/-! Scripts for texts that are given from their ends to their beginnings, as the recursion has them. -/

theorem Script.append (h : Script n x z) (h' : Script k z y) : Script (n + k) x y := by
  obtain ⟨script, rfl, h⟩ := h
  obtain ⟨script', rfl, h'⟩ := h'
  refine ⟨script ++ script', List.length_append, ?_⟩
  rw [edited?, List.foldlM_append]
  exact Option.bind_eq_some_iff.mpr ⟨z, h, h'⟩

theorem Script.shorter (h : Script n x y) (h' : Script k x y) : Script (min n k) x y := by
  rcases min_choice n k with hmin | hmin
  · rwa [hmin]
  · rwa [hmin]

theorem Script.single (h : e.changed? x = some y) : Script 1 x y :=
  ⟨[e], rfl, Option.bind_eq_some_iff.mpr ⟨y, h, rfl⟩⟩

/-- An edit does not depend on what follows. -/
theorem changed?_append (h : e.changed? x = some y) (after : List Char) :
    e.changed? (x ++ after) = some (y ++ after) := by
  cases e with
  | insert place c =>
      obtain ⟨hplace, rfl⟩ := by simpa [Edit.changed?] using h
      have hplace' : place ≤ x.length + after.length := by omega
      simp [Edit.changed?, hplace', List.take_append_of_le_length hplace,
        List.drop_append_of_le_length hplace]
  | delete place =>
      obtain ⟨hplace, rfl⟩ := by simpa [Edit.changed?] using h
      have hplace' : place < x.length + after.length := by omega
      simp [Edit.changed?, hplace', List.take_append_of_le_length hplace.le,
        List.drop_append_of_le_length (Nat.succ_le_of_lt hplace)]
  | substitute place c =>
      obtain ⟨hplace, rfl⟩ := by simpa [Edit.changed?] using h
      have hplace' : place < x.length + after.length := by omega
      simp [Edit.changed?, hplace', List.take_append_of_le_length hplace.le,
        List.drop_append_of_le_length (Nat.succ_le_of_lt hplace)]

theorem Script.append_text (h : Script n x y) (after : List Char) :
    Script n (x ++ after) (y ++ after) := by
  obtain ⟨script, rfl, h⟩ := h
  refine ⟨script, rfl, ?_⟩
  induction script generalizing x with
  | nil =>
      obtain rfl : x = y := Option.some.inj h
      rfl
  | cons e script ih =>
      obtain ⟨z, hz, h⟩ := Option.bind_eq_some_iff.mp h
      exact Option.bind_eq_some_iff.mpr ⟨z ++ after, changed?_append hz after, ih h⟩

theorem script_insert (x : List Char) (b : Char) : Script 1 x (x ++ [b]) :=
  .single (e := .insert x.length b) (by simp [Edit.changed?])

theorem script_delete (x : List Char) (a : Char) : Script 1 (x ++ [a]) x :=
  .single (e := .delete x.length) (by simp [Edit.changed?])

theorem script_substitute (x : List Char) (a b : Char) : Script 1 (x ++ [a]) (x ++ [b]) :=
  .single (e := .substitute x.length b) (by simp [Edit.changed?])

/-- The recursion spells out a script of the length that it gives. -/
theorem script_distance (p q : List Char) : Script (distance p q) p.reverse q.reverse := by
  induction p, q using distance.induct with
  | case1 q =>
      rw [nil_distance]
      induction q with
      | nil => exact ⟨[], rfl, rfl⟩
      | cons b q ih =>
          rw [List.reverse_cons]
          exact ih.append (script_insert _ b)
  | case2 a p =>
      rw [distance_nil]
      generalize a :: p = p
      induction p with
      | nil => exact ⟨[], rfl, rfl⟩
      | cons a p ih =>
          rw [List.reverse_cons, List.length_cons, Nat.add_comm]
          exact (script_delete _ a).append ih
  | case3 a p b q ihboth ihleft ihright =>
      rw [distance_cons_cons]
      have hboth : Script (distance p q + if a = b then 0 else 1) (a :: p).reverse
          (b :: q).reverse := by
        rw [List.reverse_cons, List.reverse_cons]
        split
        · rename_i heq
          exact heq ▸ ihboth.append_text [a]
        · exact (ihboth.append_text [a]).append (script_substitute _ a b)
      have hdelete : Script (distance p (b :: q) + 1) (a :: p).reverse (b :: q).reverse := by
        rw [List.reverse_cons (a := a), Nat.add_comm]
        exact (script_delete _ a).append ihleft
      have hinsert : Script (distance (a :: p) q + 1) (a :: p).reverse (b :: q).reverse := by
        rw [List.reverse_cons (a := b)]
        exact ihright.append (script_insert _ b)
      exact (hboth.shorter hdelete).shorter hinsert

/-- The edit distance is the length of the shortest script that turns one text into the other, and it is
the value of the recursion on the texts as they stand. -/
theorem editDistance_isLeast (as bs : List Char) :
    IsLeast {n | Script n as bs} (editDistance as bs) ∧ editDistance as bs = distance as bs := by
  have hscript : Script (editDistance as bs) as bs := by
    simpa [editDistance_eq] using script_distance as.reverse bs.reverse
  have hbackwards : Script (distance as bs) as.reverse bs.reverse := script_distance as bs
  refine ⟨⟨hscript, fun n hn => ?_⟩, le_antisymm ?_ hscript.distance_le.1⟩
  · rw [editDistance_eq]
    exact hn.distance_le.2
  · rw [editDistance_eq]
    exact hbackwards.distance_le.1

example : editDistance "kitten".toList "sitting".toList = 3 := by decide

end LinkDiscovery.Measure
