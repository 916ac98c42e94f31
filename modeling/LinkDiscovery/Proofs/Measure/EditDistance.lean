import LinkDiscovery.Measure.EditDistance
import Mathlib
/-!
The rows of the edit distance. Their entries are the values of a recursion on two beginnings of texts,
which are taken apart from their ends. The recursion shows that the distance is the same in both
directions and at most the length of the longer text.
-/

namespace LinkDiscovery.Measure

/-- The edit distance of two texts by recursion on both. The rows compute it for texts that are given
from their ends to their beginnings. -/
def distance : List Char → List Char → ℕ
  | [], q => q.length
  | a :: p, [] => (a :: p).length
  | a :: p, b :: q =>
    min (min (distance p q + if a = b then 0 else 1) (distance p (b :: q) + 1))
      (distance (a :: p) q + 1)

/-- The entries of the row of `p` to the right of the one for `q`, which goes on with `bs`. -/
def entries (p q : List Char) : List Char → List ℕ
  | [] => []
  | b :: bs => distance p (b :: q) :: entries p (b :: q) bs

@[simp]
theorem nil_distance (q : List Char) : distance [] q = q.length := by
  rw [distance]

@[simp]
theorem distance_nil (p : List Char) : distance p [] = p.length := by
  cases p <;> simp [distance]

theorem distance_cons_cons (a : Char) (p : List Char) (b : Char) (q : List Char) :
    distance (a :: p) (b :: q) =
      min (min (distance p q + if a = b then 0 else 1) (distance p (b :: q) + 1))
        (distance (a :: p) q + 1) := by
  rw [distance]

/-- The first row counts. -/
theorem range_eq_entries (q bs : List Char) :
    List.range' q.length (bs.length + 1) = distance [] q :: entries [] q bs := by
  induction bs generalizing q with
  | nil => simp [entries]
  | cons b bs ih =>
      have hrest := ih (b :: q)
      rw [List.length_cons] at hrest
      rw [List.length_cons, List.range'_succ, hrest, entries, nil_distance q]

theorem extendRow_entries (a : Char) (p q bs : List Char) :
    extendRow a (distance (a :: p) q) (distance p q) bs (entries p q bs) =
      entries (a :: p) q bs := by
  induction bs generalizing q with
  | nil => rfl
  | cons b bs ih =>
      simp only [entries, extendRow, ← distance_cons_cons, ih]

/-- From the row of a beginning to the row of the next one. -/
theorem nextRow_entries (a : Char) (p bs : List Char) :
    nextRow bs (distance p [] :: entries p [] bs) a =
      distance (a :: p) [] :: entries (a :: p) [] bs := by
  have hfirst : distance (a :: p) [] = distance p [] + 1 := by simp
  rw [nextRow, ← hfirst, extendRow_entries]

theorem foldl_nextRow (as p bs : List Char) :
    as.foldl (nextRow bs) (distance p [] :: entries p [] bs) =
      distance (as.reverse ++ p) [] :: entries (as.reverse ++ p) [] bs := by
  induction as generalizing p with
  | nil => rfl
  | cons a as ih =>
      rw [List.foldl_cons, nextRow_entries, ih, List.reverse_cons, List.append_assoc,
        List.singleton_append]

/-- The last entry of a row belongs to the whole text. -/
theorem getLastD_entries (p q bs : List Char) (n : ℕ) :
    (distance p q :: entries p q bs).getLastD n = distance p (bs.reverse ++ q) := by
  induction bs generalizing q n with
  | nil => rfl
  | cons b bs ih =>
      rw [List.getLastD_cons, entries, ih, List.reverse_cons, List.append_assoc,
        List.singleton_append]

/-- What the rows come to is the recursion on the texts from their ends. -/
theorem editDistance_eq (as bs : List Char) :
    editDistance as bs = distance as.reverse bs.reverse := by
  have hfirst : List.range (bs.length + 1) = distance [] [] :: entries [] [] bs := by
    rw [List.range_eq_range']
    exact range_eq_entries [] bs
  rw [editDistance, hfirst, foldl_nextRow, getLastD_entries, List.append_nil, List.append_nil]

theorem distance_comm (p q : List Char) : distance p q = distance q p := by
  induction p, q using distance.induct with
  | case1 q => simp
  | case2 a p => simp
  | case3 a p b q ihboth ihleft ihright =>
      have hsame : (if a = b then 0 else 1) = if b = a then 0 else 1 := by simp only [eq_comm]
      rw [distance_cons_cons, distance_cons_cons, ihboth, ihleft, ihright, hsame, min_right_comm]

theorem distance_le (p q : List Char) : distance p q ≤ max p.length q.length := by
  induction p, q using distance.induct with
  | case1 q => simp
  | case2 a p => simp
  | case3 a p b q ihboth ihleft ihright =>
      rw [distance_cons_cons]
      simp only [List.length_cons]
      split <;> omega

theorem editDistance_comm (as bs : List Char) : editDistance as bs = editDistance bs as := by
  rw [editDistance_eq, editDistance_eq, distance_comm]

/-- No more edits than the longer text has characters. -/
theorem editDistance_le (as bs : List Char) : editDistance as bs ≤ max as.length bs.length := by
  rw [editDistance_eq]
  simpa using distance_le as.reverse bs.reverse

end LinkDiscovery.Measure
