/-!
Scanners read the front of a text. A scanner that does not apply leaves the text to an alternative;
a scanner that has gone wrong for good stops every alternative.
-/

namespace LinkDiscovery.Text

/-- What became of an attempt to read the front of a text. -/
inductive Scan (α : Type) where
  | found (value : α) (rest : List Char)
  /-- Nothing of this kind stands here; something else may. -/
  | missing
  /-- The text cannot be read, whatever the alternatives. -/
  | broken

/-- Reads a value from the front of a text. -/
def Scanner (α : Type) : Type := List Char → Scan α

namespace Scanner

variable {α β : Type}

/-- Goes on with the rest of the text, if the first part was found. -/
@[inline] def andThen (first : Scanner α) (next : α → Scanner β) : Scanner β := fun input =>
  match first input with
  | .found value rest => next value rest
  | .missing => .missing
  | .broken => .broken

/-- Reads nothing. -/
@[inline] def nothing (value : α) : Scanner α := fun input => .found value input

instance : Monad Scanner where
  pure := nothing
  bind := andThen

/-- Reads what `first` reads, or else what `second` reads. -/
@[inline] def orElse (first second : Scanner α) : Scanner α := fun input =>
  match first input with
  | .missing => second input
  | outcome => outcome

/-- Reads a value or, where there is none, nothing. -/
@[inline] def optional (scanner : Scanner α) : Scanner (Option α) := fun input =>
  match scanner input with
  | .found value rest => .found (some value) rest
  | .missing => .found none input
  | .broken => .broken

/-- Makes the absence of what `scanner` reads a fault. -/
@[inline] def required (scanner : Scanner α) : Scanner α := fun input =>
  match scanner input with
  | .missing => .broken
  | outcome => outcome

/-- Writes the first `n` characters of a text after `done`. -/
def appendFront (done : String) : (n : Nat) → List Char → String
  | n + 1, c :: rest => appendFront (done.push c) n rest
  | _, _ => done

/-- What `scanner` reads, after the part of the text that it stands in. -/
@[inline] def spelled (scanner : Scanner α) : Scanner (String × α) := fun input =>
  match scanner input with
  | .found value rest => .found (appendFront "" (input.length - rest.length) input, value) rest
  | .missing => .missing
  | .broken => .broken

/-- Reads one given character. -/
@[inline] def token (c : Char) : Scanner Unit
  | [] => .missing
  | d :: rest => if d = c then .found () rest else .missing

/-- Reads the longest run, possibly empty, of characters in a class. -/
@[inline] def span (inClass : Char → Bool) : Scanner (List Char) := fun input =>
  .found (input.takeWhile inClass) (input.dropWhile inClass)

/-- Reads the longest run of characters in a class, at least one. -/
@[inline] def word (inClass : Char → Bool) : Scanner (List Char) := fun input =>
  match input.takeWhile inClass with
  | [] => .missing
  | run => .found run (input.dropWhile inClass)

/-- Reads a row of lower-case letters, written in any case. -/
def letters : List Char → Scanner Unit
  | [], input => .found () input
  | _ :: _, [] => .missing
  | c :: word, d :: rest => if d.toLower = c then letters word rest else .missing

/-- Reads a word of lower-case letters, written in any case. -/
@[inline] def wordLetters (word : String) : Scanner Unit :=
  letters word.toList

/-- The value of a text that `scanner` reads to its end. -/
def whole (scanner : Scanner α) (text : List Char) : Option α :=
  match scanner text with
  | .found value [] => some value
  | _ => none

end Scanner

end LinkDiscovery.Text
