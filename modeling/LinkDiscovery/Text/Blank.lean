/-!
White space as Unicode lists it, and the two cuts made along it: the ends of a text are trimmed,
and a text is split into its words.
-/

namespace LinkDiscovery.Text

/-- The characters with the Unicode property White_Space. -/
def isBlank (c : Char) : Bool :=
  let n := c.toNat
  (9 ≤ n && n ≤ 13) || n == 0x20 || n == 0x85 || n == 0xA0 || n == 0x1680 ||
    (0x2000 ≤ n && n ≤ 0x200A) || n == 0x2028 || n == 0x2029 || n == 0x202F ||
    n == 0x205F || n == 0x3000

/-- Drops the blanks at the end. -/
def trimEnd (text : List Char) : List Char :=
  (text.reverse.dropWhile isBlank).reverse

/-- Drops the blanks at both ends. -/
def trimChars (text : List Char) : List Char :=
  trimEnd (text.dropWhile isBlank)

/-- Drops the blanks at both ends. -/
def trim (text : String) : String :=
  String.ofList (trimChars text.toList)

/-- Says whether a text holds nothing but blanks. -/
def isBlankText (text : String) : Bool :=
  text.toList.all isBlank

/-- The words of `text` after `word`, whose characters are held last first. -/
def wordsAfter (word : List Char) : List Char → List (List Char)
  | [] => if word.isEmpty then [] else [word.reverse]
  | c :: rest =>
    if isBlank c then
      if word.isEmpty then wordsAfter [] rest else word.reverse :: wordsAfter [] rest
    else wordsAfter (c :: word) rest

/-- The longest runs of characters that are not blank, from left to right. -/
def words (text : String) : List (List Char) :=
  wordsAfter [] text.toList

theorem trimEnd_append_blanks (text blanks : List Char) (h : blanks.all isBlank = true) :
    trimEnd (text ++ blanks) = trimEnd text := by
  have h' : ∀ c ∈ blanks.reverse, isBlank c = true := by simpa using h
  simp only [trimEnd, List.reverse_append, List.dropWhile_append_of_pos h']

end LinkDiscovery.Text
