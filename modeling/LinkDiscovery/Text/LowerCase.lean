import LinkDiscovery.Text.Case.Context
import LinkDiscovery.Text.Case.Lower
/-!
Texts in small letters, by the rules of Unicode that hold for all languages.
-/

namespace LinkDiscovery.Text

/-- Says whether the next character that counts for case is a letter. -/
def meetsLetter (text : List Char) : Bool :=
  match text.dropWhile isCaseIgnorable with
  | [] => false
  | c :: _ => isCased c

/-- The small letters of a character between the characters before it, nearest first, and those
after it. A sigma that ends a word has a form of its own. -/
def lowerBetween (before : List Char) (c : Char) (after : List Char) : List Char :=
  if c = 'Σ' then
    if meetsLetter before && !meetsLetter after then ['ς'] else ['σ']
  else if c = 'İ' then ['i', '\u0307']
  else [lowerChar c]

/-- The small letters of the text that follows `before`, which is held last character first. -/
def lowerAfter (before : List Char) : List Char → List Char
  | [] => []
  | c :: after => lowerBetween before c after ++ lowerAfter (c :: before) after

/-- A text in small letters. -/
def lowerCase (text : List Char) : List Char :=
  lowerAfter [] text

end LinkDiscovery.Text
