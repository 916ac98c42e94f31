import LinkDiscovery.Text.Blank
/-!
Property paths. A path may begin with the variable of its knowledge base and a point, as in `x.name`
or `?x.name`; without them it is the name of the property.
-/

namespace LinkDiscovery.Path

/-- A variable without the question marks in front. -/
def bareName (var : String) : String :=
  String.ofList (var.toList.dropWhile (· = '?'))

/-- A text without the question mark in front, if there is one. -/
def dropMark : List Char → List Char
  | '?' :: rest => rest
  | text => text

/-- What follows a variable's name and a point. -/
def afterName? (name path : List Char) : Option (List Char) :=
  match name.isPrefixOf? path with
  | some ('.' :: rest) => some rest
  | _ => none

/-- The property that a path names. -/
def property (path var : String) : String :=
  let name := (bareName var).toList
  let trimmed := Text.trimChars path.toList
  if name.isEmpty then String.ofList trimmed
  else String.ofList ((afterName? name (dropMark trimmed)).getD trimmed)

end LinkDiscovery.Path
