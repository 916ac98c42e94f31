import LinkDiscovery.Decimal.Numeral
/-!
JSON values. Numbers are kept as they are written, and objects keep the order of their entries and
repeated keys.
-/

namespace LinkDiscovery

inductive Json where
  | null
  | bool (value : Bool)
  | number (numeral : Decimal.Numeral)
  | string (text : String)
  | array (items : List Json)
  | object (entries : List (String × Json))
  /-- A text or an object of correct form that escapes a half of a surrogate pair alone: it may be
  passed over, but it has no value. -/
  | valueless
  deriving Inhabited

end LinkDiscovery
