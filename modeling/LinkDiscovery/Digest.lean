/-!
The 64-bit FNV-1a hash: each byte is mixed into the state by an exclusive or and a multiplication.
-/

namespace LinkDiscovery.Digest

/-- The state before any byte. -/
def offsetBasis : UInt64 := 0xcbf29ce484222325

def prime : UInt64 := 0x00000100000001b3

/-- Mixes bytes into a state, first to last. -/
def absorb (state : UInt64) (bytes : List UInt8) : UInt64 :=
  bytes.foldl (fun h b => (h ^^^ b.toUInt64) * prime) state

/-- The hash of a row of bytes. -/
def hash (bytes : List UInt8) : UInt64 :=
  absorb offsetBasis bytes

/-- The bytes of a text in UTF-8. -/
def utf8 (text : String) : List UInt8 :=
  text.toList.flatMap String.utf8EncodeChar

/-- The eight bytes of a word, lowest first. -/
def littleEndian (word : UInt64) : List UInt8 :=
  (List.range 8).map fun i => (word >>> UInt64.ofNat (8 * i)).toUInt8

/-- A hash as text: a mark of the method and sixteen digits to the base sixteen. -/
def label (hash : UInt64) : String :=
  let hex := Nat.toDigits 16 hash.toNat
  "fnv1a64:" ++ String.ofList (List.replicate (16 - hex.length) '0' ++ hex)

end LinkDiscovery.Digest
