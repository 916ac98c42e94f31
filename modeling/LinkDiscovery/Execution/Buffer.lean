import LinkDiscovery.Links.Basic
/-!
Buffers of results. A result never replaces another one: it comes after all others, and empty
results fill the slots that are passed over.
-/

namespace LinkDiscovery

/-- The results so far, by their slots. -/
structure SlotBuffer where
  slots : List Links
  deriving BEq

namespace SlotBuffer

def empty : SlotBuffer where
  slots := []

def length (b : SlotBuffer) : Nat :=
  b.slots.length

def isEmpty (b : SlotBuffer) : Bool :=
  b.slots.isEmpty

def get? (b : SlotBuffer) (slot : Nat) : Option Links :=
  b.slots[slot]?

/-- The result placed last. -/
def last? (b : SlotBuffer) : Option Links :=
  b.slots.getLast?

/-- The slot that a result takes when `slot` is asked for. -/
def slotFor (b : SlotBuffer) (slot : Option Nat) : Nat :=
  max b.length (slot.getD 0)

/-- Places a result at the slot asked for, or after all others if that slot is taken. -/
def place (b : SlotBuffer) (slot : Option Nat) (links : Links) : SlotBuffer where
  slots := b.slots ++ List.replicate (b.slotFor slot - b.length) Links.empty ++ [links]

end SlotBuffer

end LinkDiscovery
