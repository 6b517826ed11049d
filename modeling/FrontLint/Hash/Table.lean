/-!
# Hash tables

The order in which an open hash table holds its items. An item goes to the slot of its hash,
to one of the nine behind it, or on by a jump; a table that is three fifths full grows.
-/

namespace FrontLint

/-- The slots of a table; their number is a power of two. -/
abbrev HashTable (α : Type) := Array (Option (UInt64 × α))

namespace HashTable

def empty (size : Nat) : HashTable α := Array.replicate size none

def leastSize : Nat := 8

/-- The number of slots behind the first one that are tried before a jump. -/
def run : Nat := 9

/-- The least power of two above a number, but at least the least size. -/
def sizeAbove (n : Nat) : Nat := max leastSize (Nat.pow 2 (n.log2 + 1))

/-- The first free slot from `slot` on, jump by jump. -/
def freeSlot? (t : HashTable α) : Nat → Nat → UInt64 → Option Nat
  | 0, _, _ => none
  | jumps + 1, slot, rest =>
    let count := if slot + run < t.size then run + 1 else 1
    match ((List.range count).map (slot + ·)).find? fun i => (t[i]?.join).isNone with
    | some i => some i
    | none =>
      let rest := rest >>> 5
      freeSlot? t jumps ((slot * 5 + 1 + rest.toNat) % t.size) rest

/-- Jumps enough to come by every slot. -/
def jumpBound (t : HashTable α) : Nat := t.size + 64

def place (t : HashTable α) (hash : UInt64) (item : α) : HashTable α :=
  match freeSlot? t (jumpBound t) (hash.toNat % t.size) hash with
  | some slot => t.setIfInBounds slot (some (hash, item))
  | none => t

/-- The items in the order of their slots. -/
def items (t : HashTable α) : List (UInt64 × α) := t.toList.filterMap id

def resize (t : HashTable α) (size : Nat) : HashTable α :=
  (items t).foldl (fun t item => place t item.1 item.2) (empty size)

def insert (t : HashTable α) (item : UInt64 × α) : HashTable α :=
  let t := place t item.1 item.2
  let count := (items t).length
  if count * 5 < (t.size - 1) * 3 then t else resize t (sizeAbove (count * 4))

/-- The table of items that come together. -/
def ofItems (all : List (UInt64 × α)) : HashTable α :=
  let size := if all.length * 5 < (leastSize - 1) * 3 then leastSize else sizeAbove (all.length * 2)
  all.foldl insert (empty size)

/-- Items in the order of a table. -/
def order (hash : α → UInt64) (all : List α) : List α :=
  (items (ofItems (all.map fun a => (hash a, a)))).map Prod.snd

end HashTable

end FrontLint
