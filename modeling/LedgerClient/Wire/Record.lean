/-
Records: what a message is made of before its fields are read.

A record is a field number and a payload of one of five wire types. The reader
takes the whole input apart or refuses it; it keeps groups as trees because
only their nesting matters to a reader that skips them. Of the schema it knows
which numbers are those of maps: behind them it reads a chunk, whatever wire
type the key gives.
-/
import LedgerClient.Wire.Varint

namespace LedgerClient.Wire

inductive Record where
  | varint (tag : Nat) (n : UInt64)
  | fixed64 (tag : Nat) (bytes : Bytes)
  | chunk (tag : Nat) (bytes : Bytes)
  | group (tag : Nat) (members : List Record)
  | fixed32 (tag : Nat) (bytes : Bytes)

namespace Record

def tag : Record → Nat
  | varint t _ | fixed64 t _ | chunk t _ | group t _ | fixed32 t _ => t

mutual
/-- Levels of nesting a reader passes to skip the record: one, and one more for each open group. -/
def depth : Record → Nat
  | group _ ms => 1 + depthAll ms
  | varint .. | fixed64 .. | chunk .. | fixed32 .. => 1

def depthAll : List Record → Nat
  | [] => 0
  | r :: rs => max r.depth (depthAll rs)
end

/-- The first `n` bytes and what follows them. -/
def split (n : Nat) (bs : Bytes) : Option (Bytes × Bytes) :=
  if n ≤ bs.length then some (bs.take n, bs.drop n) else none

/-- A record's field number, at least one, and its wire type. -/
def readKey (bs : Bytes) : Option (Nat × Nat × Bytes) := do
  let (key, rest) ← Varint.read bs
  if key.toNat < 8 ∨ UInt32.size ≤ key.toNat then none
  else some (key.toNat / 8, key.toNat % 8, rest)

/-- The wire type that a payload is read by. The entries of a map are chunks; the wire type in their
key is only checked to be one of the six that exist. -/
def payloadType (keyed : Nat → Bool) (tag wireType : Nat) : Nat :=
  if keyed tag && decide (wireType < 6) then 2 else wireType

/-- A group is skipped without a schema, so no number in it is that of a map. -/
def unkeyed (_ : Nat) : Bool := false

/-- Reads records up to the end of the group `enclosing`, or of the input when there is none;
`keyed` says which numbers are those of maps. Each record takes at least one byte, so the length of
the input is fuel enough. -/
def readUpTo : (fuel : Nat) → (keyed : Nat → Bool) → (enclosing : Option Nat) → Bytes →
    Option (List Record × Bytes)
  | 0, _, _, _ => none
  | _ + 1, _, none, [] => some ([], [])
  | fuel + 1, keyed, enclosing, bs => do
    let (tag, wireType, bs) ← readKey bs
    let andThen (r : Record) (rest : Bytes) : Option (List Record × Bytes) :=
      (readUpTo fuel keyed enclosing rest).map fun (rs, rest) => (r :: rs, rest)
    match payloadType keyed tag wireType with
    | 0 => do
      let (n, bs) ← Varint.read bs
      andThen (varint tag n) bs
    | 1 => do
      let (content, bs) ← split 8 bs
      andThen (fixed64 tag content) bs
    | 2 => do
      let (length, bs) ← Varint.read bs
      let (content, bs) ← split length.toNat bs
      andThen (chunk tag content) bs
    | 3 => do
      let (members, bs) ← readUpTo fuel unkeyed (some tag) bs
      andThen (group tag members) bs
    | 4 => if enclosing = some tag then some ([], bs) else none
    | 5 => do
      let (content, bs) ← split 4 bs
      andThen (fixed32 tag content) bs
    | _ => none

/-- All records of the input, or nothing when it is malformed. -/
def readAll (keyed : Nat → Bool) (bs : Bytes) : Option (List Record) :=
  (readUpTo (bs.length + 1) keyed none bs).map (·.1)

end Record

end LedgerClient.Wire
