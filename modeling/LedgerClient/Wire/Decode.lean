/-
Reading messages.

The records of the input are put into the message one after another. Records
with an undeclared number are skipped; a declared number with the wrong wire
type, or content that cannot be read, makes the whole input unreadable. Maps
are the exception: what stands under their numbers is read as an entry, with
any wire type. A budget bounds the nesting: opening a message costs one,
skipping a record costs its depth.
-/
import LedgerClient.Wire.Message
import LedgerClient.Wire.Record

namespace LedgerClient.Wire

/-- The value that a record gives a scalar field. Numbers of 32 bits take the low half of the
varint, and any varint but zero is true. -/
def ScalarKind.read : ScalarKind → Record → Option Scalar
  | .int32, .varint _ n => some (.int32 n.toUInt32.toInt32)
  | .int64, .varint _ n => some (.int64 n.toInt64)
  | .uint32, .varint _ n => some (.uint32 n.toUInt32)
  | .uint64, .varint _ n => some (.uint64 n)
  | .bool, .varint _ n => some (.bool (n != 0))
  | .text, .chunk _ b => (Utf8.decode? b).map .text
  | .bytes, .chunk _ b => some (.bytes b)
  | _, _ => none

namespace Message

/-- Inserts a field behind those that belong before it: smaller numbers, and equal ones with no
larger key. Only map entries are told apart by key; other fields go last among their number. -/
def insert (keyed : Bool) (f : Field) (m : Message) : Message :=
  m.takeWhile before ++ f :: m.dropWhile before
where
  before (g : Field) : Bool := g.tag < f.tag || (g.tag == f.tag && (!keyed || g.key ≤ f.key))

/-- Whether putting `f` drops `g`. -/
def replaces (occurrence : Occurrence) (f g : Field) : Bool :=
  match occurrence with
  | .single => g.tag == f.tag
  | .repeated => false
  | .keyed => g.tag == f.tag && g.key == f.key
  | .choice group => group.contains g.tag

/-- Whether the field is written at all: a single scalar only if it is not the default. -/
def isWritten (occurrence : Occurrence) : Field → Bool
  | .scalar _ v => !(occurrence == .single && v.isDefault)
  | .message .. => true

/-- Puts a field into a message as its occurrence says. -/
def put (occurrence : Occurrence) (f : Field) (m : Message) : Message :=
  let kept := m.filter fun g => !replaces occurrence f g
  if isWritten occurrence f then insert (occurrence == .keyed) f kept else kept

/-- The fields that a record of a message adds to: those of the message already there, if the
field holds one message at a time. -/
def current (spec : FieldSpec) (m : Message) : Message :=
  match spec.occurrence with
  | .single | .choice _ => (m.child? spec.tag).getD []
  | .repeated | .keyed => []

/-- A map entry leaves out a value without fields. -/
def trimEntry (fs : Message) : Message := fs.filter (· != .message 2 [])

/-- Puts one record into a message of the given shape; `enter` reads the records of a message
inside it. -/
def putRecord (enter : Shape → Message → Bytes → Option Message) (budget : Nat) (shape : Shape)
    (m : Message) (r : Record) : Option Message :=
  match shape.field? r.tag with
  | none => if r.depth ≤ budget then some m else none
  | some spec =>
    match spec.content, r with
    | .scalar kind, r => (kind.read r).map fun v => m.put spec.occurrence (.scalar spec.tag v)
    | .message inner, .chunk _ bytes =>
      (enter inner (m.current spec) bytes).map fun fs =>
        m.put spec.occurrence (.message spec.tag (if spec.occurrence = .keyed then trimEntry fs else fs))
    | .message _, _ => none

/-- Reads the records of `bytes` into a message of the given shape. -/
def merge : (budget : Nat) → Shape → Message → (bytes : Bytes) → Option Message
  | 0, shape, m, bytes =>
    (Record.readAll shape.isKeyed bytes).bind fun rs =>
      rs.foldlM (putRecord (fun _ _ _ => none) 0 shape) m
  | budget + 1, shape, m, bytes =>
    (Record.readAll shape.isKeyed bytes).bind fun rs =>
      rs.foldlM (putRecord (merge budget) (budget + 1) shape) m

/-- The nesting that a reader allows. -/
def nestingLimit : Nat := 100

def decode? (t : MessageType) (bytes : Bytes) : Option Message :=
  merge nestingLimit (.type t) [] bytes

mutual
/-- Whether a map anywhere in the message has more than one entry, so that its entries could be
written in another order. -/
def hasFreeOrder (spec? : Nat → Option FieldSpec) : List Field → Bool
  | [] => false
  | f :: fs =>
    (match spec? f.tag with
      | some spec => spec.occurrence == .keyed && fs.any (·.tag == f.tag)
      | none => false)
    || fieldHasFreeOrder spec? f || hasFreeOrder spec? fs

def fieldHasFreeOrder (spec? : Nat → Option FieldSpec) : Field → Bool
  | .scalar .. => false
  | .message tag fs =>
    match spec? tag with
    | some ⟨_, _, .message inner⟩ => hasFreeOrder inner.field? fs
    | _ => false
end

end Message

end LedgerClient.Wire
