/-
Messages as values, and how they are written.

A message is the list of its fields: the ones with content to write, by rising
field number, the entries of a map by rising key. Two messages are equal when
the lists are. A scalar that is zero, false or empty has no field, except as
the chosen member of a group; a message that is present has one even if it has
no fields itself.
-/
import LedgerClient.Wire.Schema
import LedgerClient.Wire.Varint
import LedgerClient.Text.Utf8

namespace LedgerClient.Wire

inductive Scalar where
  | int32 (n : Int32)
  | int64 (n : Int64)
  | uint32 (n : UInt32)
  | uint64 (n : UInt64)
  | bool (b : Bool)
  | text (s : String)
  | bytes (b : Bytes)
  deriving DecidableEq, Repr

inductive Field where
  | scalar (tag : Nat) (value : Scalar)
  | message (tag : Nat) (fields : List Field)

abbrev Message := List Field

mutual
def Field.decEq : (f g : Field) → Decidable (f = g)
  | .scalar t v, .scalar u w =>
    if h : t = u ∧ v = w then isTrue (by rw [h.1, h.2]) else isFalse (by simpa using h)
  | .message t fs, .message u gs =>
    match Field.decEqList fs gs with
    | isTrue hf => if ht : t = u then isTrue (by rw [ht, hf]) else isFalse (by simp [ht])
    | isFalse hf => isFalse (by simp [hf])
  | .scalar .., .message .. => isFalse (by simp)
  | .message .., .scalar .. => isFalse (by simp)

def Field.decEqList : (fs gs : List Field) → Decidable (fs = gs)
  | [], [] => isTrue rfl
  | [], _ :: _ => isFalse (by simp)
  | _ :: _, [] => isFalse (by simp)
  | f :: fs, g :: gs =>
    match Field.decEq f g with
    | isTrue hf =>
      match Field.decEqList fs gs with
      | isTrue hfs => isTrue (by rw [hf, hfs])
      | isFalse hfs => isFalse (by simp [hfs])
    | isFalse hf => isFalse (by simp [hf])
end

instance : DecidableEq Field := Field.decEq

/-! ## Writing -/

/-- A field number and a wire type as one varint. -/
def writeKey (tag wireType : Nat) : Bytes := Varint.write (8 * tag + wireType).toUInt64

/-- A record of bytes: its key, their number, and they themselves. -/
def writeChunk (tag : Nat) (content : Bytes) : Bytes :=
  writeKey tag 2 ++ Varint.write content.length.toUInt64 ++ content

namespace Scalar

/-- The varint that stands for a number or truth value; a negative number is extended to 64 bits. -/
def varint? : Scalar → Option UInt64
  | int32 n => some n.toInt64.toUInt64
  | int64 n => some n.toUInt64
  | uint32 n => some n.toUInt64
  | uint64 n => some n
  | bool b => some (if b then 1 else 0)
  | text _ | bytes _ => none

/-- The bytes of a text or byte string. -/
def content : Scalar → Bytes
  | text s => Utf8.encode s
  | bytes b => b
  | int32 _ | int64 _ | uint32 _ | uint64 _ | bool _ => []

/-- Whether this is the value that an absent field has. -/
def isDefault (v : Scalar) : Bool :=
  match v.varint? with
  | some n => n == 0
  | none => v.content.isEmpty

def write (tag : Nat) (v : Scalar) : Bytes :=
  match v.varint? with
  | some n => writeKey tag 0 ++ Varint.write n
  | none => writeChunk tag v.content

end Scalar

mutual
def Field.write : Field → Bytes
  | .scalar tag v => v.write tag
  | .message tag fs => writeChunk tag (Field.writeAll fs)

def Field.writeAll : List Field → Bytes
  | [] => []
  | f :: fs => f.write ++ Field.writeAll fs
end

/-- The encoding of a message. -/
def Message.encode (m : Message) : Bytes := Field.writeAll m

/-! ## The length of the encoding, without writing it -/

def keySize (tag wireType : Nat) : Nat := Varint.size (8 * tag + wireType).toUInt64

def chunkSize (tag length : Nat) : Nat := keySize tag 2 + Varint.size length.toUInt64 + length

def Scalar.size (tag : Nat) (v : Scalar) : Nat :=
  match v.varint? with
  | some n => keySize tag 0 + Varint.size n
  | none => chunkSize tag v.content.length

mutual
def Field.size : Field → Nat
  | .scalar tag v => v.size tag
  | .message tag fs => chunkSize tag (Field.sizeAll fs)

def Field.sizeAll : List Field → Nat
  | [] => 0
  | f :: fs => f.size + Field.sizeAll fs
end

def Message.size (m : Message) : Nat := Field.sizeAll m

/-! ## Fields by number -/

def Field.tag : Field → Nat
  | .scalar tag _ | .message tag _ => tag

/-- The key of a map entry. -/
def Field.key : Field → String
  | .message _ (.scalar 1 (.text k) :: _) => k
  | _ => ""

namespace Message

variable (m : Message) (tag : Nat)

def find? : Option Field := List.find? (·.tag == tag) m

def int32 : Int32 :=
  match m.find? tag with
  | some (.scalar _ (.int32 n)) => n
  | _ => 0

def int64 : Int64 :=
  match m.find? tag with
  | some (.scalar _ (.int64 n)) => n
  | _ => 0

def uint32 : UInt32 :=
  match m.find? tag with
  | some (.scalar _ (.uint32 n)) => n
  | _ => 0

def uint64 : UInt64 :=
  match m.find? tag with
  | some (.scalar _ (.uint64 n)) => n
  | _ => 0

def bool : Bool :=
  match m.find? tag with
  | some (.scalar _ (.bool b)) => b
  | _ => false

def text : String :=
  match m.find? tag with
  | some (.scalar _ (.text s)) => s
  | _ => ""

def bytes : Bytes :=
  match m.find? tag with
  | some (.scalar _ (.bytes b)) => b
  | _ => []

/-- The message under `tag`, if present. -/
def child? : Option Message :=
  match m.find? tag with
  | some (.message _ fs) => some fs
  | _ => none

/-- The messages under `tag`, in order. -/
def children : List Message :=
  m.filterMap fun
    | .message t fs => if t = tag then some fs else none
    | .scalar .. => none

def allBytes : List Bytes :=
  m.filterMap fun
    | .scalar t (.bytes b) => if t = tag then some b else none
    | _ => none

def allTexts : List String :=
  m.filterMap fun
    | .scalar t (.text s) => if t = tag then some s else none
    | _ => none

/-- The entries of the map under `tag`: each key with its entry, in which the value has number 2. -/
def entries : List (String × Message) :=
  (m.children tag).map fun e => (e.text 1, e)

end Message

/-! ## Building messages -/

namespace Message

/-- A scalar field, left out when it has the value of an absent one. -/
def ofScalar (tag : Nat) (v : Scalar) : Message := if v.isDefault then [] else [.scalar tag v]

def ofInt32 (tag : Nat) (n : Int32) : Message := ofScalar tag (.int32 n)
def ofInt64 (tag : Nat) (n : Int64) : Message := ofScalar tag (.int64 n)
def ofUInt32 (tag : Nat) (n : UInt32) : Message := ofScalar tag (.uint32 n)
def ofUInt64 (tag : Nat) (n : UInt64) : Message := ofScalar tag (.uint64 n)
def ofBool (tag : Nat) (b : Bool) : Message := ofScalar tag (.bool b)
def ofText (tag : Nat) (s : String) : Message := ofScalar tag (.text s)
def ofBytes (tag : Nat) (b : Bytes) : Message := ofScalar tag (.bytes b)

/-- A message that may be absent. -/
def ofChild? (tag : Nat) (m : Option Message) : Message := m.toList.map (.message tag)

def ofChildren (tag : Nat) (ms : List Message) : Message := ms.map (.message tag)

def ofAllBytes (tag : Nat) (bs : List Bytes) : Message := bs.map fun b => .scalar tag (.bytes b)

def ofAllTexts (tag : Nat) (ss : List String) : Message := ss.map fun s => .scalar tag (.text s)

/-- A map: one entry for each key, its value's field under 2. -/
def ofEntries (tag : Nat) (es : List (String × Message)) : Message :=
  es.map fun (k, value) => .message tag (ofText 1 k ++ value)

end Message

end LedgerClient.Wire
