/-
Lean types that stand for message types.

A structure names the fields of one message type; it is read from the list of
fields and written as one. Decoding and encoding go through that list.
-/
import LedgerClient.Wire.Decode

namespace LedgerClient.Wire

/-- `α` stands for the messages of one type. -/
class Typed (α : Type) where
  type : MessageType
  ofMessage : Message → α
  toMessage : α → Message

variable {α : Type} [Typed α]

/-- Reads a message; nothing when the bytes are none of its type. -/
def decode? (α : Type) [Typed α] (bytes : Bytes) : Option α :=
  (Message.decode? (Typed.type α) bytes).map Typed.ofMessage

def encode (x : α) : Bytes := (Typed.toMessage x).encode

/-- The length of `encode x`. -/
def size (x : α) : Nat := (Typed.toMessage x).size

namespace Message

/-- The message under a number, if present. -/
def typed? (α : Type) [Typed α] (m : Message) (tag : Nat) : Option α :=
  (m.child? tag).map Typed.ofMessage

/-- The messages under a number, in order. -/
def allTyped (α : Type) [Typed α] (m : Message) (tag : Nat) : List α :=
  (m.children tag).map Typed.ofMessage

def ofTyped? (tag : Nat) (x : Option α) : Message := ofChild? tag (x.map Typed.toMessage)

def ofAllTyped (tag : Nat) (xs : List α) : Message := ofChildren tag (xs.map Typed.toMessage)

end Message

end LedgerClient.Wire
