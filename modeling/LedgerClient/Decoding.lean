/-
Why a message could not be taken apart, and the steps that say so.
-/
import LedgerClient.Protocol.Codes
import LedgerClient.Wire.Typed

namespace LedgerClient

inductive DecodeError where
  /-- The bytes are no message of the expected type. -/
  | malformed (what : String)
  /-- A part that has to be there is absent. -/
  | missing (what : String)
  /-- An envelope carries something else than it should. -/
  | unexpectedHeaderType (actual : Int32) (expected : Protocol.HeaderType)
  deriving DecidableEq, Repr

namespace DecodeError

def message : DecodeError → String
  | malformed what => s!"failed to decode {what}"
  | missing what => s!"missing {what}"
  | unexpectedHeaderType actual expected =>
    s!"unexpected header type {actual.toInt}, expected {expected.code.toInt}"

end DecodeError

/-- Decodes the message called `what`. -/
def decodeAs (α : Type) [Wire.Typed α] (what : String) (bytes : Bytes) : Except DecodeError α :=
  match Wire.decode? α bytes with
  | some x => .ok x
  | none => .error (.malformed what)

/-- The part called `what`, if present. -/
def require {α : Type} (what : String) : Option α → Except DecodeError α
  | some x => .ok x
  | none => .error (.missing what)

end LedgerClient
