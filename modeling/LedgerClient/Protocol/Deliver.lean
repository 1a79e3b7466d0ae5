/-
What a client asks a deliver service for.
-/
import LedgerClient.Wire.Typed

namespace LedgerClient.Protocol

open Wire Wire.Message

/-- A place in the chain of blocks. -/
inductive SeekPosition where
  | unset
  | newest
  | oldest
  | specified (number : UInt64)
  | nextCommit
  deriving DecidableEq, Repr

instance : Typed SeekPosition where
  type := .seekPosition
  ofMessage
    | .message 1 _ :: _ => .newest
    | .message 2 _ :: _ => .oldest
    | .message 3 fs :: _ => .specified (Message.uint64 fs 1)
    | .message 4 _ :: _ => .nextCommit
    | _ => .unset
  toMessage
    | .unset => []
    | .newest => [.message 1 []]
    | .oldest => [.message 2 []]
    | .specified n => [.message 3 (ofUInt64 1 n)]
    | .nextCommit => [.message 4 []]

/-- The blocks from one place to another. Behaviour 0 waits for blocks not yet there. -/
structure SeekInfo where
  start : Option SeekPosition := none
  stop : Option SeekPosition := none
  behavior : Int32 := 0
  deriving DecidableEq, Repr

instance : Typed SeekInfo where
  type := .seekInfo
  ofMessage m := ⟨m.typed? SeekPosition 1, m.typed? SeekPosition 2, m.int32 3⟩
  toMessage s := ofTyped? 1 s.start ++ ofTyped? 2 s.stop ++ ofInt32 3 s.behavior

end LedgerClient.Protocol
