/-
Deliver sessions: what a node sends in answer to a seek request, one message
after the other, with the time that passes between them.

Who wants one block reads a session up to the first block in it. Filtered
blocks do not count; anything else ends the search.
-/
import LedgerClient.Error
import LedgerClient.Protocol.Block
import LedgerClient.Protocol.Deliver
import LedgerClient.Protocol.FilteredBlock

namespace LedgerClient

open Protocol

inductive DeliverMessage where
  | block (b : Block)
  | filteredBlock (b : FilteredBlock)
  /-- The node is done; nothing follows. -/
  | status (code : Int32)

/-- One message, or the failure of the session. -/
abbrev Delivery := Except ClientError DeliverMessage

/-- What a session brings. -/
inductive Session where
  /-- The session stays open, and nothing more comes. -/
  | silence
  /-- The node closes the session. -/
  | finish
  /-- Time passes. -/
  | pause (time : Duration) (rest : Session)
  | item (d : Delivery) (rest : Session)

namespace Session

/-- The session of the given steps: pauses and deliveries. -/
def ofSteps (stop : Session) (steps : List (Duration ⊕ Delivery)) : Session :=
  steps.foldr (fun | .inl time => .pause time | .inr d => .item d) stop

/-- The time that passes in a session. -/
def span : Session → Duration
  | silence | finish => .zero
  | pause time rest => time + rest.span
  | item _ rest => rest.span

/-- The first block of a session, if it comes within `limit`, of which `left` is still to go. -/
def firstBlockWithin (limit : Duration) : (left : Duration) → Session → Except ClientError Block
  | _, silence => .error (.ordererTimeout limit)
  | _, finish => .error (.transport "deliver stream closed without a block")
  | left, pause time rest =>
    if time ≤ left then firstBlockWithin limit (left - time) rest
    else .error (.ordererTimeout limit)
  | left, item d rest =>
    match d with
    | .error e => .error e
    | .ok (.block b) => .ok b
    | .ok (.status code) => .error (.deliverRejected code)
    | .ok (.filteredBlock _) => firstBlockWithin limit left rest

/-- The first block of a session, if it comes within `limit`. -/
def firstBlock (limit : Duration) (s : Session) : Except ClientError Block :=
  s.firstBlockWithin limit limit

end Session

end LedgerClient
