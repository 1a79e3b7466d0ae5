/-
Feeds: decoded blocks on their way from a deliver session to a consumer.

A receive loop reads one delivery at a time, decodes it, and puts it into a
queue of limited length; while the queue is full it holds the block and reads
no further. It looks whether it has been cancelled before it reads and before
it puts a block into the queue. The consumer takes blocks from the front, also
after the loop has ended, and may give the queue up.
-/
import LedgerClient.Block.Decode
import LedgerClient.Block.Filter
import LedgerClient.Session

namespace LedgerClient

open Protocol

/-- How much of a block is decoded. -/
inductive DecodeMode where
  | full
  | filtered
  deriving DecidableEq, Repr

/-- A block as a consumer receives it. -/
inductive BlockEvent where
  | full (b : Block.Full)
  | filtered (b : Block.Filtered)

def BlockEvent.number : BlockEvent → UInt64
  | full b => b.number
  | filtered b => b.number

/-- How a receive loop ended. -/
inductive FeedEnd where
  /-- The node was done, or the consumer wanted no more. -/
  | closed
  | failed
  deriving DecidableEq, Repr

/-- What a delivery means for a feed. -/
inductive Reaction where
  | pass (e : BlockEvent)
  | skip
  | stop (how : FeedEnd)

/-- A block that cannot be decoded is skipped, and so is a filtered one where full ones are
wanted. A status ends the feed, as does a failure. -/
def DecodeMode.react (mode : DecodeMode) : Delivery → Reaction
  | .error _ => .stop .failed
  | .ok (.status code) => .stop (if code = Status.success.code then .closed else .failed)
  | .ok (.block b) =>
    match mode with
    | full => match Block.decode b with
      | .ok b => .pass (.full b)
      | .error _ => .skip
    | filtered => match Block.filter b with
      | .ok b => .pass (.filtered b)
      | .error _ => .skip
  | .ok (.filteredBlock b) =>
    match mode with
    | full => .skip
    | filtered => .pass (.filtered (Block.ofPeerFiltered b))

/-- Where a receive loop stands. -/
inductive FeedPhase where
  | reading
  /-- The loop has a block for which the queue has had no room yet. -/
  | holding (e : BlockEvent)
  | ended (how : FeedEnd)

structure Feed where
  mode : DecodeMode
  capacity : Nat
  phase : FeedPhase := .reading
  /-- Blocks put into the queue and not yet taken, oldest first. -/
  queue : List BlockEvent := []
  cancelled : Bool := false
  /-- The consumer has given up the queue. -/
  dropped : Bool := false

namespace Feed

/-- How the loop ended, if it has. -/
def outcome? (f : Feed) : Option FeedEnd :=
  match f.phase with
  | .ended how => some how
  | _ => none

/-! ## The receive loop -/

/-- What the loop does without reading: it ends after a cancellation, and lets go of the block it
holds. -/
def proceed (f : Feed) : Feed :=
  match f.phase with
  | .ended _ => f
  | .reading => if f.cancelled then { f with phase := .ended .closed } else f
  | .holding e =>
    if f.cancelled ∨ f.dropped then { f with phase := .ended .closed }
    else if f.queue.length < f.capacity then
      { f with phase := .reading, queue := f.queue ++ [e] }
    else f

/-- Reads a delivery, or nothing where the session is over. -/
def read (f : Feed) (d : Option Delivery) : Feed :=
  match f.phase with
  | .reading =>
    if f.cancelled then { f with phase := .ended .closed }
    else
      match d with
      | none => { f with phase := .ended .failed }
      | some d =>
        match f.mode.react d with
        | .pass e => { f with phase := .holding e }
        | .skip => f
        | .stop how => { f with phase := .ended how }
  | _ => f

/-- Runs the loop on a session for a time, until it can do no more; the rest of the session is
what it has not read. Time counts for a session only while the loop is reading. -/
def runFor (f : Feed) : (time : Duration) → Session → Feed × Session
  | time, s =>
    let f := f.proceed
    match f.phase, s with
    | .reading, .finish => (f.read none, .finish)
    | .reading, .item d rest => (f.read (some d)).runFor time rest
    | .reading, .pause wait rest =>
      if wait ≤ time then f.runFor (time - wait) rest else (f, .pause (wait - time) rest)
    | _, s => (f, s)
termination_by structural _ s => s

/-! ## The consumer -/

/-- Takes the oldest block. -/
def take (f : Feed) : Option BlockEvent × Feed :=
  match f.queue with
  | [] => (none, f)
  | e :: rest => (some e, { f with queue := rest })

def cancel (f : Feed) : Feed := { f with cancelled := true }

def drop (f : Feed) : Feed := { f with dropped := true, queue := [] }

end Feed

end LedgerClient
