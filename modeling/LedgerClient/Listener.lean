/-
Listeners: the life of one subscription to the blocks of a channel.

A listener signs a seek request, opens one session with it, and then streams
until the session ends, fails or is cancelled. It does not start again.
-/
import LedgerClient.Dialogue
import LedgerClient.Listener.Feed
import LedgerClient.Seek

namespace LedgerClient

open Protocol

inductive ListenerState where
  | created
  /-- A seek request is signed, and the session is not yet open. -/
  | seeking
  | streaming
  | closed
  | failed
  deriving DecidableEq, Repr

namespace ListenerState

def name : ListenerState → String
  | created => "Created"
  | seeking => "Seeking"
  | streaming => "Streaming"
  | closed => "Closed"
  | failed => "Failed"

def ofEnd : FeedEnd → ListenerState
  | .closed => closed
  | .failed => failed

end ListenerState

structure Listener where
  signer : Signer
  source : Node
  channelId : String
  mode : DecodeMode
  /-- The length of the queue. -/
  capacity : Nat := 64
  state : ListenerState := .created
  /-- The seek request, until it is sent. -/
  request : Option Envelope := none
  cancelled : Bool := false
  /-- The feed, once the session is open. -/
  feed : Option Feed := none
  /-- What the session is still to bring. -/
  session : Session := .silence

namespace Listener

variable (l : Listener)

/-- A queue has room for one block at least. -/
def withCapacity (n : Nat) : Listener := { l with capacity := max n 1 }

def expectState (expected : ListenerState) (operation : String) : Except ClientError Unit :=
  if l.state = expected then .ok ()
  else .error (.invalidOperation (.wrongState operation expected.name l.state.name))

/-! ## Starting -/

/-- Signs the request for the blocks between two places. -/
def seek (stamp : Stamp) (start stop : SeekPosition) : Except ClientError Listener := do
  l.expectState .created "seek"
  return { l with
    request := some (l.signer.seek stamp l.channelId start stop), state := .seeking }

/-- Asks for the newest block and all that come after it. -/
def seekNewest (stamp : Stamp) : Except ClientError Listener :=
  l.seek stamp .newest (.specified 0xFFFFFFFFFFFFFFFF)

def seekRange (stamp : Stamp) (start stop : UInt64) : Except ClientError Listener :=
  l.seek stamp (.specified start) (.specified stop)

/-- The listener after its session has been opened or could not be. -/
def opened (answer : Except ClientError Session) : Except ClientError Unit × Listener :=
  match answer with
  | .error e => (.error e, { l with request := none, state := .failed })
  | .ok session =>
    (.ok (), { l with
      request := none, state := .streaming, session
      feed := some { mode := l.mode, capacity := l.capacity, cancelled := l.cancelled } })

/-- Opens the session and starts to stream. -/
def listen : Dialogue (Except ClientError Unit × Listener) :=
  match l.expectState .seeking "listen" with
  | .error e => .done (.error e, l)
  | .ok () =>
    match l.request with
    | none => .done (.error (.invalidOperation .noSeekRequest), l)
    | some request => .seek l.source request fun answer => .done (l.opened answer)

/-! ## Streaming -/

/-- Gives the feed up to some time to run. -/
def runFor (time : Duration) : Listener :=
  match l.feed with
  | none => l
  | some f =>
    let (f, session) := f.runFor time l.session
    { l with
      feed := some f, session
      state := match f.outcome? with
        | some how => .ofEnd how
        | none => l.state }

/-- Takes the oldest block of the queue. -/
def take : Option BlockEvent × Listener :=
  match l.feed with
  | none => (none, l)
  | some f => (f.take.1, { l with feed := some f.take.2 })

def cancel : Listener := { l with cancelled := true, feed := l.feed.map Feed.cancel }

/-- Gives the queue up. -/
def drop : Listener := { l with feed := l.feed.map Feed.drop }

/-- Lets the feed run to its end, however long the session takes. -/
def finish : Listener := l.runFor l.session.span

end Listener

end LedgerClient
