/-
Operations as dialogues with the world outside.

An operation takes its nonces, times and random numbers from outside, sends
proposals, envelopes and seek requests, and goes on with what comes back. Such
a dialogue is a value: it says what is sent next for every answer so far, and
nothing is sent before the answers it depends on are there. A `World` answers.
-/
import LedgerClient.Endorsement
import LedgerClient.Session
import LedgerClient.Signing
import LedgerClient.Transaction

namespace LedgerClient

open Protocol

/-- The nodes an operation may talk to. A peer that serves events is a node of its own. -/
inductive Node where
  | peer (name : String)
  | eventPeer (name : String)
  | orderer (name : String)
  deriving DecidableEq, Repr

def Node.name : Node → String
  | peer name | eventPeer name | orderer name => name

inductive Dialogue (α : Type) where
  | done (result : α)
  /-- Asks for a fresh nonce and the time. -/
  | stamp (next : Stamp → Dialogue α)
  /-- Asks for random numbers. -/
  | draw (next : (Nat → Nat) → Dialogue α)
  /-- Sends a proposal to all targets at once and waits for each. -/
  | propose (targets : List Node) (proposal : SignedProposal) (next : List Dispatch → Dialogue α)
  /-- Sends an envelope for ordering and waits for the acknowledgement. -/
  | broadcast (target : Node) (envelope : Envelope)
      (next : Except ClientError Acknowledgement → Dialogue α)
  /-- Sends a seek request and waits until the session is open. -/
  | seek (target : Node) (request : Envelope) (next : Except ClientError Session → Dialogue α)

namespace Dialogue

variable {α β : Type}

/-- Goes on with `f` where the first dialogue is done. -/
def bind : Dialogue α → (α → Dialogue β) → Dialogue β
  | done a, f => f a
  | stamp next, f => .stamp fun x => (next x).bind f
  | draw next, f => .draw fun x => (next x).bind f
  | propose targets p next, f => .propose targets p fun x => (next x).bind f
  | broadcast target e next, f => .broadcast target e fun x => (next x).bind f
  | seek target r next, f => .seek target r fun x => (next x).bind f

instance : Monad Dialogue where
  pure := done
  bind := bind

end Dialogue

/-- What answers: each answer may depend on all that was asked before. -/
structure World (σ : Type) where
  stamp : σ → Stamp × σ
  draw : σ → (Nat → Nat) × σ
  propose : List Node → SignedProposal → σ → List Dispatch × σ
  broadcast : Node → Envelope → σ → Except ClientError Acknowledgement × σ
  seek : Node → Envelope → σ → Except ClientError Session × σ

/-- The end of a dialogue in a world. -/
def Dialogue.run {σ α : Type} (w : World σ) : Dialogue α → σ → α × σ
  | done a, s => (a, s)
  | stamp next, s => (next (w.stamp s).1).run w (w.stamp s).2
  | draw next, s => (next (w.draw s).1).run w (w.draw s).2
  | propose targets p next, s =>
    (next (w.propose targets p s).1).run w (w.propose targets p s).2
  | broadcast target e next, s =>
    (next (w.broadcast target e s).1).run w (w.broadcast target e s).2
  | seek target r next, s => (next (w.seek target r s).1).run w (w.seek target r s).2

/-- A dialogue that may fail. -/
abbrev Operation := ExceptT ClientError Dialogue

namespace Operation

def ofExcept {α : Type} (x : Except ClientError α) : Operation α := ExceptT.mk (.done x)

def stamp : Operation Stamp := ExceptT.mk (.stamp fun s => .done (.ok s))

def draw : Operation (Nat → Nat) := ExceptT.mk (.draw fun d => .done (.ok d))

/-- The answers of all targets to a proposal, each given within `limit`. -/
def propose (limit : Duration) (targets : List Node) (proposal : SignedProposal) :
    Operation (List PeerAnswer) :=
  ExceptT.mk (.propose targets proposal fun dispatches =>
    .done (.ok (collect limit (targets.map Node.name) dispatches)))

/-- Has an envelope ordered. -/
def broadcast (target : Node) (envelope : Envelope) : Operation Unit :=
  ExceptT.mk (.broadcast target envelope fun answer => .done (answer >>= Acknowledgement.check))

/-- Opens a deliver session. -/
def seek (target : Node) (request : Envelope) : Operation Session :=
  ExceptT.mk (.seek target request .done)

end Operation

end LedgerClient
