/-
Which peers endorse, and which orderer orders.

Each choice is a random one among the candidates and is made anew each time.
The random numbers come from outside: the number `draw i` decides the choice
for the organization at place `i`.
-/
import LedgerClient.Settings.Basic

namespace LedgerClient

inductive EndorsementRule where
  /-- Every peer there is. -/
  | all
  /-- One peer of each organization. -/
  | and (organizations : List String)
  /-- One peer of any of the organizations. -/
  | or (organizations : List String)
  deriving DecidableEq, Repr

def EndorsementRule.ofSettings (e : EndorserSettings) : Except ConfigError EndorsementRule :=
  match e.rule with
  | "" => .ok .all
  | "and" => .ok (.and e.organizations)
  | "or" => .ok (.or e.organizations)
  | rule => .error (.unknownRule rule)

/-- A peer and the organization it belongs to. -/
structure PeerEntry where
  name : String
  organization : String
  deriving DecidableEq, Repr

structure Selector where
  peers : List PeerEntry
  orderers : List String
  rule : EndorsementRule
  deriving DecidableEq, Repr

/-- The member of a list that a random number decides on. -/
def choose? {α : Type} (number : Nat) (xs : List α) : Option α := xs[number % xs.length]?

namespace Selector

def ofSettings (s : Settings) : Except ConfigError Selector := do
  let rule ← EndorsementRule.ofSettings s.channel.endorsers
  return {
    peers := s.peers.map fun (name, node) => ⟨name, node.organization⟩
    orderers := s.orderers.map (·.1), rule }

variable (s : Selector) (draw : Nat → Nat)

/-- The peers of some organizations. -/
def peersOf (organizations : List String) : List PeerEntry :=
  s.peers.filter fun p => p.organization ∈ organizations

/-- One peer of an organization. -/
def pickFrom (number : Nat) (organization : String) : Except ClientError String :=
  match choose? number (s.peersOf [organization]) with
  | some p => .ok p.name
  | none => .error (.config (.organizationWithoutPeers organization))

/-- The names of the peers that are to endorse; never none. -/
def selectPeers : Except ClientError (List String) := do
  let names ← match s.rule with
    | .all => pure (s.peers.map (·.name))
    | .and organizations => organizations.zipIdx.mapM fun (o, i) => s.pickFrom (draw i) o
    | .or organizations =>
      pure ((choose? (draw 0) (s.peersOf organizations)).map (·.name)).toList
  if names.isEmpty then throw .noPeersConfigured
  return names

/-- The first of the peers that are to endorse. -/
def selectFirstPeer : Except ClientError String := do
  match ← s.selectPeers draw with
  | name :: _ => return name
  | [] => throw .noPeersConfigured

/-- The name of the orderer. -/
def selectOrderer : Except ClientError String :=
  match choose? (draw 0) s.orderers with
  | some name => .ok name
  | none => .error .noOrderersConfigured

end Selector

end LedgerClient
