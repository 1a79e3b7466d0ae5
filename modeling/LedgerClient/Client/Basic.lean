/-
Clients: one identity on one network.

A client holds no state: each operation chooses its targets anew. What an
operation needs is looked up before anything is sent.
-/
import LedgerClient.Dialogue
import LedgerClient.Endpoint
import LedgerClient.Fetch
import LedgerClient.Selector

namespace LedgerClient

open Protocol

/-- The names of the nodes that can be reached. -/
structure Nodes where
  peers : List String
  eventPeers : List String
  orderers : List String
  deriving DecidableEq, Repr

structure Client where
  settings : Settings
  signer : Signer
  nodes : Nodes
  selector : Selector

namespace Client

/-! ## Creating a client -/

/-- A client over given nodes; its settings have to be valid. -/
def create (settings : Settings) (signer : Signer) (nodes : Nodes) : Except ClientError Client := do
  settings.validate
  let selector ← (Selector.ofSettings settings).mapError .config
  return { settings, signer, nodes, selector }

/-- A client of an identity, over the nodes that its settings name; `readable` says which texts name
authorities to the TLS library. -/
def connect (settings : Settings) (identity : Identity)
    (readable : String → Bool := Authority.isReadable) : Except ClientError Client := do
  let names := settings.crypto
  let suite ← (CryptoSuite.find? names.family names.algorithm names.hash).mapError .identity
  settings.checkEndpoints readable
  create settings { identity, suite } {
    peers := settings.peers.map (·.1)
    eventPeers := settings.eventPeers.map (·.1)
    orderers := settings.orderers.map (·.1) }

variable (c : Client)

/-! ## What a request leaves out -/

def channelOrDefault (channelId : String) : Except ClientError String :=
  let channelId := if channelId.isEmpty then c.settings.channel.channelId else channelId
  if channelId.isEmpty then .error (.invalidOperation .noChannel) else .ok channelId

/-- A request with its channel and its chaincode. The version in the settings belongs to the
chaincode there. -/
def resolve (r : ChaincodeRequest) : Except ClientError ChaincodeRequest := do
  let channelId ← c.channelOrDefault r.channelId
  let r := { r with channelId }
  let r :=
    if r.name.isEmpty then
      { r with
        name := c.settings.channel.chaincodeName
        version := if r.version.isEmpty then c.settings.channel.chaincodeVersion else r.version }
    else r
  if r.name.isEmpty then throw (.invalidOperation .noChaincode)
  return r

/-! ## Whom to talk to -/

/-- The peers of the given names, in their order. -/
def peers (names : List String) : Except ClientError (List Node) :=
  names.mapM fun name =>
    if name ∈ c.nodes.peers then .ok (.peer name) else .error (.unknownPeer name)

/-- An orderer. -/
def orderer (draw : Nat → Nat) : Except ClientError Node := do
  let name ← c.selector.selectOrderer draw
  if name ∈ c.nodes.orderers then return .orderer name else throw (.unknownOrderer name)

/-- The first of the peers that serve events. -/
def eventPeer : Except ClientError Node :=
  match c.settings.eventPeers with
  | [] => .error .noPeersConfigured
  | (name, _) :: _ =>
    if name ∈ c.nodes.eventPeers then .ok (.eventPeer name) else .error (.unknownPeer name)

/-- The peers that are to endorse. -/
def selectPeers : Operation (List String) := do
  Operation.ofExcept (c.selector.selectPeers (← Operation.draw))

/-- The one peer that is to answer a question. -/
def selectFirstPeer : Operation String := do
  Operation.ofExcept (c.selector.selectFirstPeer (← Operation.draw))

def selectOrderer : Operation Node := do
  Operation.ofExcept (c.orderer (← Operation.draw))

/-! ## Exchanges -/

/-- The answers of peers to a proposal. -/
def ask (targets : List Node) (request : SignedRequest) : Operation (List PeerAnswer) :=
  Operation.propose c.settings.timeouts.requestLimit targets request.signed

/-- What became of a transaction. -/
structure Outcome where
  txId : String
  status : Int32
  payload : Bytes
  deriving DecidableEq, Repr

/-- The outcome of a transaction, from the answers of its endorsers. -/
def outcome (request : SignedRequest) (answers : List (String × ProposalResponse)) : Outcome :=
  let r := (answers.head?.bind (·.2.response)).getD {}
  { txId := request.txId.id, status := r.status, payload := r.payload }

/-- Has a proposal endorsed by all of the given peers and the transaction ordered. Nothing is
ordered unless all of them endorse the same result. -/
def submit (request : SignedRequest) (names : List String) : Operation Outcome := do
  let targets ← Operation.ofExcept (c.peers names)
  let orderer ← c.selectOrderer
  let answers ← Operation.ofExcept (PeerAnswer.requireAll (← c.ask targets request))
  let envelope ← Operation.ofExcept (assemble c.signer request answers)
  Operation.broadcast orderer envelope
  return outcome request answers

/-- One peer's answer to a proposal. -/
def evaluate (request : SignedRequest) (name : String) : Operation (String × ProposalResponse) := do
  let targets ← Operation.ofExcept (c.peers [name])
  Operation.ofExcept (PeerAnswer.requireFirst (← c.ask targets request))

end Client

end LedgerClient
