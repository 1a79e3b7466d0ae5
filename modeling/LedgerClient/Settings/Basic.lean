/-
The settings of a client: whom it talks to, on which channel, and how long it
waits.

Tables of nodes are sorted by name.
-/
import LedgerClient.Duration
import LedgerClient.Error

namespace LedgerClient

/-- The names of the crypto suite. -/
structure CryptoSettings where
  family : String := "ecdsa"
  algorithm : String := "P256-SHA256"
  hash : String := "SHA2-256"
  deriving DecidableEq, Repr

/-- How one node is reached. -/
structure NodeSettings where
  /-- Host and port, with or without a scheme. -/
  url : String := ""
  /-- The organization the node belongs to. -/
  organization : String := ""
  useTls : Bool := false
  /-- The certificate of the authority that vouches for the node. -/
  authorityPem : Option String := none
  /-- The name the node proves to have, in place of the host in its address. -/
  serverName : Option String := none
  deriving DecidableEq, Repr

/-- Which peers endorse: `and` for one of each organization, `or` for one of any, nothing for all
peers there are. -/
structure EndorserSettings where
  organizations : List String := []
  rule : String := ""
  deriving DecidableEq, Repr

/-- What stands in for names that a request leaves out. -/
structure ChannelSettings where
  channelId : String := ""
  chaincodeName : String := ""
  chaincodeVersion : String := ""
  endorsers : EndorserSettings := {}
  deriving DecidableEq, Repr

/-- Limits in seconds. -/
structure Timeouts where
  connect : UInt64 := 5
  request : UInt64 := 30
  deliver : UInt64 := 5
  keepaliveInterval : UInt64 := 60
  keepaliveTimeout : UInt64 := 20
  deriving DecidableEq, Repr

namespace Timeouts

/-- The time for one exchange with a peer or an orderer. -/
def requestLimit (t : Timeouts) : Duration := .ofSecs t.request.toNat

/-- The time for a block to come. -/
def deliverLimit (t : Timeouts) : Duration := .ofSecs t.deliver.toNat

end Timeouts

structure LogSettings where
  level : String := "info"
  format : String := "pretty"
  deriving DecidableEq, Repr

/-- How log lines are written. -/
inductive LogFormat where
  | pretty
  | json
  deriving DecidableEq, Repr

/-- The format of a name, in any case; lines are pretty unless it is `json`. -/
def LogFormat.ofName (name : String) : LogFormat :=
  if name.map Char.toLower = "json" then json else pretty

structure Settings where
  crypto : CryptoSettings := {}
  peers : List (String × NodeSettings) := []
  eventPeers : List (String × NodeSettings) := []
  orderers : List (String × NodeSettings) := []
  channel : ChannelSettings := {}
  timeouts : Timeouts := {}
  log : LogSettings := {}
  deriving DecidableEq, Repr

namespace Settings

/-- A rule other than the empty one names organizations. -/
def checkRule (e : EndorserSettings) : Except ConfigError Unit :=
  match e.rule with
  | "" => .ok ()
  | "and" | "or" =>
    if e.organizations.isEmpty then .error (.ruleWithoutOrganizations e.rule) else .ok ()
  | rule => .error (.unknownRuleSetting rule)

/-- All nodes, table by table. -/
def nodes (s : Settings) : List (String × NodeSettings) := s.peers ++ s.eventPeers ++ s.orderers

/-- The first thing wrong with the settings: its rule, a table that is empty but must not be, or a
node without an address. -/
def validate (s : Settings) : Except ClientError Unit := do
  (checkRule s.channel.endorsers).mapError .config
  if s.orderers.isEmpty then throw .noOrderersConfigured
  if s.peers.isEmpty then throw .noPeersConfigured
  match s.nodes.find? fun (_, node) => node.url.isEmpty with
  | some (name, _) => throw (.config (.endpointWithoutUrl name))
  | none => return ()

end Settings

end LedgerClient
