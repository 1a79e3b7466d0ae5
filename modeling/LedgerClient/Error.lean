/-
Why an operation of the client failed.
-/
import LedgerClient.Decoding
import LedgerClient.Duration
import LedgerClient.Identity
import LedgerClient.Policy.Token

namespace LedgerClient

/-- Where a configuration is wrong. -/
inductive ConfigError where
  | malformed
  | ruleWithoutOrganizations (rule : String)
  | unknownRuleSetting (rule : String)
  | unknownRule (rule : String)
  | endpointWithoutUrl (name : String)
  | invalidEndpoint (url : String)
  | organizationWithoutPeers (org : String)
  deriving DecidableEq, Repr

def ConfigError.message : ConfigError → String
  | malformed => "configuration error"
  | ruleWithoutOrganizations rule =>
    s!"configuration error: rule {Text.quoted rule} requires at least one organization"
  | unknownRuleSetting rule =>
    s!"configuration error: unknown endorsement rule {Text.quoted rule}, expected \"\", \"and\" or \"or\""
  | unknownRule rule => s!"configuration error: unknown endorsement rule {Text.quoted rule}"
  | endpointWithoutUrl name => s!"configuration error: endpoint {name} has no url"
  | invalidEndpoint url => s!"configuration error: invalid endpoint {url}"
  | organizationWithoutPeers org =>
    s!"configuration error: no peers configured for organization {org}"

/-- What the caller asked for that cannot be done. -/
inductive InvalidOperation where
  | notDeployOrUpgrade (operation : String)
  | noEndorsements
  | noChannel
  | noChaincode
  | noSeekRequest
  | wrongState (operation expected actual : String)
  deriving DecidableEq, Repr

def InvalidOperation.message : InvalidOperation → String
  | notDeployOrUpgrade operation =>
    s!"instantiate operation must be deploy or upgrade, got {Text.quoted operation}"
  | noEndorsements => "no endorsements to assemble"
  | noChannel => "no channel given or configured"
  | noChaincode => "no chaincode name given or configured"
  | noSeekRequest => "no seek request"
  | wrongState operation expected actual =>
    s!"{operation} requires state {expected}, listener is {actual}"

inductive ClientError where
  | transport (text : String)
  | proposalRejected (peer : String) (status : Int32) (text : String)
  | endorsementFailed (peer : String) (source : ClientError)
  | endorsementMismatch (first other : String)
  | broadcastRejected (status : Int32) (info : String)
  | ordererTimeout (limit : Duration)
  | deliverRejected (status : Int32)
  | decode (error : DecodeError)
  | invalidOperation (error : InvalidOperation)
  | invalidPolicy (fault : Policy.Fault)
  | noPeersConfigured
  | noOrderersConfigured
  | unknownPeer (name : String)
  | unknownOrderer (name : String)
  /-- A server cannot prove by certificate that it has this name. -/
  | serverName (name : String)
  | identity (error : IdentityError)
  | config (error : ConfigError)
  deriving DecidableEq, Repr

namespace ClientError

def message : ClientError → String
  | transport text => s!"transport error: {text}"
  | proposalRejected peer status text =>
    s!"proposal rejected by {peer}: status {status.toInt}: {text}"
  | endorsementFailed peer source => s!"endorsement from {peer} failed: {source.message}"
  | endorsementMismatch first other => s!"endorsement payload from {other} differs from {first}"
  | broadcastRejected status info => s!"broadcast rejected: status {status.toInt}: {info}"
  | ordererTimeout limit => s!"orderer did not respond within {limit.describe}"
  | deliverRejected status => s!"deliver ended with status {status.toInt}"
  | decode error => error.message
  | invalidOperation error => s!"invalid operation: {error.message}"
  | invalidPolicy fault => s!"invalid policy: {fault.message}"
  | noPeersConfigured => "no peers configured"
  | noOrderersConfigured => "no orderers configured"
  | unknownPeer name => s!"unknown peer: {name}"
  | unknownOrderer name => s!"unknown orderer: {name}"
  | serverName _ => "transport error: transport error"
  | identity error => s!"identity error: {error.message}"
  | config error => error.message

/-- The peer to blame, if there is one. -/
def peer? : ClientError → Option String
  | proposalRejected peer _ _ | endorsementFailed peer _ => some peer
  | endorsementMismatch _ other => some other
  | unknownPeer name => some name
  | _ => none

/-- A failed decoding step as an error of the client. -/
def ofDecode {α : Type} (x : Except DecodeError α) : Except ClientError α := x.mapError .decode

/-- A refused policy as an error of the client. -/
def ofPolicy {α : Type} (x : Except Policy.Fault α) : Except ClientError α :=
  x.mapError .invalidPolicy

end ClientError

end LedgerClient
