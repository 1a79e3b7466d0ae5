/-
Settings as JSON documents, every setting shown.
-/
import LedgerClient.Json
import LedgerClient.Settings.Basic

namespace LedgerClient

def CryptoSettings.toJson (c : CryptoSettings) : Json :=
  .object [("family", .text c.family), ("algorithm", .text c.algorithm), ("hash", .text c.hash)]

def NodeSettings.toJson (n : NodeSettings) : Json :=
  .object [("url", .text n.url), ("org_name", .text n.organization), ("use_tls", .bool n.useTls),
    ("tls_ca_pem", .optional .text n.authorityPem), ("domain_name", .optional .text n.serverName)]

def EndorserSettings.toJson (e : EndorserSettings) : Json :=
  .object [("orgs", .texts e.organizations), ("rule", .text e.rule)]

def ChannelSettings.toJson (c : ChannelSettings) : Json :=
  .object [("channel_id", .text c.channelId), ("chaincode_name", .text c.chaincodeName),
    ("chaincode_version", .text c.chaincodeVersion), ("chaincode_policy", c.endorsers.toJson)]

def Timeouts.toJson (t : Timeouts) : Json :=
  .object [("connect_secs", .nat t.connect.toNat), ("request_secs", .nat t.request.toNat),
    ("deliver_secs", .nat t.deliver.toNat),
    ("keepalive_interval_secs", .nat t.keepaliveInterval.toNat),
    ("keepalive_timeout_secs", .nat t.keepaliveTimeout.toNat)]

def LogSettings.toJson (l : LogSettings) : Json :=
  .object [("level", .text l.level), ("format", .text l.format)]

namespace Settings

def nodesJson (nodes : List (String × NodeSettings)) : Json :=
  .object (nodes.map fun (name, n) => (name, n.toJson))

def toJson (s : Settings) : Json :=
  .object [("crypto", s.crypto.toJson), ("peers", nodesJson s.peers),
    ("event_peers", nodesJson s.eventPeers), ("orderers", nodesJson s.orderers),
    ("channel", s.channel.toJson), ("timeouts", s.timeouts.toJson), ("log", s.log.toJson)]

end Settings

end LedgerClient
