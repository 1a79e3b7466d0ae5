/-
Channel configuration as a JSON document.

Groups, values and policies are shown as the tree they are. A value is shown by
what its name says it holds and a policy by its kind; whatever has no
well-known name or kind, or does not decode as that, is shown as hexadecimal
text.
-/
import LedgerClient.Json
import LedgerClient.Protocol.Codes
import LedgerClient.Protocol.ChannelConfig

namespace LedgerClient.ChannelConfig

open Protocol Wire

/-- Certificates are usually text; other bytes are shown as hexadecimal text. -/
def certificate (b : Bytes) : Json :=
  match Utf8.decode? b with
  | some s => .text s
  | none => .hex b

def certificates (bs : List Bytes) : Json := .listOf certificate bs

/-! ## Organizations -/

def ouIdentifier (o : OuIdentifier) : Json :=
  .object [("certificate", certificate o.certificate),
    ("organizational_unit_identifier", .text o.organizationalUnit)]

def nodeOus (n : NodeOus) : Json :=
  .object [("enable", .bool n.enable),
    ("client_ou_identifier", .optional ouIdentifier n.client),
    ("peer_ou_identifier", .optional ouIdentifier n.peer),
    ("admin_ou_identifier", .optional ouIdentifier n.admin),
    ("orderer_ou_identifier", .optional ouIdentifier n.orderer)]

def cryptoConfig (c : MspCryptoConfig) : Json :=
  .object [("signature_hash_family", .text c.signatureHashFamily),
    ("identity_identifier_hash_function", .text c.identityIdentifierHashFunction)]

def mspDefinition (d : MspDefinition) : Json :=
  .object [("name", .text d.name),
    ("root_certs", certificates d.rootCerts),
    ("intermediate_certs", certificates d.intermediateCerts),
    ("admins", certificates d.admins),
    ("revocation_list", certificates d.revocationList),
    ("organizational_unit_identifiers", .listOf ouIdentifier d.ouIdentifiers),
    ("crypto_config", .optional cryptoConfig d.cryptoConfig),
    ("tls_root_certs", certificates d.tlsRootCerts),
    ("tls_intermediate_certs", certificates d.tlsIntermediateCerts),
    ("fabric_node_ous", .optional nodeOus d.nodeOus)]

/-- Only organizations of type 0 are defined by certificates. -/
def mspConfig (c : MspConfig) : Json :=
  let definition := if c.type = 0 then decode? MspDefinition c.config else none
  .object [("type", .int c.type.toInt),
    ("config", (definition.map mspDefinition).getD (.hex c.config))]

/-! ## Values -/

def consensusState (state : Int32) : String :=
  if state = 1 then "STATE_MAINTENANCE" else "STATE_NORMAL"

/-- What a value holds, by its name; nothing for other names and for bytes that do not decode. -/
def wellKnown? (name : String) (bytes : Bytes) : Option Json :=
  match name with
  | "MSP" => (decode? MspConfig bytes).map mspConfig
  | "AnchorPeers" => (decode? AnchorPeers bytes).map fun a =>
    .object [("anchor_peers",
      .listOf (fun p => .object [("host", .text p.host), ("port", .int p.port.toInt)]) a.peers)]
  | "OrdererAddresses" | "Endpoints" => (decode? OrdererAddresses bytes).map fun a =>
    .object [("addresses", .texts a.addresses)]
  | "Consortium" => (decode? Consortium bytes).map fun c => .object [("name", .text c.name)]
  | "HashingAlgorithm" => (decode? HashingAlgorithm bytes).map fun h =>
    .object [("name", .text h.name)]
  | "BlockDataHashingStructure" => (decode? BlockDataHashingStructure bytes).map fun b =>
    .object [("width", .nat b.width.toNat)]
  | "Capabilities" => (decode? Capabilities bytes).map fun c =>
    .object [("capabilities", .object (c.names.map fun k => (k, .object [])))]
  | "ACLs" => (decode? Acls bytes).map fun a =>
    .object [("acls", .object (a.acls.map fun (k, r) => (k, .object [("policy_ref", .text r.policyRef)])))]
  | "BatchSize" => (decode? BatchSize bytes).map fun b =>
    .object [("max_message_count", .nat b.maxMessageCount.toNat),
      ("absolute_max_bytes", .nat b.absoluteMaxBytes.toNat),
      ("preferred_max_bytes", .nat b.preferredMaxBytes.toNat)]
  | "BatchTimeout" => (decode? BatchTimeout bytes).map fun b =>
    .object [("timeout", .text b.timeout)]
  | "ChannelRestrictions" => (decode? ChannelRestrictions bytes).map fun r =>
    .object [("max_count", .nat r.maxCount.toNat)]
  | "ConsensusType" => (decode? ConsensusType bytes).map fun c =>
    .object [("type", .text c.type), ("metadata", .hex c.metadata),
      ("state", .text (consensusState c.state))]
  | _ => none

def value (name : String) (v : ConfigValue) : Json :=
  .object [("version", .nat v.version.toNat), ("mod_policy", .text v.modPolicy),
    ("value", (wellKnown? name v.value).getD (.hex v.value))]

/-! ## Policies -/

mutual
def rule : SignaturePolicy → Json
  | .unset => .null
  | .signedBy i => .object [("signed_by", .int i.toInt)]
  | .nOutOf n rs => .object [("n_out_of", .object [("n", .int n.toInt), ("rules", .list (rules rs))])]

def rules : List SignaturePolicy → List Json
  | [] => []
  | r :: rs => rule r :: rules rs
end

def roleName (code : Int32) : String :=
  match Role.ofCode? code with
  | some r => r.displayName
  | none => "UNKNOWN"

def classificationName (code : Int32) : String :=
  if code = 0 then "ROLE"
  else if code = 1 then "ORGANIZATION_UNIT"
  else if code = 2 then "IDENTITY"
  else if code = 3 then "ANONYMITY"
  else if code = 4 then "COMBINED"
  else "UNKNOWN"

/-- A principal of the role kind names an organization and a role. -/
def principal (p : MspPrincipal) : Json :=
  let role := if p.classification = 0 then decode? MspRole p.principal else none
  let body := role.map fun r =>
    Json.object [("msp_identifier", .text r.mspId), ("role", .text (roleName r.role))]
  .object [("principal_classification", .text (classificationName p.classification)),
    ("principal", body.getD (.hex p.principal))]

def signaturePolicy (e : SignaturePolicyEnvelope) : Json :=
  .object [("version", .int e.version.toInt), ("rule", .optional rule e.rule),
    ("identities", .listOf principal e.identities)]

def implicitMetaRule (code : Int32) : String :=
  if code = 1 then "ALL" else if code = 2 then "MAJORITY" else "ANY"

def policyContent? (p : Policy) : Option Json :=
  if p.type = 1 then (decode? SignaturePolicyEnvelope p.value).map signaturePolicy
  else if p.type = 3 then (decode? ImplicitMetaPolicy p.value).map fun m =>
    .object [("sub_policy", .text m.subPolicy), ("rule", .text (implicitMetaRule m.rule))]
  else none

def policy (p : ConfigPolicy) : Json :=
  let content (q : Policy) : Json :=
    .object [("type", .int q.type.toInt), ("value", (policyContent? q).getD (.hex q.value))]
  .object [("version", .nat p.version.toNat), ("mod_policy", .text p.modPolicy),
    ("policy", .optional content p.policy)]

/-! ## Groups -/

mutual
def group : ConfigGroup → Json
  | ⟨version, gs, values, policies, modPolicy⟩ =>
    .object [("version", .nat version.toNat), ("mod_policy", .text modPolicy),
      ("groups", .object (groups gs)),
      ("values", .object (values.map fun (k, v) => (k, value k v))),
      ("policies", .object (policies.map fun (k, p) => (k, policy p)))]

def groups : List (String × ConfigGroup) → List (String × Json)
  | [] => []
  | (k, g) :: rest => (k, group g) :: groups rest
end

/-- The document of a configuration. -/
def toJson (c : Config) : Json :=
  .object [("sequence", .nat c.sequence.toNat), ("channel_group", .optional group c.channelGroup)]

end LedgerClient.ChannelConfig
