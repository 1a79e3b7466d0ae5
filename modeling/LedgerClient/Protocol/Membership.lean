/-
Organizations and their members: who signed, who may sign, and how an
organization is defined.
-/
import LedgerClient.Wire.Typed

namespace LedgerClient.Protocol

open Wire Wire.Message

/-- A member: the organization's identifier and the member's certificate. -/
structure SerializedIdentity where
  mspId : String := ""
  idBytes : Bytes := []
  deriving DecidableEq, Repr

instance : Typed SerializedIdentity where
  type := .serializedIdentity
  ofMessage m := ⟨m.text 1, m.bytes 2⟩
  toMessage i := ofText 1 i.mspId ++ ofBytes 2 i.idBytes

/-- Who a policy names: a classification and an encoded description of that kind. -/
structure MspPrincipal where
  classification : Int32 := 0
  principal : Bytes := []
  deriving DecidableEq, Repr

instance : Typed MspPrincipal where
  type := .mspPrincipal
  ofMessage m := ⟨m.int32 1, m.bytes 2⟩
  toMessage p := ofInt32 1 p.classification ++ ofBytes 2 p.principal

structure MspRole where
  mspId : String := ""
  role : Int32 := 0
  deriving DecidableEq, Repr

instance : Typed MspRole where
  type := .mspRole
  ofMessage m := ⟨m.text 1, m.int32 2⟩
  toMessage r := ofText 1 r.mspId ++ ofInt32 2 r.role

/-! ## Definitions of organizations -/

structure MspConfig where
  type : Int32 := 0
  config : Bytes := []
  deriving DecidableEq, Repr

instance : Typed MspConfig where
  type := .mspConfig
  ofMessage m := ⟨m.int32 1, m.bytes 2⟩
  toMessage c := ofInt32 1 c.type ++ ofBytes 2 c.config

structure OuIdentifier where
  certificate : Bytes := []
  organizationalUnit : String := ""
  deriving DecidableEq, Repr

instance : Typed OuIdentifier where
  type := .ouIdentifier
  ofMessage m := ⟨m.bytes 1, m.text 2⟩
  toMessage o := ofBytes 1 o.certificate ++ ofText 2 o.organizationalUnit

structure MspCryptoConfig where
  signatureHashFamily : String := ""
  identityIdentifierHashFunction : String := ""
  deriving DecidableEq, Repr

instance : Typed MspCryptoConfig where
  type := .mspCryptoConfig
  ofMessage m := ⟨m.text 1, m.text 2⟩
  toMessage c := ofText 1 c.signatureHashFamily ++ ofText 2 c.identityIdentifierHashFunction

/-- The organizational units that tell an organization's clients, peers, admins and orderers. -/
structure NodeOus where
  enable : Bool := false
  client : Option OuIdentifier := none
  peer : Option OuIdentifier := none
  admin : Option OuIdentifier := none
  orderer : Option OuIdentifier := none
  deriving DecidableEq, Repr

instance : Typed NodeOus where
  type := .nodeOus
  ofMessage m :=
    ⟨m.bool 1, m.typed? OuIdentifier 2, m.typed? OuIdentifier 3, m.typed? OuIdentifier 4,
      m.typed? OuIdentifier 5⟩
  toMessage n :=
    ofBool 1 n.enable ++ ofTyped? 2 n.client ++ ofTyped? 3 n.peer ++ ofTyped? 4 n.admin
      ++ ofTyped? 5 n.orderer

/-- An organization defined by certificates. -/
structure MspDefinition where
  name : String := ""
  rootCerts : List Bytes := []
  intermediateCerts : List Bytes := []
  admins : List Bytes := []
  revocationList : List Bytes := []
  ouIdentifiers : List OuIdentifier := []
  cryptoConfig : Option MspCryptoConfig := none
  tlsRootCerts : List Bytes := []
  tlsIntermediateCerts : List Bytes := []
  nodeOus : Option NodeOus := none
  deriving DecidableEq, Repr

instance : Typed MspDefinition where
  type := .mspDefinition
  ofMessage m :=
    ⟨m.text 1, m.allBytes 2, m.allBytes 3, m.allBytes 4, m.allBytes 5,
      m.allTyped OuIdentifier 7, m.typed? MspCryptoConfig 8, m.allBytes 9, m.allBytes 10,
      m.typed? NodeOus 11⟩
  toMessage d :=
    ofText 1 d.name ++ ofAllBytes 2 d.rootCerts ++ ofAllBytes 3 d.intermediateCerts
      ++ ofAllBytes 4 d.admins ++ ofAllBytes 5 d.revocationList ++ ofAllTyped 7 d.ouIdentifiers
      ++ ofTyped? 8 d.cryptoConfig ++ ofAllBytes 9 d.tlsRootCerts
      ++ ofAllBytes 10 d.tlsIntermediateCerts ++ ofTyped? 11 d.nodeOus

end LedgerClient.Protocol
