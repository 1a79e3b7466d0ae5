/-
Policies: thresholds over principals, and the other kinds of policy a channel
knows.
-/
import LedgerClient.Protocol.Membership

namespace LedgerClient.Protocol

open Wire Wire.Message

/-- A rule of a signature policy: a principal, by its index in the list of identities, or a
threshold over rules. A rule as it travels may also hold nothing. -/
inductive SignaturePolicy where
  | unset
  | signedBy (index : Int32)
  | nOutOf (n : Int32) (rules : List SignaturePolicy)

namespace SignaturePolicy

mutual
def ofFields : List Field → SignaturePolicy
  | .scalar 1 (.int32 i) :: _ => .signedBy i
  | .message 2 fs :: _ => .nOutOf (Message.int32 fs 1) (rulesOfFields fs)
  | _ => .unset

def rulesOfFields : List Field → List SignaturePolicy
  | [] => []
  | .message 2 fs :: rest => ofFields fs :: rulesOfFields rest
  | _ :: rest => rulesOfFields rest
end

mutual
def toFields : SignaturePolicy → List Field
  | .unset => []
  | .signedBy i => [.scalar 1 (.int32 i)]
  | .nOutOf n rules => [.message 2 (ofInt32 1 n ++ rulesToFields rules)]

def rulesToFields : List SignaturePolicy → List Field
  | [] => []
  | r :: rs => .message 2 (toFields r) :: rulesToFields rs
end

instance : Typed SignaturePolicy where
  type := .signaturePolicy
  ofMessage := ofFields
  toMessage := toFields

end SignaturePolicy

/-- A rule and the principals its indices stand for. -/
structure SignaturePolicyEnvelope where
  version : Int32 := 0
  rule : Option SignaturePolicy := none
  identities : List MspPrincipal := []

instance : Typed SignaturePolicyEnvelope where
  type := .signaturePolicyEnvelope
  ofMessage m := ⟨m.int32 1, m.typed? SignaturePolicy 2, m.allTyped MspPrincipal 3⟩
  toMessage e := ofInt32 1 e.version ++ ofTyped? 2 e.rule ++ ofAllTyped 3 e.identities

/-- The endorsement policy of a chaincode definition. -/
inductive ApplicationPolicy where
  | unset
  | signaturePolicy (policy : SignaturePolicyEnvelope)
  | reference (channelConfigPolicy : String)

instance : Typed ApplicationPolicy where
  type := .applicationPolicy
  ofMessage m :=
    match m.typed? SignaturePolicyEnvelope 1, (m.allTexts 2).head? with
    | some p, _ => .signaturePolicy p
    | none, some s => .reference s
    | none, none => .unset
  toMessage
    | .unset => []
    | .signaturePolicy p => ofTyped? 1 (some p)
    | .reference s => [.scalar 2 (.text s)]

/-- A policy of a channel: its kind and its encoded content. -/
structure Policy where
  type : Int32 := 0
  value : Bytes := []
  deriving DecidableEq, Repr

instance : Typed Policy where
  type := .policy
  ofMessage m := ⟨m.int32 1, m.bytes 2⟩
  toMessage p := ofInt32 1 p.type ++ ofBytes 2 p.value

/-- A policy over the policies of the same name in the groups below. -/
structure ImplicitMetaPolicy where
  subPolicy : String := ""
  rule : Int32 := 0
  deriving DecidableEq, Repr

instance : Typed ImplicitMetaPolicy where
  type := .implicitMetaPolicy
  ofMessage m := ⟨m.text 1, m.int32 2⟩
  toMessage p := ofText 1 p.subPolicy ++ ofInt32 2 p.rule

end LedgerClient.Protocol
