/-
Channel configuration: a tree of groups, each with values and policies, and the
signed updates that change it.
-/
import LedgerClient.Protocol.Envelope
import LedgerClient.Protocol.SignaturePolicy

namespace LedgerClient.Protocol

open Wire Wire.Message

structure ConfigValue where
  version : UInt64 := 0
  value : Bytes := []
  modPolicy : String := ""
  deriving DecidableEq, Repr

instance : Typed ConfigValue where
  type := .configValue
  ofMessage m := ⟨m.uint64 1, m.bytes 2, m.text 3⟩
  toMessage v := ofUInt64 1 v.version ++ ofBytes 2 v.value ++ ofText 3 v.modPolicy

structure ConfigPolicy where
  version : UInt64 := 0
  policy : Option Policy := none
  modPolicy : String := ""
  deriving DecidableEq, Repr

instance : Typed ConfigPolicy where
  type := .configPolicy
  ofMessage m := ⟨m.uint64 1, m.typed? Policy 2, m.text 3⟩
  toMessage p := ofUInt64 1 p.version ++ ofTyped? 2 p.policy ++ ofText 3 p.modPolicy

/-- A map from text to messages, by rising key. -/
abbrev Named (α : Type) := List (String × α)

/-- A group of the configuration tree. -/
structure ConfigGroup where
  version : UInt64 := 0
  groups : List (String × ConfigGroup) := []
  values : Named ConfigValue := []
  policies : Named ConfigPolicy := []
  modPolicy : String := ""

/-- The entries of a map whose values are messages; an entry without a value holds an empty one. -/
def namedOf (α : Type) [Typed α] (m : Message) (tag : Nat) : Named α :=
  (m.entries tag).map fun (k, e) => (k, Typed.ofMessage ((e.child? 2).getD []))

/-- The field of a map entry's value, left out when the value has no fields. -/
def valueField (fs : Message) : Message := if fs.isEmpty then [] else [.message 2 fs]

def ofNamed {α : Type} [Typed α] (tag : Nat) (xs : Named α) : Message :=
  ofEntries tag (xs.map fun (k, x) => (k, valueField (Typed.toMessage x)))

namespace ConfigGroup

/-- A group from its fields and the groups already found among them. -/
def ofParts (m : Message) (groups : List (String × ConfigGroup)) : ConfigGroup :=
  { version := m.uint64 1, groups, values := namedOf ConfigValue m 3,
    policies := namedOf ConfigPolicy m 4, modPolicy := m.text 5 }

mutual
/-- The groups below, read off the entries of field 2. -/
def groupsOfFields : List Field → List (String × ConfigGroup)
  | [] => []
  | .message 2 entry :: rest => (Message.text entry 1, ofEntry entry) :: groupsOfFields rest
  | _ :: rest => groupsOfFields rest

def ofEntry : List Field → ConfigGroup
  | [] => {}
  | .message 2 fs :: _ => ofParts fs (groupsOfFields fs)
  | _ :: rest => ofEntry rest
end

mutual
def toFields : ConfigGroup → List Field
  | ⟨version, groups, values, policies, modPolicy⟩ =>
    ofUInt64 1 version ++ groupsToFields groups ++ ofNamed 3 values ++ ofNamed 4 policies
      ++ ofText 5 modPolicy

def groupsToFields : List (String × ConfigGroup) → List Field
  | [] => []
  | (k, g) :: rest => .message 2 (ofText 1 k ++ valueField (toFields g)) :: groupsToFields rest
end

instance : Typed ConfigGroup where
  type := .configGroup
  ofMessage m := ofParts m (groupsOfFields m)
  toMessage := toFields

end ConfigGroup

structure Config where
  sequence : UInt64 := 0
  channelGroup : Option ConfigGroup := none

instance : Typed Config where
  type := .config
  ofMessage m := ⟨m.uint64 1, m.typed? ConfigGroup 2⟩
  toMessage c := ofUInt64 1 c.sequence ++ ofTyped? 2 c.channelGroup

structure ConfigEnvelope where
  config : Option Config := none
  lastUpdate : Option Envelope := none

instance : Typed ConfigEnvelope where
  type := .configEnvelope
  ofMessage m := ⟨m.typed? Config 1, m.typed? Envelope 2⟩
  toMessage e := ofTyped? 1 e.config ++ ofTyped? 2 e.lastUpdate

structure ConfigSignature where
  signatureHeader : Bytes := []
  signature : Bytes := []
  deriving DecidableEq, Repr

instance : Typed ConfigSignature where
  type := .configSignature
  ofMessage m := ⟨m.bytes 1, m.bytes 2⟩
  toMessage s := ofBytes 1 s.signatureHeader ++ ofBytes 2 s.signature

structure ConfigUpdateEnvelope where
  configUpdate : Bytes := []
  signatures : List ConfigSignature := []
  deriving DecidableEq, Repr

instance : Typed ConfigUpdateEnvelope where
  type := .configUpdateEnvelope
  ofMessage m := ⟨m.bytes 1, m.allTyped ConfigSignature 2⟩
  toMessage e := ofBytes 1 e.configUpdate ++ ofAllTyped 2 e.signatures

/-! ## Well-known values -/

structure HashingAlgorithm where
  name : String := ""
  deriving DecidableEq, Repr

instance : Typed HashingAlgorithm where
  type := .hashingAlgorithm
  ofMessage m := ⟨m.text 1⟩
  toMessage h := ofText 1 h.name

structure BlockDataHashingStructure where
  width : UInt32 := 0
  deriving DecidableEq, Repr

instance : Typed BlockDataHashingStructure where
  type := .blockDataHashingStructure
  ofMessage m := ⟨m.uint32 1⟩
  toMessage h := ofUInt32 1 h.width

structure OrdererAddresses where
  addresses : List String := []
  deriving DecidableEq, Repr

instance : Typed OrdererAddresses where
  type := .ordererAddresses
  ofMessage m := ⟨m.allTexts 1⟩
  toMessage a := ofAllTexts 1 a.addresses

structure Consortium where
  name : String := ""
  deriving DecidableEq, Repr

instance : Typed Consortium where
  type := .consortium
  ofMessage m := ⟨m.text 1⟩
  toMessage c := ofText 1 c.name

/-- The names of the capabilities a group requires. -/
structure Capabilities where
  names : List String := []
  deriving DecidableEq, Repr

instance : Typed Capabilities where
  type := .capabilities
  ofMessage m := ⟨(m.entries 1).map (·.1)⟩
  toMessage c := ofEntries 1 (c.names.map fun k => (k, []))

structure AnchorPeer where
  host : String := ""
  port : Int32 := 0
  deriving DecidableEq, Repr

instance : Typed AnchorPeer where
  type := .anchorPeer
  ofMessage m := ⟨m.text 1, m.int32 2⟩
  toMessage p := ofText 1 p.host ++ ofInt32 2 p.port

structure AnchorPeers where
  peers : List AnchorPeer := []
  deriving DecidableEq, Repr

instance : Typed AnchorPeers where
  type := .anchorPeers
  ofMessage m := ⟨m.allTyped AnchorPeer 1⟩
  toMessage a := ofAllTyped 1 a.peers

/-- Which policy guards each resource. -/
structure ApiResource where
  policyRef : String := ""
  deriving DecidableEq, Repr

instance : Typed ApiResource where
  type := .apiResource
  ofMessage m := ⟨m.text 1⟩
  toMessage r := ofText 1 r.policyRef

structure Acls where
  acls : Named ApiResource := []
  deriving DecidableEq, Repr

instance : Typed Acls where
  type := .acls
  ofMessage m := ⟨namedOf ApiResource m 1⟩
  toMessage a := ofNamed 1 a.acls

structure ConsensusType where
  type : String := ""
  metadata : Bytes := []
  state : Int32 := 0
  deriving DecidableEq, Repr

instance : Typed ConsensusType where
  type := .consensusType
  ofMessage m := ⟨m.text 1, m.bytes 2, m.int32 3⟩
  toMessage c := ofText 1 c.type ++ ofBytes 2 c.metadata ++ ofInt32 3 c.state

structure BatchSize where
  maxMessageCount : UInt32 := 0
  absoluteMaxBytes : UInt32 := 0
  preferredMaxBytes : UInt32 := 0
  deriving DecidableEq, Repr

instance : Typed BatchSize where
  type := .batchSize
  ofMessage m := ⟨m.uint32 1, m.uint32 2, m.uint32 3⟩
  toMessage b :=
    ofUInt32 1 b.maxMessageCount ++ ofUInt32 2 b.absoluteMaxBytes ++ ofUInt32 3 b.preferredMaxBytes

structure BatchTimeout where
  timeout : String := ""
  deriving DecidableEq, Repr

instance : Typed BatchTimeout where
  type := .batchTimeout
  ofMessage m := ⟨m.text 1⟩
  toMessage b := ofText 1 b.timeout

structure ChannelRestrictions where
  maxCount : UInt64 := 0
  deriving DecidableEq, Repr

instance : Typed ChannelRestrictions where
  type := .channelRestrictions
  ofMessage m := ⟨m.uint64 1⟩
  toMessage r := ofUInt64 1 r.maxCount

end LedgerClient.Protocol
