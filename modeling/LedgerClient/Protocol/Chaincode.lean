/-
Chaincode: its name, the call of it, what it answers and the events it emits.
-/
import LedgerClient.Wire.Typed

namespace LedgerClient.Protocol

open Wire Wire.Message

structure ChaincodeId where
  path : String := ""
  name : String := ""
  version : String := ""
  deriving DecidableEq, Repr

instance : Typed ChaincodeId where
  type := .chaincodeId
  ofMessage m := ⟨m.text 1, m.text 2, m.text 3⟩
  toMessage c := ofText 1 c.path ++ ofText 2 c.name ++ ofText 3 c.version

structure ChaincodeInput where
  args : List Bytes := []
  decorations : List (String × Bytes) := []
  isInit : Bool := false
  deriving DecidableEq, Repr

instance : Typed ChaincodeInput where
  type := .chaincodeInput
  ofMessage m :=
    ⟨m.allBytes 1, (m.entries 2).map fun (k, e) => (k, e.bytes 2), m.bool 3⟩
  toMessage i :=
    ofAllBytes 1 i.args ++ ofEntries 2 (i.decorations.map fun (k, v) => (k, ofBytes 2 v))
      ++ ofBool 3 i.isInit

structure ChaincodeSpec where
  type : Int32 := 0
  chaincodeId : Option ChaincodeId := none
  input : Option ChaincodeInput := none
  timeout : Int32 := 0
  deriving DecidableEq, Repr

instance : Typed ChaincodeSpec where
  type := .chaincodeSpec
  ofMessage m := ⟨m.int32 1, m.typed? ChaincodeId 2, m.typed? ChaincodeInput 3, m.int32 4⟩
  toMessage s :=
    ofInt32 1 s.type ++ ofTyped? 2 s.chaincodeId ++ ofTyped? 3 s.input ++ ofInt32 4 s.timeout

structure ChaincodeDeploymentSpec where
  spec : Option ChaincodeSpec := none
  codePackage : Bytes := []
  deriving DecidableEq, Repr

instance : Typed ChaincodeDeploymentSpec where
  type := .chaincodeDeploymentSpec
  ofMessage m := ⟨m.typed? ChaincodeSpec 1, m.bytes 3⟩
  toMessage s := ofTyped? 1 s.spec ++ ofBytes 3 s.codePackage

structure ChaincodeInvocationSpec where
  spec : Option ChaincodeSpec := none
  deriving DecidableEq, Repr

instance : Typed ChaincodeInvocationSpec where
  type := .chaincodeInvocationSpec
  ofMessage m := ⟨m.typed? ChaincodeSpec 1⟩
  toMessage s := ofTyped? 1 s.spec

/-- The extension of a channel header: which chaincode the envelope is for. -/
structure ChaincodeHeaderExtension where
  chaincodeId : Option ChaincodeId := none
  deriving DecidableEq, Repr

instance : Typed ChaincodeHeaderExtension where
  type := .chaincodeHeaderExtension
  ofMessage m := ⟨m.typed? ChaincodeId 2⟩
  toMessage e := ofTyped? 2 e.chaincodeId

structure ChaincodeProposalPayload where
  input : Bytes := []
  transientMap : List (String × Bytes) := []
  deriving DecidableEq, Repr

instance : Typed ChaincodeProposalPayload where
  type := .chaincodeProposalPayload
  ofMessage m := ⟨m.bytes 1, (m.entries 2).map fun (k, e) => (k, e.bytes 2)⟩
  toMessage p :=
    ofBytes 1 p.input ++ ofEntries 2 (p.transientMap.map fun (k, v) => (k, ofBytes 2 v))

structure Response where
  status : Int32 := 0
  message : String := ""
  payload : Bytes := []
  deriving DecidableEq, Repr

instance : Typed Response where
  type := .response
  ofMessage m := ⟨m.int32 1, m.text 2, m.bytes 3⟩
  toMessage r := ofInt32 1 r.status ++ ofText 2 r.message ++ ofBytes 3 r.payload

structure ChaincodeEvent where
  chaincodeId : String := ""
  txId : String := ""
  eventName : String := ""
  payload : Bytes := []
  deriving DecidableEq, Repr

instance : Typed ChaincodeEvent where
  type := .chaincodeEvent
  ofMessage m := ⟨m.text 1, m.text 2, m.text 3, m.bytes 4⟩
  toMessage e :=
    ofText 1 e.chaincodeId ++ ofText 2 e.txId ++ ofText 3 e.eventName ++ ofBytes 4 e.payload

/-- What a simulated call produced. -/
structure ChaincodeAction where
  results : Bytes := []
  events : Bytes := []
  response : Option Response := none
  chaincodeId : Option ChaincodeId := none
  deriving DecidableEq, Repr

instance : Typed ChaincodeAction where
  type := .chaincodeAction
  ofMessage m := ⟨m.bytes 1, m.bytes 2, m.typed? Response 3, m.typed? ChaincodeId 4⟩
  toMessage a :=
    ofBytes 1 a.results ++ ofBytes 2 a.events ++ ofTyped? 3 a.response ++ ofTyped? 4 a.chaincodeId

end LedgerClient.Protocol
