/-
What a client asks of a chaincode: a call of it, or an agreement on how it is
defined.
-/
import LedgerClient.Error
import LedgerClient.Policy.Parser
import LedgerClient.Protocol.Chaincode
import LedgerClient.Protocol.Lifecycle

namespace LedgerClient

open Protocol

/-- The kind of a chaincode written in the network's first language. -/
def golang : Int32 := 1

/-- A call of a chaincode. -/
structure ChaincodeRequest where
  channelId : String := ""
  name : String := ""
  version : String := ""
  path : String := ""
  chaincodeType : Int32 := golang
  /-- The arguments as text. -/
  args : List String := []
  /-- One more argument, after those. -/
  argBytes : Option Bytes := none
  /-- All arguments, in place of the others. -/
  rawArgs : Option (List Bytes) := none
  /-- What the endorsing peers see and the ledger does not. -/
  transientMap : List (String × Bytes) := []
  isInit : Bool := false
  deriving DecidableEq, Repr

namespace ChaincodeRequest

variable (r : ChaincodeRequest)

/-- The arguments that are sent. Raw arguments stand for all others unless there are none of them;
an empty last argument is left out. -/
def encodedArgs : List Bytes :=
  match r.rawArgs with
  | some (a :: as) => a :: as
  | _ =>
    r.args.map Utf8.encode ++
      match r.argBytes with
      | some (b :: bs) => [b :: bs]
      | _ => []

/-- The call of the chaincode under the given name. -/
def spec (id : ChaincodeId) : ChaincodeSpec :=
  { type := r.chaincodeType, chaincodeId := some id,
    input := some { args := r.encodedArgs, isInit := r.isInit } }

/-- A call goes to the chaincode by name alone. -/
def invocationId : ChaincodeId := { name := r.name }

def deploymentId : ChaincodeId := { name := r.name, version := r.version }

def installId : ChaincodeId := { path := r.path, name := r.name, version := r.version }

end ChaincodeRequest

/-- What organizations agree on about a chaincode. -/
structure ChaincodeDefinition where
  name : String := ""
  version : String := ""
  sequence : Int64 := 0
  endorsementPlugin : String := ""
  validationPlugin : String := ""
  /-- The endorsement policy; empty for the channel's own. -/
  policy : String := ""
  initRequired : Bool := false
  deriving DecidableEq, Repr

namespace ChaincodeDefinition

variable (d : ChaincodeDefinition)

/-- The encoded policy, empty without one. -/
def validationParameter : Except ClientError Bytes :=
  if d.policy.isEmpty then .ok []
  else do
    let policy ← ClientError.ofPolicy (Policy.parse d.policy)
    return Wire.encode (ApplicationPolicy.signaturePolicy policy)

/-- The definition as it travels. -/
def toArgs : Except ClientError CommitChaincodeDefinitionArgs := do
  let validationParameter ← d.validationParameter
  return {
    sequence := d.sequence, name := d.name, version := d.version,
    endorsementPlugin := d.endorsementPlugin, validationPlugin := d.validationPlugin,
    validationParameter, initRequired := d.initRequired }

end ChaincodeDefinition

end LedgerClient
