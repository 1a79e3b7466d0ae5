/-
The arguments and results of chaincode lifecycle operations.
-/
import LedgerClient.Wire.Typed

namespace LedgerClient.Protocol

open Wire Wire.Message

structure InstallChaincodeArgs where
  package : Bytes := []
  deriving DecidableEq, Repr

instance : Typed InstallChaincodeArgs where
  type := .installChaincodeArgs
  ofMessage m := ⟨m.bytes 1⟩
  toMessage a := ofBytes 1 a.package

structure InstallChaincodeResult where
  packageId : String := ""
  label : String := ""
  deriving DecidableEq, Repr

instance : Typed InstallChaincodeResult where
  type := .installChaincodeResult
  ofMessage m := ⟨m.text 1, m.text 2⟩
  toMessage r := ofText 1 r.packageId ++ ofText 2 r.label

/-- Where the approving organization has the chaincode's code, if anywhere. -/
inductive ChaincodeSource where
  | unset
  | unavailable
  | localPackage (packageId : String)
  deriving DecidableEq, Repr

instance : Typed ChaincodeSource where
  type := .chaincodeSource
  ofMessage
    | .message 1 _ :: _ => .unavailable
    | .message 2 fs :: _ => .localPackage (Message.text fs 1)
    | _ => .unset
  toMessage
    | .unset => []
    | .unavailable => [.message 1 []]
    | .localPackage id => [.message 2 (ofText 1 id)]

/-- A chaincode definition, which organizations approve and then commit. -/
structure CommitChaincodeDefinitionArgs where
  sequence : Int64 := 0
  name : String := ""
  version : String := ""
  endorsementPlugin : String := ""
  validationPlugin : String := ""
  validationParameter : Bytes := []
  initRequired : Bool := false
  deriving DecidableEq, Repr

namespace CommitChaincodeDefinitionArgs

def ofMessage (m : Message) : CommitChaincodeDefinitionArgs :=
  ⟨m.int64 1, m.text 2, m.text 3, m.text 4, m.text 5, m.bytes 6, m.bool 8⟩

def toMessage (a : CommitChaincodeDefinitionArgs) : Message :=
  ofInt64 1 a.sequence ++ ofText 2 a.name ++ ofText 3 a.version ++ ofText 4 a.endorsementPlugin
    ++ ofText 5 a.validationPlugin ++ ofBytes 6 a.validationParameter ++ ofBool 8 a.initRequired

instance : Typed CommitChaincodeDefinitionArgs where
  type := .commitChaincodeDefinitionArgs
  ofMessage := ofMessage
  toMessage := toMessage

end CommitChaincodeDefinitionArgs

/-- The question whether a definition could be committed has the fields of the definition. -/
structure CheckCommitReadinessArgs where
  definition : CommitChaincodeDefinitionArgs := {}
  deriving DecidableEq, Repr

instance : Typed CheckCommitReadinessArgs where
  type := .checkCommitReadinessArgs
  ofMessage m := ⟨.ofMessage m⟩
  toMessage a := a.definition.toMessage

/-- An approval has the fields of the definition and the source of the code. -/
structure ApproveChaincodeDefinitionArgs where
  definition : CommitChaincodeDefinitionArgs := {}
  source : Option ChaincodeSource := none
  deriving DecidableEq, Repr

instance : Typed ApproveChaincodeDefinitionArgs where
  type := .approveChaincodeDefinitionArgs
  ofMessage m := ⟨.ofMessage m, m.typed? ChaincodeSource 9⟩
  toMessage a := a.definition.toMessage ++ ofTyped? 9 a.source

/-- Which organizations approved a definition. -/
structure CheckCommitReadinessResult where
  approvals : List (String × Bool) := []
  deriving DecidableEq, Repr

instance : Typed CheckCommitReadinessResult where
  type := .checkCommitReadinessResult
  ofMessage m := ⟨(m.entries 1).map fun (k, e) => (k, e.bool 2)⟩
  toMessage r := ofEntries 1 (r.approvals.map fun (k, v) => (k, ofBool 2 v))

end LedgerClient.Protocol
