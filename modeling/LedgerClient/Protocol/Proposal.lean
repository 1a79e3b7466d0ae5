/-
Proposals, the endorsing peers' answers, and the transactions made of both.
-/
import LedgerClient.Protocol.Envelope
import LedgerClient.Protocol.Chaincode

namespace LedgerClient.Protocol

open Wire Wire.Message

structure SignedProposal where
  proposalBytes : Bytes := []
  signature : Bytes := []
  deriving DecidableEq, Repr

instance : Typed SignedProposal where
  type := .signedProposal
  ofMessage m := ⟨m.bytes 1, m.bytes 2⟩
  toMessage p := ofBytes 1 p.proposalBytes ++ ofBytes 2 p.signature

structure Proposal where
  header : Bytes := []
  payload : Bytes := []
  extension : Bytes := []
  deriving DecidableEq, Repr

instance : Typed Proposal where
  type := .proposal
  ofMessage m := ⟨m.bytes 1, m.bytes 2, m.bytes 3⟩
  toMessage p := ofBytes 1 p.header ++ ofBytes 2 p.payload ++ ofBytes 3 p.extension

structure Endorsement where
  endorser : Bytes := []
  signature : Bytes := []
  deriving DecidableEq, Repr

instance : Typed Endorsement where
  type := .endorsement
  ofMessage m := ⟨m.bytes 1, m.bytes 2⟩
  toMessage e := ofBytes 1 e.endorser ++ ofBytes 2 e.signature

structure ProposalResponse where
  version : Int32 := 0
  timestamp : Option Timestamp := none
  response : Option Response := none
  payload : Bytes := []
  endorsement : Option Endorsement := none
  deriving DecidableEq, Repr

instance : Typed ProposalResponse where
  type := .proposalResponse
  ofMessage m :=
    ⟨m.int32 1, m.typed? Timestamp 2, m.typed? Response 4, m.bytes 5, m.typed? Endorsement 6⟩
  toMessage r :=
    ofInt32 1 r.version ++ ofTyped? 2 r.timestamp ++ ofTyped? 4 r.response ++ ofBytes 5 r.payload
      ++ ofTyped? 6 r.endorsement

structure ProposalResponsePayload where
  proposalHash : Bytes := []
  extension : Bytes := []
  deriving DecidableEq, Repr

instance : Typed ProposalResponsePayload where
  type := .proposalResponsePayload
  ofMessage m := ⟨m.bytes 1, m.bytes 2⟩
  toMessage p := ofBytes 1 p.proposalHash ++ ofBytes 2 p.extension

structure TransactionAction where
  header : Bytes := []
  payload : Bytes := []
  deriving DecidableEq, Repr

instance : Typed TransactionAction where
  type := .transactionAction
  ofMessage m := ⟨m.bytes 1, m.bytes 2⟩
  toMessage a := ofBytes 1 a.header ++ ofBytes 2 a.payload

structure Transaction where
  actions : List TransactionAction := []
  deriving DecidableEq, Repr

instance : Typed Transaction where
  type := .transaction
  ofMessage m := ⟨m.allTyped TransactionAction 1⟩
  toMessage t := ofAllTyped 1 t.actions

structure ChaincodeEndorsedAction where
  proposalResponsePayload : Bytes := []
  endorsements : List Endorsement := []
  deriving DecidableEq, Repr

instance : Typed ChaincodeEndorsedAction where
  type := .chaincodeEndorsedAction
  ofMessage m := ⟨m.bytes 1, m.allTyped Endorsement 2⟩
  toMessage a := ofBytes 1 a.proposalResponsePayload ++ ofAllTyped 2 a.endorsements

structure ChaincodeActionPayload where
  proposalPayload : Bytes := []
  action : Option ChaincodeEndorsedAction := none
  deriving DecidableEq, Repr

instance : Typed ChaincodeActionPayload where
  type := .chaincodeActionPayload
  ofMessage m := ⟨m.bytes 1, m.typed? ChaincodeEndorsedAction 2⟩
  toMessage p := ofBytes 1 p.proposalPayload ++ ofTyped? 2 p.action

end LedgerClient.Protocol
