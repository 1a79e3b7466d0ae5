/-
Questions, which one peer answers and nothing is ordered for.
-/
import LedgerClient.Client.Basic
import LedgerClient.Ledger

namespace LedgerClient.Client

open Protocol

variable (c : Client)

/-- A chaincode's answer to a question. -/
structure Answer where
  txId : String
  peer : String
  status : Int32
  payload : Bytes
  deriving DecidableEq, Repr

/-- Calls a chaincode on one peer, without effect on the ledger. -/
def query (r : ChaincodeRequest) : Operation Answer := do
  let r ← Operation.ofExcept (c.resolve r)
  let request := c.signer.proposeInvocation (← Operation.stamp) r
  let (peer, answer) ← c.evaluate request (← c.selectFirstPeer)
  let r := answer.response.getD {}
  return { txId := request.txId.id, peer, status := r.status, payload := r.payload }

/-- Which organizations have approved a chaincode definition. -/
def checkCommitReadiness (channelId : String) (d : ChaincodeDefinition) :
    Operation (List (String × Bool)) := do
  let channelId ← Operation.ofExcept (c.channelOrDefault channelId)
  let stamp ← Operation.stamp
  let request ← Operation.ofExcept (c.signer.proposeReadinessCheck stamp channelId d)
  let (peer, answer) ← c.evaluate request (← c.selectFirstPeer)
  let payload ← Operation.ofExcept (Ledger.payload peer answer)
  let result ← Operation.ofExcept (ClientError.ofDecode
    (decodeAs CheckCommitReadinessResult "commit readiness" payload))
  return result.approvals

/-! ## The ledger -/

/-- Asks a peer about the ledger of a channel. -/
def askLedger {α : Type} (channelId : String) (question : Ledger.Question) (args : List String)
    (read : String → ProposalResponse → Except ClientError α) : Operation α := do
  let channelId ← Operation.ofExcept (c.channelOrDefault channelId)
  let request := c.signer.proposeQuery (← Operation.stamp) channelId question.function
    (channelId :: args)
  let (peer, answer) ← c.evaluate request (← c.selectFirstPeer)
  Operation.ofExcept (read peer answer)

def blockByNumber (channelId : String) (number : UInt64) : Operation Block.Filtered :=
  c.askLedger channelId .blockByNumber [toString number.toNat] Ledger.filteredBlock

/-- The block with a transaction. -/
def blockByTxId (channelId txId : String) : Operation Block.Filtered :=
  c.askLedger channelId .blockByTxId [txId] Ledger.filteredBlock

/-- The number of blocks on a channel. -/
def blockHeight (channelId : String) : Operation UInt64 :=
  c.askLedger channelId .chainInfo [] Ledger.height

/-- The block and the time of a transaction. -/
def transactionTime (channelId txId : String) : Operation Block.TransactionTime :=
  c.askLedger channelId .blockByTxId [txId] fun peer r => Ledger.transactionTime peer r txId

/-- The number of blocks on a channel, from a peer that serves events. -/
def blockHeightByEventPeer (channelId : String) : Operation UInt64 := do
  let channelId ← Operation.ofExcept (c.channelOrDefault channelId)
  let target ← Operation.ofExcept c.eventPeer
  let request := c.signer.proposeQuery (← Operation.stamp) channelId
    Ledger.Question.chainInfo.function [channelId]
  let (peer, answer) ← Operation.ofExcept
    (PeerAnswer.requireFirst (← c.ask [target] request))
  Operation.ofExcept (Ledger.height peer answer)

end LedgerClient.Client
