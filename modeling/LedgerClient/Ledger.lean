/-
Answers to questions about the ledger.
-/
import LedgerClient.Block.Filter
import LedgerClient.Endorsement

namespace LedgerClient.Ledger

open Protocol

variable (peer : String) (r : ProposalResponse)

/-- The names of the questions a peer answers. -/
inductive Question where
  | chainInfo | blockByNumber | blockByTxId
  deriving DecidableEq, Repr

def Question.function : Question → String
  | chainInfo => "GetChainInfo"
  | blockByNumber => "GetBlockByNumber"
  | blockByTxId => "GetBlockByTxID"

/-- What the chaincode answered, if it was a success. -/
def payload : Except ClientError Bytes := do
  validateResponse peer r
  return (r.response.map (·.payload)).getD []

def height : Except ClientError UInt64 := do
  let info ← ClientError.ofDecode (decodeAs BlockchainInfo "blockchain info" (← payload peer r))
  return info.height

def block : Except ClientError Block := do
  ClientError.ofDecode (decodeAs Block "block" (← payload peer r))

def filteredBlock : Except ClientError Block.Filtered := do
  ClientError.ofDecode (Block.filter (← block peer r))

def transactionTime (txId : String) : Except ClientError Block.TransactionTime := do
  return Block.transactionTime (← block peer r) txId

end LedgerClient.Ledger
