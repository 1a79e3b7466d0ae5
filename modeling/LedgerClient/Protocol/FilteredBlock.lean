/-
Filtered blocks as a peer sends them: identifiers and validation codes, with
chaincode events but without read-write sets.
-/
import LedgerClient.Protocol.Chaincode

namespace LedgerClient.Protocol

open Wire Wire.Message

structure FilteredChaincodeAction where
  event : Option ChaincodeEvent := none
  deriving DecidableEq, Repr

instance : Typed FilteredChaincodeAction where
  type := .filteredChaincodeAction
  ofMessage m := ⟨m.typed? ChaincodeEvent 1⟩
  toMessage a := ofTyped? 1 a.event

structure FilteredTransactionActions where
  actions : List FilteredChaincodeAction := []
  deriving DecidableEq, Repr

instance : Typed FilteredTransactionActions where
  type := .filteredTransactionActions
  ofMessage m := ⟨m.allTyped FilteredChaincodeAction 1⟩
  toMessage a := ofAllTyped 1 a.actions

structure FilteredTransaction where
  txId : String := ""
  type : Int32 := 0
  validationCode : Int32 := 0
  actions : Option FilteredTransactionActions := none
  deriving DecidableEq, Repr

instance : Typed FilteredTransaction where
  type := .filteredTransaction
  ofMessage m := ⟨m.text 1, m.int32 2, m.int32 3, m.typed? FilteredTransactionActions 4⟩
  toMessage t :=
    ofText 1 t.txId ++ ofInt32 2 t.type ++ ofInt32 3 t.validationCode ++ ofTyped? 4 t.actions

structure FilteredBlock where
  channelId : String := ""
  number : UInt64 := 0
  transactions : List FilteredTransaction := []
  deriving DecidableEq, Repr

instance : Typed FilteredBlock where
  type := .filteredBlock
  ofMessage m := ⟨m.text 1, m.uint64 2, m.allTyped FilteredTransaction 4⟩
  toMessage b := ofText 1 b.channelId ++ ofUInt64 2 b.number ++ ofAllTyped 4 b.transactions

end LedgerClient.Protocol
