/-
Transactions: the proposal, the answer all its endorsers gave, and their
endorsements.

The transaction carries the proposal's input but not its transient map.
-/
import LedgerClient.Endorsement
import LedgerClient.Proposal.Build

namespace LedgerClient

open Protocol

/-- The endorsement in an answer that counts and has the payload that `first` gave. -/
def endorsementOf (first : String × ProposalResponse) (peer : String) (r : ProposalResponse) :
    Except ClientError Endorsement := do
  validateResponse peer r
  if r.payload ≠ first.2.payload then throw (.endorsementMismatch first.1 peer)
  match r.endorsement with
  | some e => return e
  | none =>
    throw (.proposalRejected peer ((r.response.map (·.status)).getD 0)
      "response carries no endorsement")

/-- The signed envelope of the transaction. -/
def assemble (s : Signer) (request : SignedRequest) (answers : List (String × ProposalResponse)) :
    Except ClientError Envelope :=
  match answers with
  | [] => .error (.invalidOperation .noEndorsements)
  | first :: _ => do
    let endorsements ← answers.mapM fun (peer, r) => endorsementOf first peer r
    let proposalPayload : ChaincodeProposalPayload := { input := request.payload.input }
    let actionPayload : ChaincodeActionPayload :=
      { proposalPayload := Wire.encode proposalPayload
        action := some { proposalResponsePayload := first.2.payload, endorsements } }
    let transaction : Protocol.Transaction :=
      { actions := [{ header := request.header.signatureHeader,
                      payload := Wire.encode actionPayload }] }
    return s.signPayload { header := some request.header, data := Wire.encode transaction }

/-- An ordering service's answer to an envelope. -/
structure Acknowledgement where
  status : Int32 := 0
  info : String := ""
  deriving DecidableEq, Repr

/-- Only a success means that the envelope will be ordered. -/
def Acknowledgement.check (a : Acknowledgement) : Except ClientError Unit :=
  if a.status = Status.success.code then .ok () else .error (.broadcastRejected a.status a.info)

end LedgerClient
