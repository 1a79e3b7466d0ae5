/-
What assembling a transaction takes, and what it makes.

It succeeds only if every answer counts and all of them have one payload
(`assemble_eq_ok`); the envelope then holds that payload and the endorsements
in the order of the answers.
-/
import LedgerClient.Transaction
import LedgerClient.Proofs.Envelope
import LedgerClient.Proofs.Except

namespace LedgerClient

open Protocol

/-- An answer with which a transaction can be made: a success, an endorsement, and the payload. -/
structure Protocol.ProposalResponse.Endorses (r : ProposalResponse) (payload : Bytes) : Prop where
  status : ∃ inner, r.response = some inner ∧ inner.status = Status.success.code
  endorsement : ∃ e, r.endorsement = some e
  payload_eq : r.payload = payload

/-- The transaction of a proposal, the payload its endorsers agree on and their endorsements. -/
def SignedRequest.transaction (request : SignedRequest) (payload : Bytes) (endorsements : List Endorsement) :
    Protocol.Transaction :=
  let proposalPayload : ChaincodeProposalPayload := { input := request.payload.input }
  let actionPayload : ChaincodeActionPayload :=
    { proposalPayload := Wire.encode proposalPayload
      action := some { proposalResponsePayload := payload, endorsements } }
  { actions := [{ header := request.header.signatureHeader, payload := Wire.encode actionPayload }] }

/-- The signed envelope of that transaction. -/
def Signer.envelope (s : Signer) (request : SignedRequest) (payload : Bytes) (endorsements : List Endorsement) :
    Envelope :=
  s.signPayload
    { header := some request.header, data := Wire.encode (request.transaction payload endorsements) }

theorem validateResponse_eq_ok {peer : String} {r : ProposalResponse} : validateResponse peer r = .ok () ↔
    ∃ inner, r.response = some inner ∧ inner.status = Status.success.code := by
  simp only [validateResponse]
  cases r.response with
  | none => simp
  | some inner => by_cases h : inner.status = Status.success.code <;> simp [h]

/-- An answer that is not accepted has nothing of the chaincode in it, or no success. -/
theorem validateResponse_eq_error {peer : String} {r : ProposalResponse} {error : ClientError} :
    validateResponse peer r = .error error ↔
      (r.response = none ∧ error = .proposalRejected peer 0 "response carries no chaincode response") ∨
        ∃ inner, r.response = some inner ∧ inner.status ≠ Status.success.code ∧
          error = .proposalRejected peer inner.status inner.message := by
  simp only [validateResponse]
  cases r.response with
  | none => simp [eq_comm]
  | some inner => by_cases h : inner.status = Status.success.code <;> simp [h, eq_comm]

theorem of_endorsementOf_eq_ok {first : String × ProposalResponse} {peer : String} {r : ProposalResponse}
    {e : Endorsement} (h : endorsementOf first peer r = .ok e) :
    r.Endorses first.2.payload ∧ r.endorsement = some e := by
  obtain ⟨⟨⟩, hv, h⟩ := exists_of_bind_eq_ok h
  by_cases hp : r.payload = first.2.payload
  · rw [if_neg fun hn => hn hp] at h
    cases he : r.endorsement with
    | none =>
      rw [he] at h
      cases h
    | some e' =>
      rw [he] at h
      cases h
      exact ⟨⟨validateResponse_eq_ok.1 hv, ⟨_, he⟩, hp⟩, rfl⟩
  · rw [if_pos hp] at h
    cases h

theorem Protocol.ProposalResponse.Endorses.endorsementOf_eq_ok {first : String × ProposalResponse}
    {r : ProposalResponse} (h : r.Endorses first.2.payload) (peer : String) :
    ∃ e, endorsementOf first peer r = .ok e := by
  obtain ⟨e, he⟩ := h.endorsement
  have hp : ¬ r.payload ≠ first.2.payload := fun hn => hn h.payload_eq
  refine ⟨e, ?_⟩
  unfold endorsementOf
  rw [validateResponse_eq_ok.2 h.status, he, if_neg hp]
  rfl

/-- A transaction is made of any such answers. -/
theorem exists_assemble_eq_ok (s : Signer) (request : SignedRequest) {first : String × ProposalResponse}
    {rest : List (String × ProposalResponse)} (h : ∀ a ∈ first :: rest, a.2.Endorses first.2.payload) :
    ∃ envelope, assemble s request (first :: rest) = .ok envelope := by
  obtain ⟨endorsements, hes⟩ : ∃ endorsements,
      (first :: rest).mapM (fun a => endorsementOf first a.1 a.2) = .ok endorsements :=
    exists_mapM_eq_ok fun a ha => (h a ha).endorsementOf_eq_ok a.1
  refine ⟨s.envelope request first.2.payload endorsements, ?_⟩
  show ((first :: rest).mapM (fun a => endorsementOf first a.1 a.2) >>= fun endorsements => _) = _
  rw [hes]
  rfl

/-- A transaction is only made of answers that all endorse the first one's payload. -/
theorem of_assemble_eq_ok {s : Signer} {request : SignedRequest} {answers : List (String × ProposalResponse)}
    {envelope : Envelope} (h : assemble s request answers = .ok envelope) :
    ∃ first endorsements, answers.head? = some first ∧
      (∀ a ∈ answers, a.2.Endorses first.2.payload) ∧
      answers.map (·.2.endorsement) = endorsements.map some ∧
      envelope = s.envelope request first.2.payload endorsements := by
  cases answers with
  | nil => cases h
  | cons first rest =>
    obtain ⟨endorsements, hes, h⟩ := exists_of_bind_eq_ok h
    refine ⟨first, endorsements, rfl, fun a ha => ?_, ?_, (Except.ok.inj h).symm⟩
    · obtain ⟨e, he⟩ := exists_of_mapM_eq_ok hes ha
      exact (of_endorsementOf_eq_ok he).1
    · exact map_eq_of_mapM_eq_ok (fun _ _ he => (of_endorsementOf_eq_ok he).2) hes

theorem Acknowledgement.of_check_eq_ok {a : Acknowledgement} (h : a.check = .ok ()) :
    a.status = Status.success.code := by
  unfold Acknowledgement.check at h
  split at h
  next hs => exact hs
  next => cases h

end LedgerClient
