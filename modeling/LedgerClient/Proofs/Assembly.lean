/-
When a transaction is made of the answers to a proposal, why else not, and what
its envelope says.

The answers are checked one by one in their order, each against the first, so
the first that offends says why (`assemble_eq_error_iff`). What the envelope
says is read from its bytes, layer by layer (`Envelope.contents?`).
-/
import LedgerClient.Proofs.Proposal.Content
import LedgerClient.Proofs.Transaction

namespace LedgerClient

open Protocol

variable {s : Signer} {request : SignedRequest} {first : String × ProposalResponse} {peer : String}
  {r : ProposalResponse} {answers : List (String × ProposalResponse)} {error : ClientError}

/-! ## Answers that offend -/

/-- What is wrong with a peer's answer beside the first one: it has no response of the chaincode, or
that is no success, or the payload is another, or there is no endorsement. The first of these counts. -/
inductive Offends (first : String × ProposalResponse) (peer : String) (r : ProposalResponse) :
    ClientError → Prop where
  | unanswered (h : r.response = none) :
      Offends first peer r (.proposalRejected peer 0 "response carries no chaincode response")
  | failed {inner : Response} (h : r.response = some inner) (hs : inner.status ≠ 200) :
      Offends first peer r (.proposalRejected peer inner.status inner.message)
  | mismatch {inner : Response} (h : r.response = some inner) (hs : inner.status = 200)
      (hp : r.payload ≠ first.2.payload) : Offends first peer r (.endorsementMismatch first.1 peer)
  | unendorsed {inner : Response} (h : r.response = some inner) (hs : inner.status = 200)
      (hp : r.payload = first.2.payload) (he : r.endorsement = none) :
      Offends first peer r (.proposalRejected peer 200 "response carries no endorsement")

/-- What is looked at once the answer is known to be a success. -/
theorem endorsementOf_of_success {inner : Response} (h : r.response = some inner) (hs : inner.status = 200) :
    endorsementOf first peer r =
      if r.payload = first.2.payload then
        match r.endorsement with
        | some e => .ok e
        | none => .error (.proposalRejected peer 200 "response carries no endorsement")
      else .error (.endorsementMismatch first.1 peer) := by
  have hv : validateResponse peer r = .ok () := validateResponse_eq_ok.2 ⟨inner, h, hs⟩
  simp only [endorsementOf, hv, h, Option.map_some, Option.getD_some, hs]
  by_cases hp : r.payload = first.2.payload
  · rw [if_pos hp, if_neg fun hn => hn hp]
    cases r.endorsement <;> rfl
  · rw [if_neg hp, if_pos hp]
    rfl

theorem endorsementOf_of_validateResponse (h : validateResponse peer r = .error error) :
    endorsementOf first peer r = .error error := by
  simp only [endorsementOf, h]
  rfl

theorem endorsementOf_eq_error_iff : endorsementOf first peer r = .error error ↔ Offends first peer r error := by
  constructor
  · intro h
    cases hr : r.response with
    | none =>
      rw [endorsementOf_of_validateResponse (validateResponse_eq_error.2 (.inl ⟨hr, rfl⟩))] at h
      cases h
      exact .unanswered hr
    | some inner =>
      by_cases hs : inner.status = 200
      · rw [endorsementOf_of_success hr hs] at h
        split at h
        next hp =>
          split at h
          next => cases h
          next he =>
            cases h
            exact .unendorsed hr hs hp he
        next hp =>
          cases h
          exact .mismatch hr hs hp
      · rw [endorsementOf_of_validateResponse (validateResponse_eq_error.2 (.inr ⟨inner, hr, hs, rfl⟩))] at h
        cases h
        exact .failed hr hs
  · rintro (h | ⟨h, hs⟩ | ⟨h, hs, hp⟩ | ⟨h, hs, hp, he⟩)
    · exact endorsementOf_of_validateResponse (validateResponse_eq_error.2 (.inl ⟨h, rfl⟩))
    · exact endorsementOf_of_validateResponse (validateResponse_eq_error.2 (.inr ⟨_, h, hs, rfl⟩))
    · rw [endorsementOf_of_success h hs, if_neg hp]
    · rw [endorsementOf_of_success h hs, if_pos hp, he]

theorem exists_endorsementOf_eq_ok_iff :
    (∃ e, endorsementOf first peer r = .ok e) ↔ r.Endorses first.2.payload := by
  constructor
  · rintro ⟨e, h⟩
    exact (of_endorsementOf_eq_ok h).1
  · exact fun h => h.endorsementOf_eq_ok peer

/-! ## When there is a transaction -/

theorem exists_assemble_eq_ok_iff : (∃ envelope, assemble s request answers = .ok envelope) ↔
    ∃ first, answers.head? = some first ∧ ∀ a ∈ answers, a.2.Endorses first.2.payload := by
  constructor
  · rintro ⟨envelope, h⟩
    obtain ⟨first, _, hfirst, hall, -⟩ := of_assemble_eq_ok h
    exact ⟨first, hfirst, hall⟩
  · rintro ⟨first, hfirst, hall⟩
    obtain ⟨rest, rfl⟩ := List.head?_eq_some_iff.1 hfirst
    exact exists_assemble_eq_ok s request hall

theorem assemble_cons_eq_error_iff {rest : List (String × ProposalResponse)} :
    assemble s request (first :: rest) = .error error ↔
      (first :: rest).mapM (fun a => endorsementOf first a.1 a.2) = .error error :=
  bind_ok_eq_error_iff

/-- The earliest answer that offends says why there is no transaction. -/
theorem assemble_eq_error_iff : assemble s request answers = .error error ↔
    (answers = [] ∧ error = .invalidOperation .noEndorsements) ∨
    ∃ first before a after, answers.head? = some first ∧ answers = before ++ a :: after ∧
      (∀ b ∈ before, b.2.Endorses first.2.payload) ∧ Offends first a.1 a.2 error := by
  cases answers with
  | nil =>
    constructor
    · intro h
      cases h
      exact .inl ⟨rfl, rfl⟩
    · rintro (⟨-, rfl⟩ | ⟨_, _, _, _, hfirst, -⟩)
      · rfl
      · cases hfirst
  | cons first rest =>
    rw [assemble_cons_eq_error_iff, mapM_eq_error_iff]
    simp only [exists_endorsementOf_eq_ok_iff, endorsementOf_eq_error_iff]
    constructor
    · rintro ⟨before, a, after, heq, hbefore, ha⟩
      exact .inr ⟨first, before, a, after, rfl, heq, hbefore, ha⟩
    · rintro (⟨h, -⟩ | ⟨_, before, a, after, hfirst, heq, hbefore, ha⟩)
      · cases h
      · cases hfirst
        exact ⟨before, a, after, heq, hbefore, ha⟩

/-! ## What the envelope says -/

/-- What a transaction's envelope says. -/
structure Protocol.Envelope.Contents where
  header : Option Header
  /-- The header of its only action. -/
  actionHeader : Bytes
  /-- What the endorsing peers agree on. -/
  response : Bytes
  endorsements : List Endorsement
  /-- What was asked of them. -/
  proposal : ChaincodeProposalPayload

/-- Reads the layers of an envelope; nothing unless there is one action exactly. -/
def Protocol.Envelope.contents? (e : Envelope) : Option Contents := do
  let payload ← Wire.decode? Payload e.payload
  let transaction ← Wire.decode? Protocol.Transaction payload.data
  let [action] := transaction.actions | none
  let actionPayload ← Wire.decode? ChaincodeActionPayload action.payload
  let endorsed ← actionPayload.action
  let proposal ← Wire.decode? ChaincodeProposalPayload actionPayload.proposalPayload
  return {
    header := payload.header, actionHeader := action.header, response := endorsed.proposalResponsePayload
    endorsements := endorsed.endorsements, proposal }

theorem contents?_envelope {response : Bytes} {endorsements : List Endorsement}
    (hs : (s.envelope request response endorsements).payload.length < 2 ^ 64) :
    (s.envelope request response endorsements).contents? = some {
      header := some request.header, actionHeader := request.header.signatureHeader, response, endorsements
      proposal := { input := request.payload.input, transientMap := [] } } := by
  let proposal : ChaincodeProposalPayload := { input := request.payload.input }
  let endorsed : ChaincodeEndorsedAction := { proposalResponsePayload := response, endorsements }
  let actionPayload : ChaincodeActionPayload := { proposalPayload := Wire.encode proposal, action := some endorsed }
  let action : TransactionAction :=
    { header := request.header.signatureHeader, payload := Wire.encode actionPayload }
  let transaction : Protocol.Transaction := { actions := [action] }
  let payload : Payload := { header := some request.header, data := Wire.encode transaction }
  have hps : Wire.size payload < 2 ^ 64 := Wire.length_encode (x := payload) ▸ hs
  have hp : Wire.decode? Payload (Wire.encode payload) = some payload :=
    payload.faithful.decode?_encode (by decide) hps
  obtain ⟨ht, hts⟩ := transaction.faithful.decode?_inside (by decide) payload 2
    (by simp [Wire.Typed.toMessage, payload]) hps
  have has : Wire.size action < 2 ^ 64 := Nat.lt_of_le_of_lt (Wire.size_le_of_mem 1 List.mem_cons_self) hts
  obtain ⟨hap, haps⟩ := actionPayload.faithful.decode?_inside (by decide) action 2
    (by simp [Wire.Typed.toMessage, action]) has
  have hfaithful : Wire.Faithful 1 proposal := ChaincodeProposalPayload.faithful .nil
  obtain ⟨hpp, -⟩ := hfaithful.decode?_inside (by decide) actionPayload 1
    (by simp [Wire.Typed.toMessage, actionPayload]) haps
  have hpayload : (s.envelope request response endorsements).payload = Wire.encode payload := rfl
  simp only [Envelope.contents?, hpayload, hp, Option.bind_eq_bind, Option.bind_some, payload, ht, transaction, hap,
    action, actionPayload, hpp]
  rfl

/-- A transaction is made exactly of one or more answers that all endorse the first one's payload;
otherwise the first that offends says why. Its envelope says what was asked, without the transient
map, and has that payload and the endorsement of each answer, signed as it stands. -/
theorem assemble_exact (s : Signer) (request : SignedRequest) (answers : List (String × ProposalResponse)) :
    ((∃ envelope, assemble s request answers = .ok envelope) ↔
      ∃ first, answers.head? = some first ∧ ∀ a ∈ answers, a.2.Endorses first.2.payload) ∧
    (∀ error, assemble s request answers = .error error ↔
      (answers = [] ∧ error = .invalidOperation .noEndorsements) ∨
      ∃ first before a after, answers.head? = some first ∧ answers = before ++ a :: after ∧
        (∀ b ∈ before, b.2.Endorses first.2.payload) ∧ Offends first a.1 a.2 error) ∧
    ∀ envelope, assemble s request answers = .ok envelope →
      envelope.signature = s.sign envelope.payload ∧
      (envelope.payload.length < 2 ^ 64 →
        ∃ first endorsements, answers.head? = some first ∧
          answers.map (·.2.endorsement) = endorsements.map some ∧
          envelope.contents? = some {
            header := some request.header, actionHeader := request.header.signatureHeader
            response := first.2.payload, endorsements
            proposal := { input := request.payload.input, transientMap := [] } }) := by
  refine ⟨exists_assemble_eq_ok_iff, fun _ => assemble_eq_error_iff, fun envelope h => ?_⟩
  obtain ⟨first, endorsements, hfirst, -, hendorsements, rfl⟩ := of_assemble_eq_ok h
  refine ⟨?_, fun hs => ⟨first, endorsements, hfirst, hendorsements, contents?_envelope hs⟩⟩
  rw [Signer.envelope, Signer.signPayload]

/-! A call with private data, answered by two peers alike, and by three peers of which the second
differs and the third has failed. -/

def sampleRequest : SignedRequest := sampleClient.proposeInvocation sampleStamp sampleCall

def sampleAnswer (payload : Bytes) (peer : UInt8) : ProposalResponse :=
  { response := some { status := 200 }, payload, endorsement := some ⟨[peer], [peer]⟩ }

theorem assemble_exact_sample :
    (∃ envelope, assemble sampleClient sampleRequest [("peer0", sampleAnswer [5] 1), ("peer1", sampleAnswer [5] 2)] =
        .ok envelope ∧
      envelope.contents?.map (fun c => (c.response, c.endorsements.map (·.signature), c.proposal.transientMap)) =
        some ([5], [[1], [2]], [])) ∧
    assemble sampleClient sampleRequest
      [("peer0", sampleAnswer [5] 1), ("peer1", sampleAnswer [6] 2), ("peer2", {})] =
        .error (.endorsementMismatch "peer0" "peer1") := by
  have hendorses (peer : UInt8) : (sampleAnswer [5] peer).Endorses [5] := ⟨⟨_, rfl, rfl⟩, ⟨_, rfl⟩, rfl⟩
  constructor
  · obtain ⟨hok, -, hsaid⟩ :=
      assemble_exact sampleClient sampleRequest [("peer0", sampleAnswer [5] 1), ("peer1", sampleAnswer [5] 2)]
    obtain ⟨envelope, henvelope⟩ := hok.2 ⟨_, rfl, by simpa using ⟨hendorses 1, hendorses 2⟩⟩
    have hlength : envelope.payload.length < 2 ^ 64 := by
      obtain rfl := Except.ok.inj henvelope
      let transaction := sampleRequest.transaction [5] [⟨[1], [1]⟩, ⟨[2], [2]⟩]
      have hsize : Wire.size (⟨some sampleRequest.header, Wire.encode transaction⟩ : Payload) < 1000 := by
        decide +kernel
      rw [Signer.signPayload, Wire.length_encode]
      exact Nat.lt_trans hsize (by decide)
    obtain ⟨first, endorsements, hfirst, hendorsements, hcontents⟩ := (hsaid envelope henvelope).2 hlength
    cases hfirst
    have hes : [⟨[1], [1]⟩, ⟨[2], [2]⟩] = endorsements :=
      (List.map_inj_right fun _ _ => Option.some.inj).1 hendorsements
    subst hes
    refine ⟨envelope, henvelope, ?_⟩
    rw [hcontents]
    rfl
  · refine ((assemble_exact _ _ _).2.1 _).2 (.inr ⟨_, [("peer0", sampleAnswer [5] 1)], _, _, rfl, rfl, ?_, ?_⟩)
    · exact List.forall_mem_singleton.2 (hendorses 1)
    · exact .mismatch rfl rfl (by decide)

end LedgerClient
