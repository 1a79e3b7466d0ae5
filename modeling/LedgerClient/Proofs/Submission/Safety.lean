/-
Submission is safe: what is sent on the way to a transaction, and when.

`SafeSubmission` says how the end of a submission and what was exchanged go
together; it is read off each of the three courses (`Course.safe`).
-/
import LedgerClient.Proofs.Submission.Course

namespace LedgerClient.Client

open Protocol

variable {c : Client}

/-- An envelope for an orderer that is made of what the selected peers have answered to a proposal:
all of them, in time, and with one payload, that of the first. -/
structure Endorsed (c : Client) (before : List Exchange) (orderer : Node) (envelope : Envelope)
    (request : SignedRequest) (first : ProposalResponse) : Prop where
  proposed : c.signer.Proposed request
  answered : ∃ targets dispatches rest endorsements,
    c.Resolved before targets orderer ∧ .propose targets request.signed dispatches ∈ before ∧
    c.Endorsing targets dispatches first rest ∧
    (first :: rest).map (·.endorsement) = endorsements.map some ∧
    envelope = c.signer.envelope request first.payload endorsements

/-- How the end of a submission and what was exchanged during it go together. -/
structure SafeSubmission (c : Client) (result : Except ClientError Outcome) (log : List Exchange) : Prop where
  /-- Nothing is proposed before all the peers it goes to are known, and the orderer. -/
  resolved : ∀ before targets p dispatches after, log = before ++ .propose targets p dispatches :: after →
    ∃ orderer, c.Resolved before targets orderer
  /-- Once they are, something is. -/
  proposed : ∀ targets orderer, c.Resolved log targets orderer →
    ∃ p dispatches, .propose targets p dispatches ∈ log
  propose_le_one : log.countP Exchange.isPropose ≤ 1
  broadcast_le_one : log.countP Exchange.isBroadcast ≤ 1
  /-- Nothing is broadcast but what all the selected peers have endorsed. -/
  endorsed : ∀ before orderer envelope answer after,
    log = before ++ .broadcast orderer envelope answer :: after →
    ∃ request first, c.Endorsed before orderer envelope request first
  /-- Once they have, something is. -/
  broadcast : ∀ targets p dispatches first rest, .propose targets p dispatches ∈ log →
    c.Endorsing targets dispatches first rest →
    ∃ orderer envelope answer, .broadcast orderer envelope answer ∈ log
  isOk_iff : (∃ o, result = .ok o) ↔
    ∃ orderer envelope a, .broadcast orderer envelope (.ok a) ∈ log ∧ a.status = Status.success.code
  /-- A success tells of the envelope that was broadcast and of the first peer's answer. -/
  outcome : ∀ o, result = .ok o → ∃ before orderer envelope answer after request first inner,
    log = before ++ .broadcast orderer envelope answer :: after ∧
    c.Endorsed before orderer envelope request first ∧ envelope.HasTxId o.txId ∧
    first.response = some inner ∧ o.status = inner.status ∧ o.payload = inner.payload
  /-- Why a broadcast failed is why the submission does. -/
  failed : ∀ orderer envelope e, .broadcast orderer envelope (.error e) ∈ log → result = .error e
  rejected : ∀ orderer envelope a, .broadcast orderer envelope (.ok a) ∈ log → a.status ≠ Status.success.code →
    result = .error (.broadcastRejected a.status a.info)

theorem SafeSubmission.of_quiet {e : ClientError} {log : List Exchange} (hq : Quiet log)
    (hr : ∀ targets orderer, ¬ c.Resolved log targets orderer) : c.SafeSubmission (.error e) log := by
  constructor
  case resolved =>
    rintro before targets p dispatches after rfl
    exact absurd (List.mem_append_right before List.mem_cons_self) (hq.not_mem (.inl rfl))
  case proposed => exact fun targets orderer h => absurd h (hr targets orderer)
  case propose_le_one =>
    rw [hq.countP_isPropose]
    exact Nat.zero_le 1
  case broadcast_le_one =>
    rw [hq.countP_isBroadcast]
    exact Nat.zero_le 1
  case endorsed =>
    rintro before orderer envelope answer after rfl
    exact absurd (List.mem_append_right before List.mem_cons_self) (hq.not_mem (.inr rfl))
  case broadcast => exact fun _ _ _ _ _ hm => absurd hm (hq.not_mem (.inl rfl))
  case isOk_iff =>
    constructor
    · rintro ⟨o, ⟨⟩⟩
    · rintro ⟨orderer, envelope, a, hm, -⟩
      exact absurd hm (hq.not_mem (.inr rfl))
  case outcome => exact nofun
  case failed => exact fun _ _ _ hm => absurd hm (hq.not_mem (.inr rfl))
  case rejected => exact fun _ _ _ hm => absurd hm (hq.not_mem (.inr rfl))

theorem SafeSubmission.of_proposal {e : ClientError} {before : List Exchange} {targets : List Node}
    {orderer : Node} (p : SignedProposal) (dispatches : List Dispatch) (hq : Quiet before)
    (hr : c.Resolved before targets orderer) (hn : ∀ first rest, ¬ c.Endorsing targets dispatches first rest) :
    c.SafeSubmission (.error e) (before ++ [.propose targets p dispatches]) := by
  have hno : ∀ orderer envelope answer,
      .broadcast orderer envelope answer ∉ before ++ [.propose targets p dispatches] := by
    intro orderer envelope answer hm
    cases List.mem_singleton.1 (hq.mem_append (.inr rfl) hm)
  have hr' : c.Resolved (before ++ [.propose targets p dispatches]) targets orderer := hr.append rfl
  constructor
  case resolved =>
    intro before' targets' p' dispatches' after he
    obtain ⟨rfl, hx⟩ := hq.of_append_eq_one (.inl rfl) he
    cases hx
    exact ⟨orderer, hr⟩
  case proposed =>
    intro targets' orderer' h
    obtain ⟨rfl, -⟩ := hr'.unique h
    exact ⟨p, dispatches, List.mem_append_right before List.mem_cons_self⟩
  case propose_le_one =>
    rw [List.countP_append, hq.countP_isPropose, Nat.zero_add]
    exact List.countP_le_length
  case broadcast_le_one =>
    rw [List.countP_append, hq.countP_isBroadcast, Nat.zero_add]
    exact List.countP_le_length
  case endorsed =>
    intro before' orderer envelope answer after he
    refine absurd ?_ (hno orderer envelope answer)
    rw [he]
    exact List.mem_append_right before' List.mem_cons_self
  case broadcast =>
    intro targets' p' dispatches' first rest hm hend
    cases List.mem_singleton.1 (hq.mem_append (.inl rfl) hm)
    exact absurd hend (hn first rest)
  case isOk_iff =>
    constructor
    · rintro ⟨o, ⟨⟩⟩
    · rintro ⟨orderer, envelope, a, hm, -⟩
      exact absurd hm (hno _ _ _)
  case outcome => exact nofun
  case failed => exact fun _ _ _ hm => absurd hm (hno _ _ _)
  case rejected => exact fun _ _ _ hm => absurd hm (hno _ _ _)

/-- The part of a course that ends in a broadcast. -/
theorem endorsed_of_assemble {before : List Exchange} {targets : List Node} {orderer : Node}
    {request : SignedRequest} {dispatches : List Dispatch} {answers : List (String × ProposalResponse)}
    {envelope : Envelope} (hr : c.Resolved before targets orderer) (hp : c.signer.Proposed request)
    (ha : Answered c.settings.timeouts.requestLimit targets dispatches (answers.map (·.2)))
    (hassemble : assemble c.signer request answers = .ok envelope) :
    ∃ first, c.Endorsed (before ++ [.propose targets request.signed dispatches]) orderer envelope request first ∧
      (answers.head?.map (·.2)) = some first ∧ envelope.HasTxId request.txId.id := by
  obtain ⟨first, endorsements, hfirst, hendorse, hmap, rfl⟩ := of_assemble_eq_ok hassemble
  obtain ⟨rest, rfl⟩ := List.head?_eq_some_iff.1 hfirst
  refine ⟨first.2, ⟨hp, targets, dispatches, rest.map Prod.snd, endorsements, ?_, ?_, ⟨ha, ?_⟩, ?_, rfl⟩, rfl, ?_⟩
  · exact hr.append rfl
  · exact List.mem_append_right before List.mem_cons_self
  · rw [← List.map_cons, List.forall_mem_map]
    exact hendorse
  · rw [← hmap, ← List.map_cons, List.map_map]
    rfl
  · exact hp.hasTxId c.signer first.2.payload endorsements

theorem SafeSubmission.of_broadcast {before : List Exchange} {targets : List Node} {orderer : Node}
    {request : SignedRequest} {dispatches : List Dispatch} {answers : List (String × ProposalResponse)}
    {envelope : Envelope} (answer : Except ClientError Acknowledgement)
    (hq : Quiet before) (hr : c.Resolved before targets orderer) (hp : c.signer.Proposed request)
    (ha : Answered c.settings.timeouts.requestLimit targets dispatches (answers.map (·.2)))
    (hassemble : assemble c.signer request answers = .ok envelope) :
    c.SafeSubmission (answer >>= Acknowledgement.check >>= fun _ => .ok (Client.outcome request answers))
      (before ++ [.propose targets request.signed dispatches, .broadcast orderer envelope answer]) := by
  obtain ⟨first, hend, hfirst, htx⟩ := endorsed_of_assemble hr hp ha hassemble
  have hmem : .broadcast orderer envelope answer ∈
      before ++ [.propose targets request.signed dispatches, .broadcast orderer envelope answer] :=
    List.mem_append_right before (List.mem_cons_of_mem _ List.mem_cons_self)
  have hb : ∀ orderer' envelope' answer', .broadcast orderer' envelope' answer' ∈
      before ++ [.propose targets request.signed dispatches, .broadcast orderer envelope answer] →
        answer' = answer := by
    intro orderer' envelope' answer' hm
    rcases List.mem_cons.1 (hq.mem_append (.inr rfl) hm) with hx | hm
    · cases hx
    · cases List.mem_singleton.1 hm
      rfl
  constructor
  case resolved =>
    intro before' targets' p' dispatches' after he
    rcases hq.of_append_eq_two (.inl rfl) he with ⟨rfl, hx⟩ | ⟨-, hx⟩
    · cases hx
      exact ⟨orderer, hr⟩
    · cases hx
  case proposed =>
    intro targets' orderer' h
    obtain ⟨rfl, -⟩ := Resolved.unique (hr.append rfl) h
    exact ⟨request.signed, dispatches, List.mem_append_right before List.mem_cons_self⟩
  case propose_le_one =>
    rw [List.countP_append, hq.countP_isPropose]
    exact Nat.le_refl 1
  case broadcast_le_one =>
    rw [List.countP_append, hq.countP_isBroadcast]
    exact Nat.le_refl 1
  case endorsed =>
    intro before' orderer' envelope' answer' after he
    rcases hq.of_append_eq_two (.inr rfl) he with ⟨-, hx⟩ | ⟨rfl, hx⟩
    · cases hx
    · cases hx
      exact ⟨request, first, hend⟩
  case broadcast => exact fun _ _ _ _ _ _ _ => ⟨orderer, envelope, answer, hmem⟩
  case isOk_iff =>
    constructor
    · rintro ⟨o, ho⟩
      obtain ⟨⟨⟩, hcheck, -⟩ := exists_of_bind_eq_ok ho
      obtain ⟨a, rfl, hcheck⟩ := exists_of_bind_eq_ok hcheck
      exact ⟨orderer, envelope, a, hmem, Acknowledgement.of_check_eq_ok hcheck⟩
    · rintro ⟨orderer', envelope', a, hm, hs⟩
      cases hb _ _ _ hm
      refine ⟨Client.outcome request answers, ?_⟩
      show (a.check >>= fun _ => _) = _
      rw [Acknowledgement.check, if_pos hs]
      rfl
  case outcome =>
    intro o ho
    obtain ⟨-, -, ho⟩ := exists_of_bind_eq_ok ho
    cases ho
    obtain ⟨targets, dispatches, rest, endorsements, -, -, hendorsing, -⟩ := hend.answered
    obtain ⟨inner, hinner, -⟩ := (hendorsing.endorses first List.mem_cons_self).status
    have hresponse : (answers.head?.bind (·.2.response)).getD {} = inner := by
      obtain ⟨a, ha, rfl⟩ := Option.map_eq_some_iff.1 hfirst
      rw [ha, Option.bind_some, hinner, Option.getD_some]
    refine ⟨_, orderer, envelope, answer, [], request, first, inner, ?_, hend, htx, hinner, ?_, ?_⟩
    · rw [List.append_assoc]
      rfl
    · exact congrArg Response.status hresponse
    · exact congrArg Response.payload hresponse
  case failed =>
    intro orderer' envelope' e hm
    cases hb _ _ _ hm
    rfl
  case rejected =>
    intro orderer' envelope' a hm hs
    cases hb _ _ _ hm
    show (a.check >>= fun _ => _) = _
    rw [Acknowledgement.check, if_neg hs]
    rfl

/-- Whatever course it takes, a submission is safe. -/
theorem Course.safe {result : Except ClientError Outcome} {log : List Exchange} (h : c.Course result log) :
    c.SafeSubmission result log := by
  cases h with
  | unsent e hq hr => exact .of_quiet hq hr
  | unendorsed e p dispatches hq hr hn => exact .of_proposal p dispatches hq hr hn
  | sent answer hq hr hp ha he => exact .of_broadcast answer hq hr hp ha he

/-- The operation is a safe submission, whatever the world answers and in whatever state it is. -/
def SubmitsSafely (c : Client) (x : Operation Outcome) : Prop :=
  ∀ {σ : Type} (w : World σ) (s : σ), c.SafeSubmission (x.result w s) (x.transcript w s)

theorem Submits.safely {x : Operation Outcome} (h : c.Submits x) : c.SubmitsSafely x := by
  intro σ w s
  exact (h _ _ (x.runs_transcript w s)).safe

/-- **Submission safety.** Calling a chaincode, starting one, approving a definition and putting it
into force: each of them, with every argument, sends nothing before it knows where to send it,
orders at most one transaction and none but what every selected peer has endorsed, and succeeds
exactly where the orderer has accepted it. -/
theorem submits_safely (c : Client) :
    (∀ r, c.SubmitsSafely (c.invoke r)) ∧
    (∀ r operation policy collections, c.SubmitsSafely (c.instantiateChaincode r operation policy collections)) ∧
    (∀ channelId d packageId, c.SubmitsSafely (c.approveForMyOrganization channelId d packageId)) ∧
    (∀ channelId d, c.SubmitsSafely (c.commitChaincodeDefinition channelId d)) := by
  refine ⟨?_, ?_, ?_, ?_⟩
  · intro r
    exact (submits_invoke r).safely
  · intro r operation policy collections
    exact (submits_instantiateChaincode r operation policy collections).safely
  · intro channelId d packageId
    exact (submits_approveForMyOrganization channelId d packageId).safely
  · intro channelId d
    exact (submits_commitChaincodeDefinition channelId d).safely

end LedgerClient.Client
