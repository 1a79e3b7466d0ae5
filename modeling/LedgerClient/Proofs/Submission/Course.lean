/-
The courses that a submission may take, with all that is sent on the way.

It fails with nothing sent, because peers or orderer are not known; or after
its one proposal, because the answers do not make a transaction; or it goes on
to its one broadcast. Every run of the four operations that submit takes one
of these courses, as the steps before a submission send nothing.
-/
import LedgerClient.Client.Submission
import LedgerClient.Proofs.Dialogue
import LedgerClient.Proofs.Endorsement
import LedgerClient.Proofs.Proposal

namespace LedgerClient

open Protocol

/-! ## What a log holds -/

/-- Nothing is proposed and nothing is broadcast. -/
def Quiet (log : List Exchange) : Prop := ∀ x ∈ log, x.isPropose = false ∧ x.isBroadcast = false

theorem Quiet.append {before after : List Exchange} (h : Quiet before) (h' : Quiet after) :
    Quiet (before ++ after) := by
  intro x hx
  rcases List.mem_append.1 hx with hx | hx
  · exact h x hx
  · exact h' x hx

theorem Quiet.countP_isPropose {log : List Exchange} (h : Quiet log) : log.countP Exchange.isPropose = 0 := by
  rw [List.countP_eq_zero]
  intro x hx
  rw [(h x hx).1]
  exact Bool.false_ne_true

theorem Quiet.countP_isBroadcast {log : List Exchange} (h : Quiet log) :
    log.countP Exchange.isBroadcast = 0 := by
  rw [List.countP_eq_zero]
  intro x hx
  rw [(h x hx).2]
  exact Bool.false_ne_true

theorem Quiet.not_mem {log : List Exchange} (h : Quiet log) {x : Exchange}
    (hx : x.isPropose = true ∨ x.isBroadcast = true) : x ∉ log := by
  intro hm
  rcases hx with hx | hx
  · rw [(h x hm).1] at hx
    cases hx
  · rw [(h x hm).2] at hx
    cases hx

/-- What is proposed or broadcast comes after what is quiet. -/
theorem Quiet.exists_of_append_eq {quiet tail before after : List Exchange} (h : Quiet quiet) {x : Exchange}
    (hx : x.isPropose = true ∨ x.isBroadcast = true) (he : quiet ++ tail = before ++ x :: after) :
    ∃ between, before = quiet ++ between ∧ tail = between ++ x :: after := by
  rcases List.append_eq_append_iff.1 he with ⟨between, rfl, ht⟩ | ⟨between, hq, ht⟩
  · exact ⟨between, rfl, ht⟩
  · cases between with
    | nil =>
      rw [List.append_nil] at hq
      exact ⟨[], by rw [hq, List.append_nil], ht.symm⟩
    | cons y between =>
      cases ht
      exact absurd (hq ▸ List.mem_append_right before List.mem_cons_self) (h.not_mem hx)

theorem Quiet.of_append_eq_one {quiet before after : List Exchange} (h : Quiet quiet) {a x : Exchange}
    (hx : x.isPropose = true ∨ x.isBroadcast = true) (he : quiet ++ [a] = before ++ x :: after) :
    before = quiet ∧ x = a := by
  obtain ⟨between, rfl, ht⟩ := h.exists_of_append_eq hx he
  cases between with
  | nil =>
    cases ht
    exact ⟨List.append_nil quiet, rfl⟩
  | cons y between => cases between <;> cases ht

theorem Quiet.of_append_eq_two {quiet before after : List Exchange} (h : Quiet quiet) {a b x : Exchange}
    (hx : x.isPropose = true ∨ x.isBroadcast = true) (he : quiet ++ [a, b] = before ++ x :: after) :
    before = quiet ∧ x = a ∨ before = quiet ++ [a] ∧ x = b := by
  obtain ⟨between, rfl, ht⟩ := h.exists_of_append_eq hx he
  cases between with
  | nil =>
    cases ht
    exact .inl ⟨List.append_nil quiet, rfl⟩
  | cons y between =>
    cases between with
    | nil =>
      cases ht
      exact .inr ⟨rfl, rfl⟩
    | cons z between => cases between <;> cases ht

theorem Quiet.mem_append {quiet tail : List Exchange} (h : Quiet quiet) {x : Exchange}
    (hx : x.isPropose = true ∨ x.isBroadcast = true) (hm : x ∈ quiet ++ tail) : x ∈ tail :=
  (List.mem_append.1 hm).resolve_left (h.not_mem hx)

/-- The random numbers that were drawn. -/
def draws (log : List Exchange) : List (Nat → Nat) := log.filterMap Exchange.draw?

theorem draws_append (before after : List Exchange) : draws (before ++ after) = draws before ++ draws after :=
  List.filterMap_append

/-- Only nonces and times were asked for. -/
def OnlyStamps (log : List Exchange) : Prop := ∀ x ∈ log, ∃ answer, x = .stamp answer

theorem OnlyStamps.quiet {log : List Exchange} (h : OnlyStamps log) : Quiet log := by
  intro x hx
  obtain ⟨answer, rfl⟩ := h x hx
  exact ⟨rfl, rfl⟩

theorem OnlyStamps.draws_eq_nil {log : List Exchange} (h : OnlyStamps log) : draws log = [] := by
  refine List.filterMap_eq_nil_iff.2 fun x hx => ?_
  obtain ⟨answer, rfl⟩ := h x hx
  rfl

/-! ## Courses -/

namespace Client

variable {c : Client}

/-- The random numbers decide on peers and on an orderer, all of them known to the client. -/
def Resolved (c : Client) (log : List Exchange) (targets : List Node) (orderer : Node) : Prop :=
  ∃ names draw draw', draws log = [draw, draw'] ∧ c.selector.selectPeers draw = .ok names ∧
    c.peers names = .ok targets ∧ c.orderer draw' = .ok orderer

theorem Resolved.unique {log : List Exchange} {targets targets' : List Node} {orderer orderer' : Node}
    (h : c.Resolved log targets orderer) (h' : c.Resolved log targets' orderer') :
    targets = targets' ∧ orderer = orderer' := by
  obtain ⟨names, draw, draw', hd, hn, ht, ho⟩ := h
  obtain ⟨names', _, _, hd', hn', ht', ho'⟩ := h'
  rw [hd] at hd'
  cases hd'
  rw [hn] at hn'
  cases hn'
  rw [ht] at ht'
  rw [ho] at ho'
  exact ⟨Except.ok.inj ht', Except.ok.inj ho'⟩

theorem resolved_congr {log log' : List Exchange} (h : draws log = draws log') {targets : List Node}
    {orderer : Node} : c.Resolved log targets orderer ↔ c.Resolved log' targets orderer := by
  unfold Resolved
  rw [h]

theorem Resolved.append {before after : List Exchange} {targets : List Node} {orderer : Node}
    (h : c.Resolved before targets orderer) (hd : draws after = []) :
    c.Resolved (before ++ after) targets orderer := by
  refine (resolved_congr ?_).1 h
  rw [draws_append, hd, List.append_nil]

/-- What all of the targets have answered in time is what a transaction can be made of. -/
structure Endorsing (c : Client) (targets : List Node) (dispatches : List Dispatch) (first : ProposalResponse)
    (rest : List ProposalResponse) : Prop where
  answered : Answered c.settings.timeouts.requestLimit targets dispatches (first :: rest)
  endorses : ∀ r ∈ first :: rest, r.Endorses first.payload

/-- How a submission may go. -/
inductive Course (c : Client) : Except ClientError Outcome → List Exchange → Prop where
  | unsent {log} (e : ClientError) (hq : Quiet log) (hr : ∀ targets orderer, ¬ c.Resolved log targets orderer) :
    Course c (.error e) log
  | unendorsed {before targets orderer} (e : ClientError) (p : SignedProposal) (dispatches : List Dispatch)
    (hq : Quiet before) (hr : c.Resolved before targets orderer)
    (hn : ∀ first rest, ¬ c.Endorsing targets dispatches first rest) :
    Course c (.error e) (before ++ [.propose targets p dispatches])
  | sent {before targets orderer request dispatches answers envelope}
    (answer : Except ClientError Acknowledgement)
    (hq : Quiet before) (hr : c.Resolved before targets orderer)
    (hp : c.signer.Proposed request)
    (ha : Answered c.settings.timeouts.requestLimit targets dispatches (answers.map (·.2)))
    (he : assemble c.signer request answers = .ok envelope) :
    Course c (answer >>= Acknowledgement.check >>= fun _ => .ok (outcome request answers))
      (before ++ [.propose targets request.signed dispatches, .broadcast orderer envelope answer])

theorem Course.append_left {result : Except ClientError Outcome} {stamps log : List Exchange}
    (hs : OnlyStamps stamps) (h : c.Course result log) : c.Course result (stamps ++ log) := by
  have hd : ∀ log, draws (stamps ++ log) = draws log := by
    intro log
    rw [draws_append, hs.draws_eq_nil, List.nil_append]
  cases h with
  | unsent e hq hr =>
    refine .unsent e (hs.quiet.append hq) fun targets orderer hresolved => ?_
    exact hr targets orderer ((resolved_congr (hd log)).1 hresolved)
  | unendorsed e p dispatches hq hr hn =>
    rw [← List.append_assoc]
    exact .unendorsed e p dispatches (hs.quiet.append hq) ((resolved_congr (hd _)).2 hr) hn
  | sent answer hq hr hp ha he =>
    rw [← List.append_assoc]
    exact .sent answer (hs.quiet.append hq) ((resolved_congr (hd _)).2 hr) hp ha he

/-- Answers that a transaction can be made of make one. -/
theorem Endorsing.exists_assemble_eq_ok {targets : List Node} {dispatches : List Dispatch}
    {first : ProposalResponse} {rest : List ProposalResponse} (h : c.Endorsing targets dispatches first rest)
    (request : SignedRequest) : ∃ answers envelope,
      PeerAnswer.requireAll (collect c.settings.timeouts.requestLimit (targets.map Node.name) dispatches) =
        .ok answers ∧ assemble c.signer request answers = .ok envelope := by
  obtain ⟨answers, hall⟩ : ∃ answers, PeerAnswer.requireAll
      (collect c.settings.timeouts.requestLimit (targets.map Node.name) dispatches) = .ok answers := by
    refine PeerAnswer.exists_requireAll_eq_ok ?_ fun a ha => ?_
    · intro hnil
      have hl := congrArg List.length hnil
      rw [length_collect, List.length_map, ← h.answered.length_eq] at hl
      cases hl
    · obtain ⟨r, hr, hok⟩ := h.answered.of_mem_collect ha
      exact ⟨r, hok, validateResponse_eq_ok.2 (h.endorses r hr).status⟩
  have hrs : answers.map (·.2) = first :: rest :=
    (answered_of_collect (PeerAnswer.of_requireAll_eq_ok hall).2).unique h.answered
  cases answers with
  | nil => cases hrs
  | cons a others =>
    have ha : a.2 = first := (List.cons.inj hrs).1
    have hendorse : ∀ b ∈ a :: others, b.2.Endorses a.2.payload := by
      intro b hb
      rw [ha]
      exact h.endorses b.2 (hrs ▸ List.mem_map_of_mem hb)
    obtain ⟨envelope, he⟩ := LedgerClient.exists_assemble_eq_ok c.signer request hendorse
    exact ⟨a :: others, envelope, hall, he⟩

theorem quiet_draw (draw : Nat → Nat) : Quiet [.draw draw] := by
  intro x hx
  rw [List.mem_singleton.1 hx]
  exact ⟨rfl, rfl⟩

/-- One draw does not decide on both peers and an orderer. -/
theorem not_resolved_draw (draw : Nat → Nat) (targets : List Node) (orderer : Node) :
    ¬ c.Resolved [.draw draw] targets orderer := by
  rintro ⟨names, _, _, hd, -⟩
  cases hd

/-- Once the peers are selected, a submission takes its course. -/
theorem course_of_submit {request : SignedRequest} {names : List String} {draw : Nat → Nat}
    {result : Except ClientError Outcome} {log : List Exchange} (hp : c.signer.Proposed request)
    (hn : c.selector.selectPeers draw = .ok names) (h : (c.submit request names).Runs result log) :
    c.Course result (.draw draw :: log) := by
  unfold submit at h
  rcases h.of_ofExcept_bind with ⟨e, -, rfl, rfl⟩ | ⟨targets, ht, h1⟩
  · exact .unsent e (quiet_draw draw) (not_resolved_draw draw)
  rcases h1.of_bind with ⟨e, ho, rfl⟩ | ⟨orderer, _, _, ho, h2, rfl⟩
  · obtain ⟨draw', he, rfl⟩ := ho.of_draw_bind
    refine .unsent e ((quiet_draw draw).append (quiet_draw draw')) ?_
    rintro targets' orderer ⟨_, _, _, hd, -, -, ho'⟩
    cases hd
    rw [← he] at ho'
    cases ho'
  obtain ⟨draw', hd, rfl⟩ := ho.of_draw_bind
  have hq : Quiet [.draw draw, .draw draw'] := (quiet_draw draw).append (quiet_draw draw')
  have hr : c.Resolved [.draw draw, .draw draw'] targets orderer :=
    ⟨names, draw, draw', rfl, hn, ht, hd.symm⟩
  rcases h2.of_bind with ⟨e, ha, rfl⟩ | ⟨collected, _, _, ha, h3, rfl⟩
  · obtain ⟨dispatches, he, -⟩ := ha.of_propose
    cases he
  obtain ⟨dispatches, hc, rfl⟩ := ha.of_propose
  cases hc
  rcases h3.of_ofExcept_bind with ⟨e, he, rfl, rfl⟩ | ⟨answers, hall, h4⟩
  · refine .unendorsed e request.signed dispatches hq hr fun first rest hend => ?_
    obtain ⟨answers, envelope, hall, -⟩ := hend.exists_assemble_eq_ok request
    rw [hall] at he
    cases he
  rcases h4.of_ofExcept_bind with ⟨e, he, rfl, rfl⟩ | ⟨envelope, he, h5⟩
  · refine .unendorsed e request.signed dispatches hq hr fun first rest hend => ?_
    obtain ⟨answers', envelope, hall', he'⟩ := hend.exists_assemble_eq_ok request
    rw [hall] at hall'
    cases hall'
    rw [he] at he'
    cases he'
  have hanswered : Answered c.settings.timeouts.requestLimit targets dispatches (answers.map (·.2)) :=
    answered_of_collect (PeerAnswer.of_requireAll_eq_ok hall).2
  obtain ⟨answer, rfl, rfl⟩ := h5.of_broadcast_pure
  exact .sent answer hq hr hp hanswered he

/-- Every run of the operation is a submission. -/
def Submits (c : Client) (x : Operation Outcome) : Prop :=
  ∀ result log, x.Runs result log → c.Course result log

/-- Before it submits, an operation asks for nonces and times at most. -/
theorem Submits.bind {α : Type} {x : Operation α} {f : α → Operation Outcome}
    (hx : ∀ result log, x.Runs result log → OnlyStamps log)
    (hf : ∀ a log, x.Runs (.ok a) log → c.Submits (f a)) : c.Submits (x >>= f) := by
  intro result log h
  rcases h.of_bind with ⟨e, h1, rfl⟩ | ⟨a, before, after, h1, h2, rfl⟩
  · refine .unsent e (hx _ _ h1).quiet ?_
    rintro targets orderer ⟨_, _, _, hd, -⟩
    rw [(hx _ _ h1).draws_eq_nil] at hd
    cases hd
  · exact (hf a before h1 _ _ h2).append_left (hx _ _ h1)

theorem Submits.ofExcept_bind {α : Type} {x : Except ClientError α} {f : α → Operation Outcome}
    (hf : ∀ a, x = .ok a → c.Submits (f a)) : c.Submits (Operation.ofExcept x >>= f) := by
  refine .bind ?_ ?_
  · intro result log h
    rw [h.of_ofExcept.2]
    exact nofun
  · intro a log h
    exact hf a h.of_ofExcept.1.symm

theorem Submits.stamp_bind {f : Stamp → Operation Outcome} (hf : ∀ stamp, c.Submits (f stamp)) :
    c.Submits (Operation.stamp >>= f) := by
  refine .bind ?_ fun stamp _ _ => hf stamp
  intro result log h
  obtain ⟨answer, -, rfl⟩ := h.of_stamp
  intro x hx
  exact ⟨answer, List.mem_singleton.1 hx⟩

/-- Whatever a signer proposes is submitted to the selected peers. -/
theorem submits_submit {request : SignedRequest} (hp : c.signer.Proposed request) :
    c.Submits (c.selectPeers >>= c.submit request) := by
  intro result log h
  rcases h.of_bind with ⟨e, hs, rfl⟩ | ⟨names, _, _, hs, h', rfl⟩
  · obtain ⟨draw, -, rfl⟩ := hs.of_draw_bind
    exact .unsent e (quiet_draw draw) (not_resolved_draw draw)
  · obtain ⟨draw, hn, rfl⟩ := hs.of_draw_bind
    exact course_of_submit hp hn.symm h'

/-! ## The operations that submit -/

theorem submits_invoke (r : ChaincodeRequest) : c.Submits (c.invoke r) := by
  refine .ofExcept_bind fun r _ => .stamp_bind fun stamp => submits_submit ?_
  exact Purpose.proposed (.invocation r) rfl

theorem submits_instantiateChaincode (r : ChaincodeRequest) (operation : String) (policy : Option String)
    (collections : Option Bytes) : c.Submits (c.instantiateChaincode r operation policy collections) := by
  refine .ofExcept_bind fun r _ => .stamp_bind fun stamp => .ofExcept_bind fun request h => ?_
  exact submits_submit (Purpose.proposed (.instantiation r operation policy collections) h)

theorem submits_approveForMyOrganization (channelId : String) (d : ChaincodeDefinition) (packageId : String) :
    c.Submits (c.approveForMyOrganization channelId d packageId) := by
  refine .ofExcept_bind fun channelId _ => .stamp_bind fun stamp => .ofExcept_bind fun request h => ?_
  exact submits_submit (Purpose.proposed (.approval channelId d packageId) h)

theorem submits_commitChaincodeDefinition (channelId : String) (d : ChaincodeDefinition) :
    c.Submits (c.commitChaincodeDefinition channelId d) := by
  refine .ofExcept_bind fun channelId _ => .stamp_bind fun stamp => .ofExcept_bind fun request h => ?_
  exact submits_submit (Purpose.proposed (.commit channelId d) h)

end Client

end LedgerClient
