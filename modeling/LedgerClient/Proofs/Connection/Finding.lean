/-
Steps that look up no node.

None of the steps between the look-ups of an operation fails for a node that is
not found (`Finds`): not the building of a proposal, not the reading of what
peers answer, and not the selection of targets. What is selected is one of the
candidates (`Selector.exists_of_mem_selectPeers`), which is all that a look-up
has to rely on.
-/
import LedgerClient.Ledger
import LedgerClient.Proofs.Connection.Failures
import LedgerClient.Proofs.Proposal.Content
import LedgerClient.Selector
import LedgerClient.Transaction

namespace LedgerClient

open Protocol

/-! ## Steps that look nothing up -/

/-- It does not fail for a node that is not found. -/
abbrev Finds {α : Type} (x : Except ClientError α) : Prop := Confined (fun e => ¬ e.IsLookup) x

/-- Over a network, it does not fail for a node that is not found. -/
abbrev Operation.Finds {α : Type} (x : Operation α) : Prop := x.Confined fun e => ¬ e.IsLookup

theorem finds_ofDecode {α : Type} (x : Except DecodeError α) : Finds (ClientError.ofDecode x) :=
  .mapError fun _ _ => id

theorem finds_ofPolicy {α : Type} (x : Except Policy.Fault α) : Finds (ClientError.ofPolicy x) :=
  .mapError fun _ _ => id

theorem finds_validateResponse (peer : String) (r : ProposalResponse) : Finds (validateResponse peer r) := by
  unfold validateResponse
  split
  next => exact .error id
  next =>
    split
    next => exact .ok ()
    next => exact .error id

namespace PeerAnswer

theorem finds_checked {a : PeerAnswer} (ha : ∀ e, a.result = .error e → e.IsNetwork) : Finds a.checked := by
  refine .bind (fun e he => (ha e he).not_isLookup) fun r _ => ?_
  exact .bind (finds_validateResponse a.peer r) fun _ _ => .ok _

variable {answers : List PeerAnswer} (h : ∀ a ∈ answers, ∀ e, a.result = .error e → e.IsNetwork)

include h

theorem finds_requireAll : Finds (requireAll answers) := by
  unfold requireAll
  split
  next => exact .error id
  next => exact .mapM fun a ha => .mapError fun e he => finds_checked (h a ha) e he

theorem finds_requireFirst : Finds (requireFirst answers) := by
  unfold requireFirst
  split
  next => exact .error id
  next a rest => exact finds_checked (h a List.mem_cons_self)

end PeerAnswer

theorem finds_endorsementOf (first : String × ProposalResponse) (peer : String) (r : ProposalResponse) :
    Finds (endorsementOf first peer r) := by
  refine .bind (finds_validateResponse peer r) fun _ _ => ?_
  by_cases hp : r.payload ≠ first.2.payload
  · simp only [if_pos hp]
    exact .error id
  · simp only [if_neg hp]
    split
    next => exact .ok _
    next => exact .error id

theorem finds_assemble (s : Signer) (request : SignedRequest) (answers : List (String × ProposalResponse)) :
    Finds (assemble s request answers) := by
  unfold assemble
  split
  next => exact .error id
  next first rest =>
    exact .bind (.mapM fun answer _ => finds_endorsementOf first answer.1 answer.2) fun _ _ => .ok _

theorem ChaincodeDefinition.finds_toArgs (d : ChaincodeDefinition) : Finds d.toArgs := by
  refine .bind ?_ fun _ _ => .ok _
  unfold validationParameter
  split
  next => exact .ok []
  next => exact .bind (finds_ofPolicy _) fun _ _ => .ok _

theorem finds_chosenPolicy (mspId : String) (text : Option String) : Finds (chosenPolicy mspId text) := by
  cases text with
  | none => exact .ok _
  | some text =>
    rw [chosenPolicy]
    split
    next => exact .ok _
    next => exact finds_ofPolicy _

theorem Signer.finds_proposeInstantiation (s : Signer) (stamp : Stamp) (r : ChaincodeRequest)
    (operation : String) (policy : Option String) (collections : Option Bytes) :
    Finds (s.proposeInstantiation stamp r operation policy collections) := by
  rw [proposeInstantiation_eq]
  split
  next => exact .bind (finds_chosenPolicy s.mspId policy) fun _ _ => .ok _
  next => exact .error id

namespace Ledger

variable (peer : String) (r : ProposalResponse)

theorem finds_payload : Finds (payload peer r) := .bind (finds_validateResponse peer r) fun _ _ => .ok _

theorem finds_block : Finds (block peer r) := .bind (finds_payload peer r) fun _ _ => finds_ofDecode _

theorem finds_height : Finds (height peer r) :=
  .bind (finds_payload peer r) fun _ _ => .bind (finds_ofDecode _) fun _ _ => .ok _

theorem finds_filteredBlock : Finds (filteredBlock peer r) :=
  .bind (finds_block peer r) fun _ _ => finds_ofDecode _

theorem finds_transactionTime (txId : String) : Finds (transactionTime peer r txId) :=
  .bind (finds_block peer r) fun _ _ => .ok _

end Ledger

/-! ## Selection -/

theorem mem_of_choose? {α : Type} {number : Nat} {xs : List α} {x : α} (h : choose? number xs = some x) :
    x ∈ xs := List.mem_of_getElem? h

theorem exists_choose?_eq_some {α : Type} {xs : List α} (h : xs ≠ []) (number : Nat) :
    ∃ x, choose? number xs = some x :=
  ⟨_, List.getElem?_eq_getElem (Nat.mod_lt number (List.length_pos_iff.2 h))⟩

namespace Selector

variable {s : Selector} {draw : Nat → Nat} {names : List String}

theorem mem_of_mem_peersOf {organizations : List String} {p : PeerEntry} (h : p ∈ s.peersOf organizations) :
    p ∈ s.peers := (List.mem_filter.1 h).1

theorem exists_of_pickFrom {number : Nat} {organization name : String}
    (h : s.pickFrom number organization = .ok name) : ∃ p ∈ s.peers, p.name = name := by
  unfold pickFrom at h
  split at h
  next p hp =>
    cases h
    exact ⟨p, mem_of_mem_peersOf (mem_of_choose? hp), rfl⟩
  next => cases h

/-- Those that the rule has endorse, none of them perhaps. -/
def candidates (s : Selector) (draw : Nat → Nat) : Except ClientError (List String) :=
  match s.rule with
  | .all => .ok (s.peers.map (·.name))
  | .and organizations => organizations.zipIdx.mapM fun (o, i) => s.pickFrom (draw i) o
  | .or organizations => .ok ((choose? (draw 0) (s.peersOf organizations)).map (·.name)).toList

theorem selectPeers_eq (s : Selector) (draw : Nat → Nat) : s.selectPeers draw =
    s.candidates draw >>= fun names => if names.isEmpty then .error .noPeersConfigured else .ok names := by
  unfold selectPeers candidates
  cases s.rule <;> rfl

theorem exists_of_mem_candidates (h : s.candidates draw = .ok names) {name : String} (hn : name ∈ names) :
    ∃ p ∈ s.peers, p.name = name := by
  unfold candidates at h
  split at h
  next =>
    cases h
    exact List.mem_map.1 hn
  next organizations =>
    obtain ⟨i, hi, rfl⟩ := List.mem_iff_getElem.1 hn
    have hpicked := List.forall₂_iff_get.1 (mapM_eq_ok_iff.1 h)
    exact exists_of_pickFrom (hpicked.2 i (hpicked.1 ▸ hi) hi)
  next organizations =>
    cases h
    obtain ⟨p, hp, rfl⟩ := Option.map_eq_some_iff.1 (Option.mem_toList.1 hn)
    exact ⟨p, mem_of_mem_peersOf (mem_of_choose? hp), rfl⟩

/-- Whoever is selected is one of the peers. -/
theorem exists_of_mem_selectPeers (h : s.selectPeers draw = .ok names) {name : String} (hn : name ∈ names) :
    ∃ p ∈ s.peers, p.name = name := by
  rw [selectPeers_eq] at h
  obtain ⟨candidates, hcandidates, h⟩ := exists_of_bind_eq_ok h
  split at h
  next => cases h
  next =>
    cases h
    exact exists_of_mem_candidates hcandidates hn

theorem exists_of_selectFirstPeer {name : String} (h : s.selectFirstPeer draw = .ok name) :
    ∃ p ∈ s.peers, p.name = name := by
  obtain ⟨names, hnames, h⟩ := exists_of_bind_eq_ok h
  split at h
  next name' rest =>
    cases h
    exact exists_of_mem_selectPeers hnames List.mem_cons_self
  next => cases h

theorem finds_pickFrom (s : Selector) (number : Nat) (organization : String) :
    Finds (s.pickFrom number organization) := by
  unfold pickFrom
  split
  next => exact .ok _
  next => exact .error id

theorem finds_selectPeers (s : Selector) (draw : Nat → Nat) : Finds (s.selectPeers draw) := by
  rw [selectPeers_eq]
  refine .bind ?_ fun names _ => ?_
  · unfold candidates
    split
    next => exact .ok _
    next => exact .mapM fun x _ => finds_pickFrom s (draw x.2) x.1
    next => exact .ok _
  · split
    next => exact .error id
    next => exact .ok _

theorem finds_selectFirstPeer (s : Selector) (draw : Nat → Nat) : Finds (s.selectFirstPeer draw) := by
  refine .bind (finds_selectPeers s draw) fun names _ => ?_
  split
  next => exact .ok _
  next => exact .error id

end Selector

end LedgerClient
