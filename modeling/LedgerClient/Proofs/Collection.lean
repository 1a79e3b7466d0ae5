/-
The order in which dispatches end does not matter, and who is blamed has failed.

Each dispatch fills one slot, so any order of the same ends leaves the same
slots (`fillSlots_perm`), and what is collected is what each dispatch came to
(`Dispatch.Yields`), by the order of the targets. Requirements then look at the
answers in that order: the first that does not count is to blame
(`PeerAnswer.requireAll_eq_error_iff`).
-/
import LedgerClient.Proofs.Endorsement
import LedgerClient.Proofs.Transaction
import Mathlib.Data.List.Basic

namespace LedgerClient

open Protocol

variable {limit : Duration} {targets : List String} {dispatches : List Dispatch} {order : List Nat}

/-! ## Ends in any order -/

/-- What is noted when the dispatches end in a given order, each of them named by its place. -/
def notedIn (limit : Duration) (dispatches : List Dispatch) (order : List Nat) :
    List (Nat × Except ClientError ProposalResponse) :=
  order.filterMap fun i => (dispatches[i]?.bind (Dispatch.noted limit)).map (i, ·)

/-- The answers to a proposal whose dispatches end in a given order. -/
def collectIn (limit : Duration) (targets : List String) (dispatches : List Dispatch) (order : List Nat) :
    List PeerAnswer :=
  gather targets (notedIn limit dispatches order)

theorem noted_eq_notedIn_range :
    (dispatches.zipIdx.filterMap fun (d, i) => (d.noted limit).map (i, ·)) =
      notedIn limit dispatches (List.range dispatches.length) := by
  have hplaces : List.range dispatches.length = dispatches.zipIdx.map (·.2) := by
    rw [List.zipIdx_map_snd, List.range_eq_range']
  rw [notedIn, hplaces, List.filterMap_map]
  refine List.filterMap_congr fun p hp => ?_
  simp only [Function.comp_apply, List.mem_zipIdx_iff_getElem?.1 hp, Option.bind_some]

theorem fillSlots_perm {n : Nat} {ended ended' : List (Nat × Except ClientError ProposalResponse)}
    (hp : ended.Perm ended') (hn : (ended.map (·.1)).Nodup) : fillSlots n ended = fillSlots n ended' := by
  refine List.ext_getElem? fun i => ?_
  by_cases hi : i < n
  · by_cases hm : i ∈ ended.map (·.1)
    · obtain ⟨⟨_, r⟩, hr, rfl⟩ := List.mem_map.1 hm
      have hn' : (ended'.map (·.1)).Nodup := (hp.map _).nodup_iff.1 hn
      rw [getElem?_fillSlots hn hr hi, getElem?_fillSlots hn' (hp.subset hr) hi]
    · have hm' : i ∉ ended'.map (·.1) := fun h => hm ((hp.map _).symm.subset h)
      rw [getElem?_fillSlots_of_not_mem hm hi, getElem?_fillSlots_of_not_mem hm' hi]
  · rw [List.getElem?_eq_none (by rw [length_fillSlots]; omega),
      List.getElem?_eq_none (by rw [length_fillSlots]; omega)]

/-- Whatever the order, the answers are those that the dispatches give when they end one after another. -/
theorem collectIn_eq_collect (horder : order.Perm (List.range dispatches.length)) :
    collectIn limit targets dispatches order = collect limit targets dispatches := by
  have hperm : (notedIn limit dispatches (List.range dispatches.length)).Perm (notedIn limit dispatches order) :=
    horder.symm.filterMap _
  have hnodup := nodup_noted limit dispatches
  rw [noted_eq_notedIn_range] at hnodup
  rw [collectIn, collect, noted_eq_notedIn_range, gather, gather, fillSlots_perm hperm hnodup]

/-! ## What a dispatch comes to -/

/-- What a dispatch comes to: what the peer gave in time, and otherwise an error of transport. -/
inductive Dispatch.Yields (limit : Duration) : Dispatch → Except ClientError ProposalResponse → Prop
  | answered {after : Duration} {result : Except ClientError ProposalResponse} (h : after ≤ limit) :
      Yields limit (.answered after result) result
  | aborted {after : Duration} (h : after ≤ limit) :
      Yields limit (.aborted after) (.error (.transport "endorsement task aborted"))
  | answeredLate {after : Duration} {result : Except ClientError ProposalResponse} (h : ¬ after ≤ limit) :
      Yields limit (.answered after result) (.error (.transport s!"no response within {limit.describe}"))
  | abortedLate {after : Duration} (h : ¬ after ≤ limit) :
      Yields limit (.aborted after) (.error (.transport s!"no response within {limit.describe}"))
  | silent : Yields limit .silent (.error (.transport s!"no response within {limit.describe}"))

theorem Dispatch.yields_iff {d : Dispatch} {r : Except ClientError ProposalResponse} :
    d.Yields limit r ↔ (d.noted limit).getD (.error (.transport "endorsement task aborted")) = r := by
  constructor
  · rintro (h | h | h | h | _)
    · simp only [noted, if_pos h, Option.getD_some]
    · simp only [noted, if_pos h, Option.getD_none]
    · simp only [noted, noted.late, if_neg h, Option.getD_some]
    · simp only [noted, noted.late, if_neg h, Option.getD_some]
    · rfl
  · rintro rfl
    cases d with
    | answered after result =>
      by_cases h : after ≤ limit
      · simp only [noted, if_pos h, Option.getD_some]
        exact .answered h
      · simp only [noted, noted.late, if_neg h, Option.getD_some]
        exact .answeredLate h
    | aborted after =>
      by_cases h : after ≤ limit
      · simp only [noted, if_pos h, Option.getD_none]
        exact .aborted h
      · simp only [noted, noted.late, if_neg h, Option.getD_some]
        exact .abortedLate h
    | silent => exact .silent

/-- One answer a target, in the order of the targets, each with what its own dispatch came to. -/
structure InTargetOrder (limit : Duration) (targets : List String) (dispatches : List Dispatch)
    (answers : List PeerAnswer) : Prop where
  peers : answers.map (·.peer) = targets
  results : List.Forall₂ (fun d a => d.Yields limit a.result) dispatches answers

theorem inTargetOrder_collect (hlength : dispatches.length = targets.length) :
    InTargetOrder limit targets dispatches (collect limit targets dispatches) := by
  constructor
  · refine List.ext_getElem? fun i => ?_
    rw [List.getElem?_map, getElem?_collect, Option.map_map]
    exact Option.map_id'
  · refine List.forall₂_iff_get.2 ⟨by rw [hlength, length_collect], fun i hi hi' => ?_⟩
    have ha := List.getElem?_eq_getElem hi'
    rw [getElem?_collect, List.getElem?_eq_getElem hi, Option.bind_some] at ha
    obtain ⟨peer, -, ha⟩ := Option.map_eq_some_iff.1 ha
    exact Dispatch.yields_iff.2 (congrArg PeerAnswer.result ha)

/-! ## Answers that count and answers that do not -/

namespace PeerAnswer

/-- The answer holds a success of the chaincode. -/
inductive Counts : PeerAnswer → String × ProposalResponse → Prop
  | success {peer : String} {r : ProposalResponse} {inner : Response} (h : r.response = some inner)
      (hs : inner.status = 200) : Counts ⟨peer, .ok r⟩ (peer, r)

/-- Why the answer does not count: there is none, or none of the chaincode in it, or no success. -/
inductive Fails : PeerAnswer → ClientError → Prop
  | unreached {peer : String} {source : ClientError} : Fails ⟨peer, .error source⟩ source
  | unanswered {peer : String} {r : ProposalResponse} (h : r.response = none) :
      Fails ⟨peer, .ok r⟩ (.proposalRejected peer 0 "response carries no chaincode response")
  | refused {peer : String} {r : ProposalResponse} {inner : Response} (h : r.response = some inner)
      (hs : inner.status ≠ 200) : Fails ⟨peer, .ok r⟩ (.proposalRejected peer inner.status inner.message)

variable {a : PeerAnswer} {answers answers' : List PeerAnswer} {x : String × ProposalResponse}
  {xs : List (String × ProposalResponse)} {e : ClientError}

theorem checked_eq_ok_iff : a.checked = .ok x ↔ a.Counts x := by
  constructor
  · intro h
    obtain rfl := of_checked_eq_ok h
    obtain ⟨r, hr, h⟩ := exists_of_bind_eq_ok h
    cases hr
    obtain ⟨⟨⟩, hv, -⟩ := exists_of_bind_eq_ok h
    obtain ⟨inner, hi, hs⟩ := validateResponse_eq_ok.1 hv
    exact .success hi hs
  · rintro ⟨h, hs⟩
    exact checked_eq_ok rfl (validateResponse_eq_ok.2 ⟨_, h, hs⟩)

theorem checked_eq_error_iff : a.checked = .error e ↔ a.Fails e := by
  obtain ⟨peer, result⟩ := a
  cases result with
  | error source =>
    constructor
    · intro h
      cases h
      exact .unreached
    · rintro ⟨⟩
      rfl
  | ok r =>
    have hchecked : checked ⟨peer, .ok r⟩ = validateResponse peer r >>= fun _ => .ok (peer, r) := rfl
    rw [hchecked, bind_ok_eq_error_iff, validateResponse_eq_error]
    constructor
    · rintro (⟨hr, rfl⟩ | ⟨inner, hr, hs, rfl⟩)
      · exact .unanswered hr
      · exact .refused hr hs
    · rintro (_ | hr | ⟨hr, hs⟩)
      · exact .inl ⟨hr, rfl⟩
      · exact .inr ⟨_, hr, hs, rfl⟩

/-! ## Requirements -/

theorem requireAll_eq_mapM (h : answers ≠ []) :
    requireAll answers = answers.mapM fun a => a.checked.mapError (.endorsementFailed a.peer) := by
  rw [requireAll, if_neg (by rwa [List.isEmpty_iff])]

theorem requireAll_eq_ok_iff : requireAll answers = .ok xs ↔ answers ≠ [] ∧ List.Forall₂ Counts answers xs := by
  by_cases hne : answers = []
  · subst hne
    exact iff_of_false nofun fun h => h.1 rfl
  · simp only [requireAll_eq_mapM hne, mapM_eq_ok_iff, mapError_eq_ok_iff, checked_eq_ok_iff]
    exact (and_iff_right hne).symm

/-- The first answer that does not count is to blame, whatever else is among them. -/
theorem requireAll_eq_error_iff : requireAll answers = .error e ↔
    (answers = [] ∧ e = .noPeersConfigured) ∨
    ∃ before a after source, answers = before ++ a :: after ∧ (∀ b ∈ before, ∃ x, b.Counts x) ∧
      a.Fails source ∧ e = .endorsementFailed a.peer source := by
  by_cases hne : answers = []
  · subst hne
    simp [requireAll, eq_comm]
  · simp only [requireAll_eq_mapM hne, mapM_eq_error_iff, mapError_eq_ok_iff, mapError_eq_error_iff,
      checked_eq_ok_iff, checked_eq_error_iff, hne, false_and, false_or]
    constructor
    · rintro ⟨before, a, after, heq, hbefore, source, hsource, rfl⟩
      exact ⟨before, a, after, source, heq, hbefore, hsource, rfl⟩
    · rintro ⟨before, a, after, source, heq, hbefore, hsource, rfl⟩
      exact ⟨before, a, after, heq, hbefore, source, hsource, rfl⟩

theorem requireFirst_eq_ok_iff : requireFirst answers = .ok x ↔ ∃ a, answers.head? = some a ∧ a.Counts x := by
  cases answers with
  | nil => simp [requireFirst]
  | cons a rest => simp [requireFirst, checked_eq_ok_iff]

theorem requireFirst_eq_error_iff : requireFirst answers = .error e ↔
    (answers = [] ∧ e = .noPeersConfigured) ∨ ∃ a, answers.head? = some a ∧ a.Fails e := by
  cases answers with
  | nil => simp [requireFirst, eq_comm]
  | cons a rest => simp [requireFirst, checked_eq_error_iff]

theorem requireFirst_congr (h : answers.head? = answers'.head?) : requireFirst answers = requireFirst answers' := by
  cases answers with
  | nil =>
    cases answers' with
    | nil => rfl
    | cons => cases h
  | cons a rest =>
    cases answers' with
    | nil => cases h
    | cons a' rest' =>
      cases h
      rfl

end PeerAnswer

/-- What the first target answers depends on its own dispatch alone. -/
theorem head?_collect_congr {targets' : List String} {dispatches' : List Dispatch}
    (htargets : targets.head? = targets'.head?) (hdispatches : dispatches.head? = dispatches'.head?) :
    (collect limit targets dispatches).head? = (collect limit targets' dispatches').head? := by
  rw [List.head?_eq_getElem?, List.head?_eq_getElem?, getElem?_collect, getElem?_collect]
  rw [List.head?_eq_getElem?, List.head?_eq_getElem?] at htargets hdispatches
  rw [htargets, hdispatches]

/-- **Answers keep the order of the targets, and the blame is right.** In whatever order the dispatches end,
each target has one answer, at its own place, with what its own dispatch came to. All answers are accepted
exactly if there are some and each holds a success; otherwise the first target that failed is named, with
its own error. The first answer is accepted or refused whatever the other dispatches come to. -/
theorem collects_in_order (limit : Duration) (targets : List String) (dispatches : List Dispatch)
    (order : List Nat) (hlength : dispatches.length = targets.length)
    (horder : order.Perm (List.range dispatches.length)) :
    let answers := collectIn limit targets dispatches order
    InTargetOrder limit targets dispatches answers ∧
    (∀ xs, PeerAnswer.requireAll answers = .ok xs ↔ targets ≠ [] ∧ List.Forall₂ PeerAnswer.Counts answers xs) ∧
    (∀ e, PeerAnswer.requireAll answers = .error e ↔
      (targets = [] ∧ e = .noPeersConfigured) ∨
      ∃ before a after source, answers = before ++ a :: after ∧ (∀ b ∈ before, ∃ x, b.Counts x) ∧
        a.Fails source ∧ e = .endorsementFailed a.peer source) ∧
    (∀ x, PeerAnswer.requireFirst answers = .ok x ↔ ∃ a, answers.head? = some a ∧ a.Counts x) ∧
    (∀ e, PeerAnswer.requireFirst answers = .error e ↔
      (targets = [] ∧ e = .noPeersConfigured) ∨ ∃ a, answers.head? = some a ∧ a.Fails e) ∧
    ∀ targets' dispatches' order', order'.Perm (List.range dispatches'.length) → targets'.head? = targets.head? →
      dispatches'.head? = dispatches.head? →
      PeerAnswer.requireFirst (collectIn limit targets' dispatches' order') = PeerAnswer.requireFirst answers := by
  have hanswers : collectIn limit targets dispatches order = collect limit targets dispatches :=
    collectIn_eq_collect horder
  have hin : InTargetOrder limit targets dispatches (collect limit targets dispatches) :=
    inTargetOrder_collect hlength
  have hempty : collect limit targets dispatches = [] ↔ targets = [] := by
    rw [← List.length_eq_zero_iff, length_collect, List.length_eq_zero_iff]
  simp only [hanswers, ne_eq, ← hempty]
  refine ⟨hin, fun xs => PeerAnswer.requireAll_eq_ok_iff, fun e => PeerAnswer.requireAll_eq_error_iff,
    fun x => PeerAnswer.requireFirst_eq_ok_iff, fun e => PeerAnswer.requireFirst_eq_error_iff, ?_⟩
  intro targets' dispatches' order' horder' htargets hdispatches
  rw [collectIn_eq_collect horder']
  exact PeerAnswer.requireFirst_congr (head?_collect_congr htargets hdispatches)

/-! Two dispatches to one peer and a silent one between them, which end backwards. -/

theorem collects_in_order_backwards :
    let success : ProposalResponse := { response := some { status := 200 } }
    let answers := collectIn (.ofSecs 3) ["a", "b", "a"]
      [.answered (.ofSecs 2) (.ok success), .silent, .answered (.ofSecs 1) (.ok { success with payload := [1] })]
      [2, 1, 0]
    answers.map (·.peer) = ["a", "b", "a"] ∧
      PeerAnswer.requireAll answers =
        .error (.endorsementFailed "b" (.transport s!"no response within {(Duration.ofSecs 3).describe}")) ∧
      PeerAnswer.requireFirst answers = .ok ("a", success) := by
  intro success answers
  obtain ⟨hin, -, hall, hfirst, -⟩ := collects_in_order (.ofSecs 3) ["a", "b", "a"]
    [.answered (.ofSecs 2) (.ok success), .silent, .answered (.ofSecs 1) (.ok { success with payload := [1] })]
    [2, 1, 0] rfl (by decide)
  refine ⟨hin.peers, (hall _).2 (.inr ?_), (hfirst _).2 ⟨_, rfl, .success rfl rfl⟩⟩
  exact ⟨[⟨"a", .ok success⟩], ⟨"b", _⟩, [⟨"a", .ok { success with payload := [1] }⟩], _, rfl,
    List.forall_mem_singleton.2 ⟨_, .success rfl rfl⟩, .unreached, rfl⟩

end LedgerClient
