/-
The answers of endorsing peers stand in the order of the targets.

Whatever order the dispatches end in, each fills its own slot and no other
(`getElem?_fillSlots`), so the answer at a place is that of the dispatch at the
same place (`getElem?_collect`). Where all answers count, every dispatch ended
in time with a response (`answered_of_collect`).
-/
import LedgerClient.Endorsement
import LedgerClient.Dialogue
import LedgerClient.Proofs.Except

namespace LedgerClient

open Protocol

variable {ended : List (Nat × Except ClientError ProposalResponse)} {i : Nat}
  {r : Except ClientError ProposalResponse}

/-! ## Slots -/

@[simp] theorem length_foldl_set {slots : List (Option (Except ClientError ProposalResponse))} :
    (ended.foldl (fun slots (i, r) => slots.set i (some r)) slots).length = slots.length := by
  induction ended generalizing slots with
  | nil => rfl
  | cons e rest ih =>
    rw [List.foldl_cons, ih, List.length_set]

@[simp] theorem length_fillSlots (n : Nat) : (fillSlots n ended).length = n := by
  rw [fillSlots, length_foldl_set, List.length_replicate]

/-- A slot that no dispatch fills stays as it is. -/
theorem getElem?_foldl_set_of_not_mem {slots : List (Option (Except ClientError ProposalResponse))}
    (h : i ∉ ended.map (·.1)) :
    (ended.foldl (fun slots (i, r) => slots.set i (some r)) slots)[i]? = slots[i]? := by
  induction ended generalizing slots with
  | nil => rfl
  | cons e rest ih =>
    rw [List.map_cons, List.mem_cons, not_or] at h
    rw [List.foldl_cons, ih h.2, List.getElem?_set_ne (Ne.symm h.1)]

/-- A slot that is filled once keeps what it is filled with. -/
theorem getElem?_foldl_set_of_mem {slots : List (Option (Except ClientError ProposalResponse))}
    (hn : (ended.map (·.1)).Nodup) (hm : (i, r) ∈ ended) (hi : i < slots.length) :
    (ended.foldl (fun slots (i, r) => slots.set i (some r)) slots)[i]? = some (some r) := by
  induction ended generalizing slots with
  | nil => cases hm
  | cons e rest ih =>
    rw [List.map_cons, List.nodup_cons] at hn
    rw [List.foldl_cons]
    rcases List.mem_cons.1 hm with rfl | hm
    · rw [getElem?_foldl_set_of_not_mem hn.1, List.getElem?_set_self hi]
    · exact ih hn.2 hm (by rwa [List.length_set])

theorem getElem?_fillSlots {n : Nat} (hn : (ended.map (·.1)).Nodup) (hm : (i, r) ∈ ended) (hi : i < n) :
    (fillSlots n ended)[i]? = some (some r) :=
  getElem?_foldl_set_of_mem hn hm (by rwa [List.length_replicate])

theorem getElem?_fillSlots_of_not_mem {n : Nat} (h : i ∉ ended.map (·.1)) (hi : i < n) :
    (fillSlots n ended)[i]? = some none := by
  rw [fillSlots, getElem?_foldl_set_of_not_mem h, List.getElem?_replicate, if_pos hi]

/-! ## Collected answers -/

/-- What is noted of dispatches that end one after the other. -/
theorem mem_noted {limit : Duration} {dispatches : List Dispatch} :
    (i, r) ∈ (dispatches.zipIdx.filterMap fun (d, i) => (d.noted limit).map (i, ·)) ↔
      (dispatches[i]?.bind (Dispatch.noted limit)) = some r := by
  rw [List.mem_filterMap, Option.bind_eq_some_iff]
  constructor
  · rintro ⟨⟨d, j⟩, hd, he⟩
    obtain ⟨r', hr, he⟩ := Option.map_eq_some_iff.1 he
    cases he
    exact ⟨d, List.mem_zipIdx_iff_getElem?.1 hd, hr⟩
  · rintro ⟨d, hd, hr⟩
    exact ⟨(d, i), List.mem_zipIdx_iff_getElem?.2 hd, Option.map_eq_some_iff.2 ⟨r, hr, rfl⟩⟩

/-- No dispatch ends twice. -/
theorem nodup_noted (limit : Duration) (dispatches : List Dispatch) :
    ((dispatches.zipIdx.filterMap fun (d, i) => (d.noted limit).map (i, ·)).map (·.1)).Nodup := by
  have hd : (dispatches.zipIdx.map (·.2)).Pairwise (· ≠ ·) := by
    rw [List.zipIdx_map_snd]
    exact List.nodup_range'
  refine List.pairwise_map.2 (List.Pairwise.filterMap _ ?_ (List.pairwise_map.1 hd))
  intro a b hab a' ha b' hb
  obtain ⟨x, -, rfl⟩ := Option.map_eq_some_iff.1 ha
  obtain ⟨y, -, rfl⟩ := Option.map_eq_some_iff.1 hb
  exact hab

theorem getElem?_collect {limit : Duration} {targets : List String} {dispatches : List Dispatch} :
    (collect limit targets dispatches)[i]? = targets[i]?.map fun peer =>
      ⟨peer, (dispatches[i]?.bind (Dispatch.noted limit)).getD (.error (.transport "endorsement task aborted"))⟩ := by
  rw [collect, gather, List.getElem?_zipWith]
  cases ht : targets[i]? with
  | none => rfl
  | some peer =>
    have hi : i < targets.length := (List.getElem?_eq_some_iff.1 ht).1
    cases hd : dispatches[i]?.bind (Dispatch.noted limit) with
    | none =>
      have hm : i ∉ (dispatches.zipIdx.filterMap fun (d, i) => (d.noted limit).map (i, ·)).map (·.1) := by
        intro hm
        obtain ⟨⟨j, r⟩, hr, hj⟩ := List.mem_map.1 hm
        subst hj
        rw [mem_noted.1 hr] at hd
        cases hd
      rw [getElem?_fillSlots_of_not_mem hm hi]
      rfl
    | some r =>
      rw [getElem?_fillSlots (nodup_noted limit dispatches) (mem_noted.2 hd) hi]
      rfl

@[simp] theorem length_collect (limit : Duration) (targets : List String) (dispatches : List Dispatch) :
    (collect limit targets dispatches).length = targets.length := by
  simp only [collect, gather, List.length_zipWith, length_fillSlots, Nat.min_self]

/-! ## Answers that count -/

theorem Dispatch.of_noted_eq_ok {limit : Duration} {d : Dispatch} {r : ProposalResponse}
    (h : d.noted limit = some (.ok r)) : ∃ after, d = .answered after (.ok r) ∧ after ≤ limit := by
  cases d with
  | answered after result =>
    simp only [Dispatch.noted] at h
    split at h
    next hle =>
      cases h
      exact ⟨after, rfl, hle⟩
    next => cases h
  | aborted after =>
    simp only [Dispatch.noted] at h
    split at h
    next => cases h
    next => cases h
  | silent => cases h

/-- All targets have answered in time: each with the response at its place. -/
structure Answered (limit : Duration) (targets : List Node) (dispatches : List Dispatch)
    (responses : List ProposalResponse) : Prop where
  length_eq : responses.length = targets.length
  in_time : ∀ (i : Nat) r, responses[i]? = some r →
    ∃ after, dispatches[i]? = some (.answered after (.ok r)) ∧ after ≤ limit

/-- Where every answer is a response, every target has answered. -/
theorem answered_of_collect {limit : Duration} {targets : List Node} {dispatches : List Dispatch}
    {answers : List (String × ProposalResponse)}
    (h : collect limit (targets.map Node.name) dispatches = answers.map fun a => ⟨a.1, .ok a.2⟩) :
    Answered limit targets dispatches (answers.map (·.2)) := by
  constructor
  · have hl := congrArg List.length h
    rw [length_collect, List.length_map, List.length_map] at hl
    rw [List.length_map, hl]
  · intro i r hr
    rw [List.getElem?_map] at hr
    obtain ⟨a, ha, rfl⟩ := Option.map_eq_some_iff.1 hr
    have hc : (collect limit (targets.map Node.name) dispatches)[i]? = some ⟨a.1, .ok a.2⟩ := by
      rw [h, List.getElem?_map, ha]
      rfl
    rw [getElem?_collect] at hc
    obtain ⟨peer, -, he⟩ := Option.map_eq_some_iff.1 hc
    cases hd : dispatches[i]?.bind (Dispatch.noted limit) with
    | none =>
      rw [hd] at he
      cases he
    | some noted =>
      rw [hd] at he
      cases he
      obtain ⟨d, hi, hn⟩ := Option.bind_eq_some_iff.1 hd
      obtain ⟨after, rfl, hle⟩ := Dispatch.of_noted_eq_ok hn
      exact ⟨after, hi, hle⟩

/-- There is one list of responses at most. -/
theorem Answered.unique {limit : Duration} {targets : List Node} {dispatches : List Dispatch}
    {responses others : List ProposalResponse} (h : Answered limit targets dispatches responses)
    (h' : Answered limit targets dispatches others) : responses = others := by
  refine List.ext_getElem (h.length_eq.trans h'.length_eq.symm) fun i hi hi' => ?_
  obtain ⟨_, hd, -⟩ := h.in_time i _ (List.getElem?_eq_getElem hi)
  obtain ⟨_, hd', -⟩ := h'.in_time i _ (List.getElem?_eq_getElem hi')
  rw [hd] at hd'
  exact Except.ok.inj (Dispatch.answered.inj (Option.some.inj hd')).2

/-- Where all targets have answered, so stands it in the answers that are collected. -/
theorem Answered.of_mem_collect {limit : Duration} {targets : List Node} {dispatches : List Dispatch}
    {responses : List ProposalResponse} (h : Answered limit targets dispatches responses) {a : PeerAnswer}
    (ha : a ∈ collect limit (targets.map Node.name) dispatches) : ∃ r ∈ responses, a.result = .ok r := by
  obtain ⟨i, hi⟩ := List.mem_iff_getElem?.1 ha
  rw [getElem?_collect] at hi
  obtain ⟨peer, hpeer, rfl⟩ := Option.map_eq_some_iff.1 hi
  have hlt : i < responses.length := by
    rw [h.length_eq, ← List.length_map Node.name]
    exact (List.getElem?_eq_some_iff.1 hpeer).1
  obtain ⟨after, hd, hle⟩ := h.in_time i _ (List.getElem?_eq_getElem hlt)
  refine ⟨responses[i], List.getElem_mem hlt, ?_⟩
  have hn : (Dispatch.answered after (.ok responses[i])).noted limit = some (.ok responses[i]) := if_pos hle
  rw [hd, Option.bind_some, hn, Option.getD_some]

namespace PeerAnswer

theorem of_checked_eq_ok {a : PeerAnswer} {x : String × ProposalResponse} (h : a.checked = .ok x) :
    a = ⟨x.1, .ok x.2⟩ := by
  obtain ⟨r, hr, h⟩ := exists_of_bind_eq_ok h
  obtain ⟨⟨⟩, -, h⟩ := exists_of_bind_eq_ok h
  cases h
  cases a
  exact congrArg (PeerAnswer.mk _) hr

/-- Only responses pass, and at least one. -/
theorem of_requireAll_eq_ok {answers : List PeerAnswer} {xs : List (String × ProposalResponse)}
    (h : requireAll answers = .ok xs) : xs ≠ [] ∧ answers = xs.map fun x => ⟨x.1, .ok x.2⟩ := by
  unfold requireAll at h
  split at h
  next => cases h
  next hne =>
    have hm : answers.map id = xs.map fun x => ⟨x.1, .ok x.2⟩ := by
      refine map_eq_of_mapM_eq_ok ?_ h
      intro a x hx
      cases hc : a.checked with
      | error e =>
        rw [hc] at hx
        cases hx
      | ok y =>
        rw [hc] at hx
        cases hx
        exact of_checked_eq_ok hc
    rw [List.map_id] at hm
    refine ⟨?_, hm⟩
    rintro rfl
    rw [hm] at hne
    exact hne rfl

theorem checked_eq_ok {a : PeerAnswer} {r : ProposalResponse} (hr : a.result = .ok r)
    (hv : validateResponse a.peer r = .ok ()) : a.checked = .ok (a.peer, r) := by
  unfold checked
  rw [hr]
  show (validateResponse a.peer r >>= fun _ => _) = _
  rw [hv]
  rfl

/-- Answers of which each counts pass. -/
theorem exists_requireAll_eq_ok {answers : List PeerAnswer} (hne : answers ≠ [])
    (h : ∀ a ∈ answers, ∃ r, a.result = .ok r ∧ validateResponse a.peer r = .ok ()) :
    ∃ xs, requireAll answers = .ok xs := by
  unfold requireAll
  rw [if_neg (by rwa [List.isEmpty_iff])]
  refine exists_mapM_eq_ok fun a ha => ?_
  obtain ⟨r, hr, hv⟩ := h a ha
  refine ⟨(a.peer, r), ?_⟩
  rw [checked_eq_ok hr hv]
  rfl

end PeerAnswer

end LedgerClient
