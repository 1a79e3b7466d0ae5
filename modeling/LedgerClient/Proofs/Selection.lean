/-
Exactly which peers may be selected to endorse.

`Allows` says what each rule lets be selected, without random numbers: every
peer, a peer of each organization in turn, or a peer of one of them. Some
numbers lead to each such selection and none leads to another one
(`exists_selectPeers_eq_ok_iff`); whether it fails, and how, does not depend on
the numbers at all (`selectPeers_eq_error_iff`).
-/
import LedgerClient.Proofs.Connection.Finding
import LedgerClient.Proofs.Except
import Mathlib.Data.List.Nodup

namespace LedgerClient

/-! ## Choices -/

section Choices

variable {α : Type} {xs : List α} {x : α}

theorem exists_choose?_eq_some_iff : (∃ number, choose? number xs = some x) ↔ x ∈ xs := by
  constructor
  · rintro ⟨number, h⟩
    exact mem_of_choose? h
  · intro h
    obtain ⟨i, hi, rfl⟩ := List.mem_iff_getElem.1 h
    refine ⟨i, ?_⟩
    rw [choose?, Nat.mod_eq_of_lt hi, List.getElem?_eq_getElem hi]

theorem choose?_eq_none_iff (number : Nat) : choose? number xs = none ↔ xs = [] := by
  constructor
  · intro h
    refine Decidable.byContradiction fun hne => ?_
    obtain ⟨x, hx⟩ := exists_choose?_eq_some hne number
    cases h.symm.trans hx
  · rintro rfl
    rfl

end Choices

namespace Selector

variable {s : Selector} {organizations names : List String} {organization name : String} {number : Nat}
  {draw : Nat → Nat} {error : ClientError}

/-! ## What may be selected -/

/-- A peer of the organization has the name. -/
def HasPeer (s : Selector) (organization name : String) : Prop :=
  ∃ p ∈ s.peers, p.organization = organization ∧ p.name = name

/-- What a rule lets be selected, nobody perhaps. -/
inductive Allows (s : Selector) : EndorsementRule → List String → Prop
  | all : Allows s .all (s.peers.map (·.name))
  | and {organizations names : List String} (h : List.Forall₂ s.HasPeer organizations names) :
      Allows s (.and organizations) names
  | or {organizations : List String} {organization name : String} (ho : organization ∈ organizations)
      (h : s.HasPeer organization name) : Allows s (.or organizations) [name]

/-- Why nobody can be selected. -/
inductive Lacks (s : Selector) : EndorsementRule → ClientError → Prop
  | peers (h : s.peers = []) : Lacks s .all .noPeersConfigured
  | organizations : Lacks s (.and []) .noPeersConfigured
  | organization {before after : List String} {organization : String}
      (hb : ∀ o ∈ before, ∃ name, s.HasPeer o name) (h : ∀ name, ¬ s.HasPeer organization name) :
      Lacks s (.and (before ++ organization :: after)) (.config (.organizationWithoutPeers organization))
  | union {organizations : List String} (h : ∀ o ∈ organizations, ∀ name, ¬ s.HasPeer o name) :
      Lacks s (.or organizations) .noPeersConfigured

theorem mem_peersOf {p : PeerEntry} : p ∈ s.peersOf organizations ↔ p ∈ s.peers ∧ p.organization ∈ organizations := by
  simp [peersOf]

theorem peersOf_eq_nil_iff :
    s.peersOf organizations = [] ↔ ∀ o ∈ organizations, ∀ name, ¬ s.HasPeer o name := by
  rw [List.eq_nil_iff_forall_not_mem]
  constructor
  · rintro h o ho name ⟨p, hp, rfl, -⟩
    exact h p (mem_peersOf.2 ⟨hp, ho⟩)
  · intro h p hp
    obtain ⟨hp, ho⟩ := mem_peersOf.1 hp
    exact h _ ho p.name ⟨p, hp, rfl, rfl⟩

/-! ## One peer of an organization -/

theorem exists_pickFrom_eq_ok_iff : (∃ number, s.pickFrom number organization = .ok name) ↔
    s.HasPeer organization name := by
  constructor
  · rintro ⟨number, h⟩
    unfold pickFrom at h
    split at h
    next p hp =>
      cases h
      obtain ⟨hp, ho⟩ := mem_peersOf.1 (mem_of_choose? hp)
      exact ⟨p, hp, List.mem_singleton.1 ho, rfl⟩
    next => cases h
  · rintro ⟨p, hp, rfl, rfl⟩
    obtain ⟨number, hnumber⟩ :=
      exists_choose?_eq_some_iff.2 (mem_peersOf.2 ⟨hp, List.mem_singleton_self p.organization⟩)
    exact ⟨number, by rw [pickFrom, hnumber]⟩

theorem pickFrom_eq_error_iff : s.pickFrom number organization = .error error ↔
    (∀ name, ¬ s.HasPeer organization name) ∧ error = .config (.organizationWithoutPeers organization) := by
  have hnone : (∀ name, ¬ s.HasPeer organization name) ↔ s.peersOf [organization] = [] := by
    rw [peersOf_eq_nil_iff, List.forall_mem_singleton]
  rw [hnone, ← choose?_eq_none_iff number, pickFrom]
  split
  next p hp => simp [hp]
  next hp => simp [hp, eq_comm]

/-- Whether there is a peer to pick does not depend on the number. -/
theorem exists_pickFrom_eq_ok : (∃ name, s.pickFrom number organization = .ok name) ↔
    ∃ name, s.HasPeer organization name := by
  constructor
  · rintro ⟨name, h⟩
    exact ⟨name, exists_pickFrom_eq_ok_iff.1 ⟨number, h⟩⟩
  · rintro ⟨name, h⟩
    cases hpick : s.pickFrom number organization with
    | ok name => exact ⟨name, rfl⟩
    | error e => exact absurd h ((pickFrom_eq_error_iff.1 hpick).1 name)

/-! ## One peer of each organization -/

theorem exists_pickEach_eq_ok_iff :
    (∃ draw : Nat → Nat, (organizations.zipIdx.mapM fun (o, i) => s.pickFrom (draw i) o) = .ok names) ↔
      List.Forall₂ s.HasPeer organizations names := by
  simp only [mapM_eq_ok_iff, List.forall₂_iff_get, List.length_zipIdx, List.get_eq_getElem, List.getElem_zipIdx,
    Nat.zero_add]
  constructor
  · rintro ⟨draw, hlength, hpick⟩
    exact ⟨hlength, fun i hi hi' => exists_pickFrom_eq_ok_iff.1 ⟨draw i, hpick i hi hi'⟩⟩
  · rintro ⟨hlength, hpeer⟩
    -- the number drawn for a place depends on nothing but the place
    have hnumber : ∀ i, ∃ number, ∀ (hi : i < organizations.length) (hi' : i < names.length),
        s.pickFrom number organizations[i] = .ok names[i] := by
      intro i
      by_cases hi : i < organizations.length
      · obtain ⟨number, h⟩ := exists_pickFrom_eq_ok_iff.2 (hpeer i hi (hlength ▸ hi))
        exact ⟨number, fun _ _ => h⟩
      · exact ⟨0, fun h => absurd h hi⟩
    choose draw hdraw using hnumber
    exact ⟨draw, hlength, hdraw⟩

theorem pickEach_eq_error_iff :
    (organizations.zipIdx.mapM fun (o, i) => s.pickFrom (draw i) o) = .error error ↔
      ∃ before organization after, organizations = before ++ organization :: after ∧
        (∀ o ∈ before, ∃ name, s.HasPeer o name) ∧ (∀ name, ¬ s.HasPeer organization name) ∧
        error = .config (.organizationWithoutPeers organization) := by
  simp only [mapM_eq_error_iff, pickFrom_eq_error_iff, exists_pickFrom_eq_ok]
  constructor
  · rintro ⟨before, x, after, h, hbefore, hx⟩
    refine ⟨before.map (·.1), x.1, after.map (·.1), ?_, List.forall_mem_map.2 hbefore, hx⟩
    have hfst := congrArg (List.map Prod.fst) h
    rwa [List.zipIdx_map_fst, List.map_append, List.map_cons] at hfst
  · rintro ⟨before, organization, after, rfl, hbefore, hx⟩
    refine ⟨before.zipIdx, _, _, by rw [List.zipIdx_append, List.zipIdx_cons], fun y hy => ?_, hx⟩
    exact hbefore y.1 (List.fst_mem_of_mem_zipIdx hy)

/-! ## One peer of any organization -/

theorem toList_choose?_eq_singleton_iff :
    (∃ draw : Nat → Nat, ((choose? (draw 0) (s.peersOf organizations)).map (·.name)).toList = [name]) ↔
      ∃ o ∈ organizations, s.HasPeer o name := by
  simp only [Option.toList_eq_singleton_iff, Option.map_eq_some_iff]
  constructor
  · rintro ⟨draw, p, hchosen, rfl⟩
    obtain ⟨hp, ho⟩ := mem_peersOf.1 (mem_of_choose? hchosen)
    exact ⟨_, ho, p, hp, rfl, rfl⟩
  · rintro ⟨_, ho, p, hp, rfl, rfl⟩
    obtain ⟨number, hnumber⟩ := exists_choose?_eq_some_iff.2 (mem_peersOf.2 ⟨hp, ho⟩)
    exact ⟨fun _ => number, p, hnumber, rfl⟩

theorem toList_choose?_eq_nil_iff : ((choose? number (s.peersOf organizations)).map (·.name)).toList = [] ↔
    ∀ o ∈ organizations, ∀ name, ¬ s.HasPeer o name := by
  rw [Option.toList_eq_nil_iff, Option.map_eq_none_iff, choose?_eq_none_iff, peersOf_eq_nil_iff]

/-! ## Selections -/

theorem candidates_of_all (h : s.rule = .all) : s.candidates draw = .ok (s.peers.map (·.name)) := by
  rw [candidates, h]

theorem candidates_of_and (h : s.rule = .and organizations) :
    s.candidates draw = organizations.zipIdx.mapM fun (o, i) => s.pickFrom (draw i) o := by
  rw [candidates, h]

theorem candidates_of_or (h : s.rule = .or organizations) :
    s.candidates draw = .ok ((choose? (draw 0) (s.peersOf organizations)).map (·.name)).toList := by
  rw [candidates, h]

theorem selectPeers_eq_ok_iff : s.selectPeers draw = .ok names ↔ names ≠ [] ∧ s.candidates draw = .ok names := by
  rw [selectPeers_eq, bind_eq_ok_iff]
  constructor
  · rintro ⟨found, hfound, h⟩
    split at h
    next => cases h
    next hne =>
      cases h
      exact ⟨fun hnil => hne (List.isEmpty_iff.2 hnil), hfound⟩
  · rintro ⟨hne, hfound⟩
    exact ⟨names, hfound, if_neg fun h => hne (List.isEmpty_iff.1 h)⟩

theorem selectPeers_eq_error_iff_candidates : s.selectPeers draw = .error error ↔
    s.candidates draw = .error error ∨ s.candidates draw = .ok [] ∧ error = .noPeersConfigured := by
  rw [selectPeers_eq, bind_eq_error_iff]
  refine or_congr_right ⟨?_, ?_⟩
  · rintro ⟨found, hfound, h⟩
    split at h
    next hnil =>
      cases h
      exact ⟨List.isEmpty_iff.1 hnil ▸ hfound, rfl⟩
    next => cases h
  · rintro ⟨hfound, rfl⟩
    exact ⟨[], hfound, rfl⟩

/-- Some random numbers lead to a selection exactly if the rule allows it. -/
theorem exists_selectPeers_eq_ok_iff :
    (∃ draw, s.selectPeers draw = .ok names) ↔ names ≠ [] ∧ s.Allows s.rule names := by
  simp only [selectPeers_eq_ok_iff, exists_and_left]
  refine and_congr_right fun hne => ?_
  cases hrule : s.rule with
  | all =>
    simp only [candidates_of_all hrule, Except.ok.injEq]
    constructor
    · rintro ⟨-, rfl⟩
      exact .all
    · rintro ⟨⟩
      exact ⟨id, rfl⟩
  | and organizations =>
    simp only [candidates_of_and hrule, exists_pickEach_eq_ok_iff]
    exact ⟨.and, fun | .and h => h⟩
  | or organizations =>
    simp only [candidates_of_or hrule, Except.ok.injEq]
    constructor
    · rintro ⟨draw, h⟩
      obtain ⟨name, rfl⟩ : ∃ name, names = [name] := by
        cases hchosen : choose? (draw 0) (s.peersOf organizations) with
        | none => exact absurd (by rw [← h, hchosen]; rfl) hne
        | some p => exact ⟨p.name, by rw [← h, hchosen]; rfl⟩
      obtain ⟨o, ho, hpeer⟩ := toList_choose?_eq_singleton_iff.1 ⟨draw, h⟩
      exact .or ho hpeer
    · rintro (_ | _ | ⟨ho, hpeer⟩)
      exact toList_choose?_eq_singleton_iff.2 ⟨_, ho, hpeer⟩

/-- Whether nobody can be selected, and why, is the same for all random numbers. -/
theorem selectPeers_eq_error_iff : s.selectPeers draw = .error error ↔ s.Lacks s.rule error := by
  rw [selectPeers_eq_error_iff_candidates]
  cases hrule : s.rule with
  | all =>
    simp only [candidates_of_all hrule, reduceCtorEq, false_or, Except.ok.injEq, List.map_eq_nil_iff]
    constructor
    · rintro ⟨hnil, rfl⟩
      exact .peers hnil
    · rintro ⟨hnil⟩
      exact ⟨hnil, rfl⟩
  | and organizations =>
    rw [candidates_of_and hrule, pickEach_eq_error_iff, mapM_eq_ok_iff, List.forall₂_nil_right_iff,
      List.zipIdx_eq_nil_iff]
    constructor
    · rintro (⟨before, o, after, rfl, hbefore, hnone, rfl⟩ | ⟨rfl, rfl⟩)
      · exact .organization hbefore hnone
      · exact .organizations
    · rintro (_ | _ | ⟨hbefore, hnone⟩)
      · exact .inr ⟨rfl, rfl⟩
      · exact .inl ⟨_, _, _, rfl, hbefore, hnone, rfl⟩
  | or organizations =>
    simp only [candidates_of_or hrule, reduceCtorEq, false_or, Except.ok.injEq, toList_choose?_eq_nil_iff]
    constructor
    · rintro ⟨hnone, rfl⟩
      exact .union hnone
    · rintro (_ | _ | _ | hnone)
      exact ⟨hnone, rfl⟩

/-! ## Different peers -/

/-- A peer whose name is its own belongs to one organization. -/
theorem HasPeer.organization_unique {o o' : String} (hnames : (s.peers.map (·.name)).Nodup)
    (h : s.HasPeer o name) (h' : s.HasPeer o' name) : o = o' := by
  obtain ⟨p, hp, rfl, hname⟩ := h
  obtain ⟨p', hp', rfl, hname'⟩ := h'
  rw [List.inj_on_of_nodup_map hnames hp hp' (hname.trans hname'.symm)]

theorem exists_hasPeer_of_mem (h : List.Forall₂ s.HasPeer organizations names) (hn : name ∈ names) :
    ∃ o ∈ organizations, s.HasPeer o name := by
  induction h with
  | nil => cases hn
  | @cons o _ _ _ hpeer _ ih =>
    rcases List.mem_cons.1 hn with rfl | hn
    · exact ⟨o, List.mem_cons_self, hpeer⟩
    · obtain ⟨o', ho', hpeer'⟩ := ih hn
      exact ⟨o', List.mem_cons_of_mem o ho', hpeer'⟩

theorem nodup_of_hasPeer (hnames : (s.peers.map (·.name)).Nodup) (h : List.Forall₂ s.HasPeer organizations names)
    (ho : organizations.Nodup) : names.Nodup := by
  induction h with
  | nil => exact .nil
  | cons hpeer hrest ih =>
    obtain ⟨hnot, ho⟩ := List.nodup_cons.1 ho
    refine List.nodup_cons.2 ⟨fun hmem => ?_, ih ho⟩
    obtain ⟨o', ho', hpeer'⟩ := exists_hasPeer_of_mem hrest hmem
    exact hnot (hpeer.organization_unique hnames hpeer' ▸ ho')

/-- **Selection is exact.** What the random numbers may lead to is what the rule allows, except for nobody at all;
whether and how it fails does not depend on them; and peers of different organizations are different if their names
are. -/
theorem selects_exactly (s : Selector) :
    (∀ names, (∃ draw, s.selectPeers draw = .ok names) ↔ names ≠ [] ∧ s.Allows s.rule names) ∧
    (∀ draw error, s.selectPeers draw = .error error ↔ s.Lacks s.rule error) ∧
    ∀ organizations, s.rule = .and organizations → organizations.Nodup → (s.peers.map (·.name)).Nodup →
      ∀ draw names, s.selectPeers draw = .ok names → names.Nodup := by
  refine ⟨fun names => exists_selectPeers_eq_ok_iff, fun draw error => selectPeers_eq_error_iff, ?_⟩
  intro organizations hrule ho hnames draw names h
  obtain ⟨-, hallowed⟩ := exists_selectPeers_eq_ok_iff.1 ⟨draw, h⟩
  rw [hrule] at hallowed
  cases hallowed with
  | and hpeers => exact nodup_of_hasPeer hnames hpeers ho

/-! Two peers of one organization and one of another, both of which endorse; a third organization has none. -/

def sampleSelector : Selector where
  peers := [⟨"peer0", "Org1"⟩, ⟨"peer1", "Org2"⟩, ⟨"peer2", "Org1"⟩]
  orderers := []
  rule := .and ["Org2", "Org1"]

theorem selects_exactly_pair :
    (∃ draw, sampleSelector.selectPeers draw = .ok ["peer1", "peer2"]) ∧
    (∀ draw names, sampleSelector.selectPeers draw = .ok names → names.Nodup) ∧
    ∀ draw, { sampleSelector with rule := .and ["Org2", "Org3", "Org4"] : Selector }.selectPeers draw =
      .error (.config (.organizationWithoutPeers "Org3")) := by
  have hreach := (selects_exactly sampleSelector).1 ["peer1", "peer2"]
  have hdifferent := (selects_exactly sampleSelector).2.2 ["Org2", "Org1"] rfl (by decide) (by decide)
  refine ⟨hreach.2 ⟨by decide, .and ?_⟩, hdifferent, fun draw => ?_⟩
  · exact .cons ⟨⟨"peer1", "Org2"⟩, by decide, rfl, rfl⟩ (.cons ⟨⟨"peer2", "Org1"⟩, by decide, rfl, rfl⟩ .nil)
  · let other : Selector := { sampleSelector with rule := .and ["Org2", "Org3", "Org4"] }
    have hbefore : ∀ o ∈ ["Org2"], ∃ name, other.HasPeer o name := by simp [HasPeer, other, sampleSelector]
    have hnone : ∀ name, ¬ other.HasPeer "Org3" name := by simp [HasPeer, other, sampleSelector]
    exact ((selects_exactly other).2.1 draw _).2 (.organization hbefore hnone)

end Selector

end LedgerClient
