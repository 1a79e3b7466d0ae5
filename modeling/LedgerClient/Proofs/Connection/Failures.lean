/-
What errors operations end in, over a network.

`Confined` says it of one step and `Operation.Confined` of a whole operation,
given that nodes fail only as a network does. Both are closed under going on
(`bind`), so an operation is confined as its steps are.
-/
import LedgerClient.Ledger
import LedgerClient.Proofs.Dialogue
import LedgerClient.Proofs.Endorsement

namespace LedgerClient

open Protocol

/-! ## Errors -/

namespace ClientError

/-- How an exchange with a node fails: on its way, or by an answer that cannot be read. -/
def IsNetwork : ClientError → Prop
  | transport _ | decode _ => True
  | _ => False

/-- A node was looked for and is not known, or there was no orderer to choose from. -/
def IsLookup : ClientError → Prop
  | unknownPeer _ | unknownOrderer _ | noOrderersConfigured => True
  | endorsementFailed _ source => source.IsLookup
  | _ => False

/-- There is no peer to talk to, or it is not known. -/
def LacksPeer : ClientError → Prop
  | noPeersConfigured | unknownPeer _ => True
  | _ => False

variable {e : ClientError}

theorem IsNetwork.not_isLookup (h : e.IsNetwork) : ¬ e.IsLookup := by
  cases e with
  | transport | decode => exact id
  | _ => exact h.elim

theorem IsNetwork.not_lacksPeer (h : e.IsNetwork) : ¬ e.LacksPeer := by
  cases e with
  | transport | decode => exact id
  | _ => exact h.elim

end ClientError

/-- What nodes report in it is how a network fails. -/
def Exchange.OverNetwork : Exchange → Prop
  | stamp _ | draw _ => True
  | propose _ _ dispatches => ∀ after e, .answered after (.error e) ∈ dispatches → e.IsNetwork
  | broadcast _ _ answer => ∀ e, answer = .error e → e.IsNetwork
  | seek _ _ answer => ∀ e, answer = .error e → e.IsNetwork

/-- So it is all along. -/
def OverNetwork (log : List Exchange) : Prop := ∀ x ∈ log, x.OverNetwork

theorem OverNetwork.of_append {before after : List Exchange} (h : OverNetwork (before ++ after)) :
    OverNetwork before ∧ OverNetwork after :=
  ⟨fun x hx => h x (List.mem_append_left after hx), fun x hx => h x (List.mem_append_right before hx)⟩

/-! ## Steps -/

section Confined

variable {α β ε : Type} {P : ClientError → Prop} {x : Except ClientError α}

/-- It fails, if it does, with an error of this kind. -/
def Confined (P : ClientError → Prop) (x : Except ClientError α) : Prop := ∀ e, x = .error e → P e

theorem Confined.ok (a : α) : Confined P (.ok a) := nofun

theorem Confined.error {e : ClientError} (h : P e) : @Confined α P (.error e) := by
  rintro e ⟨⟩
  exact h

theorem Confined.bind {f : α → Except ClientError β} (hx : Confined P x)
    (hf : ∀ a, x = .ok a → Confined P (f a)) : Confined P (x >>= f) := by
  intro e h
  rcases bind_eq_error_iff.1 h with h | ⟨a, ha, h⟩
  · exact hx e h
  · exact hf a ha e h

theorem Confined.mapError {x : Except ε α} {f : ε → ClientError} (h : ∀ e, x = .error e → P (f e)) :
    Confined P (x.mapError f) := by
  intro e he
  obtain ⟨e', he', rfl⟩ := mapError_eq_error_iff.1 he
  exact h e' he'

theorem Confined.mapM {f : β → Except ClientError α} {xs : List β} (h : ∀ x ∈ xs, Confined P (f x)) :
    Confined P (xs.mapM f) := by
  intro e he
  obtain ⟨before, x, after, rfl, -, hx⟩ := mapM_eq_error_iff.1 he
  exact h x (List.mem_append_right before List.mem_cons_self) e hx

end Confined

/-! ## Operations -/

namespace Operation

variable {α β : Type} {P : ClientError → Prop} {x : Operation α}

/-- Over a network it fails, if it does, with an error of this kind. -/
def Confined (P : ClientError → Prop) (x : Operation α) : Prop :=
  ∀ e log, x.Runs (.error e) log → OverNetwork log → P e

theorem Confined.bind {f : α → Operation β} (hx : x.Confined P)
    (hf : ∀ a log, x.Runs (.ok a) log → OverNetwork log → (f a).Confined P) : (x >>= f).Confined P := by
  intro e log h hlog
  rcases h.of_bind with ⟨e', h1, he⟩ | ⟨a, before, after, h1, h2, rfl⟩
  · cases he
    exact hx e log h1 hlog
  · exact hf a before h1 hlog.of_append.1 e after h2 hlog.of_append.2

theorem Confined.pure (a : α) : Operation.Confined P (Pure.pure a) := by
  intro e log h _
  cases h.of_pure.1

theorem Confined.ofExcept {x : Except ClientError α} (h : LedgerClient.Confined P x) :
    (Operation.ofExcept x).Confined P := by
  intro e log hx _
  exact h e hx.of_ofExcept.1.symm

theorem Confined.ofExcept_bind {x : Except ClientError α} {f : α → Operation β}
    (hx : LedgerClient.Confined P x) (hf : ∀ a, x = .ok a → (f a).Confined P) :
    (Operation.ofExcept x >>= f).Confined P := by
  refine .bind (.ofExcept hx) fun a log h _ => ?_
  exact hf a h.of_ofExcept.1.symm

theorem Confined.stamp_bind {f : Stamp → Operation β} (hf : ∀ stamp, (f stamp).Confined P) :
    (Operation.stamp >>= f).Confined P := by
  refine .bind ?_ fun stamp _ _ _ => hf stamp
  intro e log h _
  obtain ⟨_, he, -⟩ := h.of_stamp
  cases he

/-- A dialogue does not fail by itself; what goes on with its end may. -/
theorem Confined.lift_bind {d : Dialogue α} {f : α → Operation β}
    (hf : ∀ a log, Dialogue.Runs d a log → OverNetwork log → (f a).Confined P) :
    Operation.Confined P (ExceptT.lift d >>= f) := by
  refine .bind ?_ fun a log h hlog => ?_
  · intro e log h _
    obtain ⟨_, he, -⟩ := h.of_lift
    cases he
  · obtain ⟨_, ha, hd⟩ := h.of_lift
    cases ha
    exact hf a log hd hlog

/-- A choice that random numbers decide on. -/
theorem Confined.draw_bind {f : (Nat → Nat) → Except ClientError α}
    (hf : ∀ draw, LedgerClient.Confined P (f draw)) :
    (Operation.draw >>= fun draw => Operation.ofExcept (f draw)).Confined P := by
  intro e log h _
  obtain ⟨draw, he, -⟩ := h.of_draw_bind
  exact hf draw e he.symm

theorem confined_broadcast {target : Node} {envelope : Envelope} (hn : ∀ e : ClientError, e.IsNetwork → P e)
    (hb : ∀ status info, P (.broadcastRejected status info)) :
    (Operation.broadcast target envelope).Confined P := by
  intro e log h hlog
  obtain ⟨answer, he, rfl⟩ := h.of_broadcast
  rcases bind_eq_error_iff.1 he.symm with ha | ⟨a, -, ha⟩
  · exact hn e (hlog _ List.mem_cons_self e ha)
  · unfold Acknowledgement.check at ha
    split at ha
    next => cases ha
    next =>
      cases ha
      exact hb a.status a.info

end Operation

/-! ## Answers -/

/-- What is noted of an exchange over a network is a response or a failure of the network. -/
theorem Dispatch.isNetwork_of_noted {limit : Duration} {d : Dispatch} {e : ClientError}
    (hd : ∀ after e, d = .answered after (.error e) → e.IsNetwork) (h : d.noted limit = some (.error e)) :
    e.IsNetwork := by
  cases d with
  | answered after result =>
    simp only [Dispatch.noted] at h
    split at h
    next =>
      cases h
      exact hd after e rfl
    next =>
      cases h
      trivial
  | aborted after =>
    simp only [Dispatch.noted] at h
    split at h
    next => cases h
    next =>
      cases h
      trivial
  | silent =>
    cases h
    trivial

theorem isNetwork_of_mem_collect {limit : Duration} {targets : List String} {dispatches : List Dispatch}
    (h : ∀ after e, .answered after (.error e) ∈ dispatches → e.IsNetwork) {a : PeerAnswer}
    (ha : a ∈ collect limit targets dispatches) {e : ClientError} (he : a.result = .error e) : e.IsNetwork := by
  obtain ⟨i, hi⟩ := List.mem_iff_getElem?.1 ha
  rw [getElem?_collect] at hi
  obtain ⟨peer, -, rfl⟩ := Option.map_eq_some_iff.1 hi
  dsimp only at he
  cases hd : dispatches[i]?.bind (Dispatch.noted limit) with
  | none =>
    rw [hd] at he
    cases he
    trivial
  | some noted =>
    rw [hd] at he
    cases he
    obtain ⟨d, hget, hnoted⟩ := Option.bind_eq_some_iff.1 hd
    refine Dispatch.isNetwork_of_noted (fun after e hdispatch => ?_) hnoted
    exact h after e (hdispatch ▸ List.mem_of_getElem? hget)

/-- Every answer that is an error is a failure of the network. -/
theorem Operation.Runs.of_propose_overNetwork {limit : Duration} {targets : List Node} {p : SignedProposal}
    {answers : List PeerAnswer} {log : List Exchange}
    (h : (Operation.propose limit targets p).Runs (.ok answers) log) (hlog : OverNetwork log) :
    ∀ a ∈ answers, ∀ e, a.result = .error e → e.IsNetwork := by
  obtain ⟨dispatches, ha, rfl⟩ := h.of_propose
  cases ha
  intro a ha e he
  exact isNetwork_of_mem_collect (hlog _ List.mem_cons_self) ha he

end LedgerClient
