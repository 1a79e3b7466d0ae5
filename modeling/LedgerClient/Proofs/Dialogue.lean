/-
How operations may go, in any world.

A run of a dialogue pairs its end with the list of all that was asked and
answered on the way, in order. Every answer is possible at every step, so what
holds of all runs holds in every world (`Operation.runs_transcript`). A run of
two operations in sequence is one of the first that fails, or one of the first
and then one of the second.
-/
import LedgerClient.Dialogue

namespace LedgerClient

open Protocol

/-- One thing asked of the world, and the answer. -/
inductive Exchange where
  | stamp (answer : Stamp)
  | draw (answer : Nat → Nat)
  | propose (targets : List Node) (proposal : SignedProposal) (answer : List Dispatch)
  | broadcast (target : Node) (envelope : Envelope) (answer : Except ClientError Acknowledgement)
  | seek (target : Node) (request : Envelope) (answer : Except ClientError Session)

namespace Exchange

def isPropose : Exchange → Bool
  | propose .. => true
  | _ => false

def isBroadcast : Exchange → Bool
  | broadcast .. => true
  | _ => false

def isSeek : Exchange → Bool
  | seek .. => true
  | _ => false

def draw? : Exchange → Option (Nat → Nat)
  | draw answer => some answer
  | _ => none

end Exchange

variable {σ α β : Type}

/-! ## Dialogues -/

namespace Dialogue

/-- The dialogue may end with `a` after the exchanges of `log`. -/
inductive Runs : Dialogue α → α → List Exchange → Prop where
  | done (a : α) : Runs (.done a) a []
  | stamp {next a log} (answer) (h : Runs (next answer) a log) : Runs (.stamp next) a (.stamp answer :: log)
  | draw {next a log} (answer) (h : Runs (next answer) a log) : Runs (.draw next) a (.draw answer :: log)
  | propose {targets p next a log} (answer) (h : Runs (next answer) a log) :
    Runs (.propose targets p next) a (.propose targets p answer :: log)
  | broadcast {target e next a log} (answer) (h : Runs (next answer) a log) :
    Runs (.broadcast target e next) a (.broadcast target e answer :: log)
  | seek {target r next a log} (answer) (h : Runs (next answer) a log) :
    Runs (.seek target r next) a (.seek target r answer :: log)

theorem Runs.of_bind {d : Dialogue α} {f : α → Dialogue β} {b : β} : ∀ {log : List Exchange},
    Runs (d.bind f) b log → ∃ a before after, Runs d a before ∧ Runs (f a) b after ∧ log = before ++ after := by
  induction d with
  | done a =>
    intro log h
    exact ⟨a, [], log, .done a, h, rfl⟩
  | stamp next ih =>
    intro log h
    cases h with
    | stamp answer h =>
      obtain ⟨a, before, after, h1, h2, rfl⟩ := ih answer h
      exact ⟨a, _, after, .stamp answer h1, h2, rfl⟩
  | draw next ih =>
    intro log h
    cases h with
    | draw answer h =>
      obtain ⟨a, before, after, h1, h2, rfl⟩ := ih answer h
      exact ⟨a, _, after, .draw answer h1, h2, rfl⟩
  | propose targets p next ih =>
    intro log h
    cases h with
    | propose answer h =>
      obtain ⟨a, before, after, h1, h2, rfl⟩ := ih answer h
      exact ⟨a, _, after, .propose answer h1, h2, rfl⟩
  | broadcast target e next ih =>
    intro log h
    cases h with
    | broadcast answer h =>
      obtain ⟨a, before, after, h1, h2, rfl⟩ := ih answer h
      exact ⟨a, _, after, .broadcast answer h1, h2, rfl⟩
  | seek target r next ih =>
    intro log h
    cases h with
    | seek answer h =>
      obtain ⟨a, before, after, h1, h2, rfl⟩ := ih answer h
      exact ⟨a, _, after, .seek answer h1, h2, rfl⟩

theorem Runs.bind {d : Dialogue α} {f : α → Dialogue β} {a : α} {b : β} {before after : List Exchange}
    (h : Runs d a before) (hf : Runs (f a) b after) : Runs (d.bind f) b (before ++ after) := by
  induction h with
  | done a => exact hf
  | stamp answer _ ih => exact .stamp answer (ih hf)
  | draw answer _ ih => exact .draw answer (ih hf)
  | propose answer _ ih => exact .propose answer (ih hf)
  | broadcast answer _ ih => exact .broadcast answer (ih hf)
  | seek answer _ ih => exact .seek answer (ih hf)

/-- What is exchanged while a dialogue runs in a world. -/
def transcript (w : World σ) : Dialogue α → σ → List Exchange
  | done _, _ => []
  | stamp next, s => .stamp (w.stamp s).1 :: (next (w.stamp s).1).transcript w (w.stamp s).2
  | draw next, s => .draw (w.draw s).1 :: (next (w.draw s).1).transcript w (w.draw s).2
  | propose targets p next, s =>
    .propose targets p (w.propose targets p s).1 ::
      (next (w.propose targets p s).1).transcript w (w.propose targets p s).2
  | broadcast target e next, s =>
    .broadcast target e (w.broadcast target e s).1 ::
      (next (w.broadcast target e s).1).transcript w (w.broadcast target e s).2
  | seek target r next, s =>
    .seek target r (w.seek target r s).1 :: (next (w.seek target r s).1).transcript w (w.seek target r s).2

theorem runs_transcript (w : World σ) (d : Dialogue α) : ∀ s : σ, Runs d (d.run w s).1 (d.transcript w s) := by
  induction d with
  | done a =>
    intro s
    exact .done a
  | stamp next ih =>
    intro s
    exact .stamp _ (ih _ _)
  | draw next ih =>
    intro s
    exact .draw _ (ih _ _)
  | propose targets p next ih =>
    intro s
    exact .propose _ (ih _ _)
  | broadcast target e next ih =>
    intro s
    exact .broadcast _ (ih _ _)
  | seek target r next ih =>
    intro s
    exact .seek _ (ih _ _)

end Dialogue

/-! ## Operations -/

namespace Operation

/-- How an operation ends in a world. -/
def result (w : World σ) (x : Operation α) (s : σ) : Except ClientError α := (Dialogue.run w x.run s).1

/-- What is exchanged while an operation runs in a world. -/
def transcript (w : World σ) (x : Operation α) (s : σ) : List Exchange := Dialogue.transcript w x.run s

/-- The operation may end with `result` after the exchanges of `log`. -/
def Runs (x : Operation α) (result : Except ClientError α) (log : List Exchange) : Prop :=
  Dialogue.Runs x.run result log

theorem runs_transcript (w : World σ) (x : Operation α) (s : σ) : x.Runs (result w x s) (transcript w x s) :=
  Dialogue.runs_transcript w x.run s

variable {result : Except ClientError α} {log : List Exchange}

theorem Runs.of_bind {x : Operation β} {f : β → Operation α} (h : Runs (x >>= f) result log) :
    (∃ e, x.Runs (.error e) log ∧ result = .error e) ∨
      ∃ b before after, x.Runs (.ok b) before ∧ (f b).Runs result after ∧ log = before ++ after := by
  obtain ⟨b, before, after, h1, h2, rfl⟩ := Dialogue.Runs.of_bind h
  cases b with
  | ok b => exact .inr ⟨b, before, after, h1, h2, rfl⟩
  | error e =>
    cases h2
    exact .inl ⟨e, by rwa [List.append_nil], rfl⟩

/-- Two operations in sequence: the first fails, or the second follows it. -/
theorem runs_bind_iff {x : Operation β} {f : β → Operation α} : Runs (x >>= f) result log ↔
    (∃ e, x.Runs (.error e) log ∧ result = .error e) ∨
      ∃ b before after, x.Runs (.ok b) before ∧ (f b).Runs result after ∧ log = before ++ after := by
  refine ⟨fun h => h.of_bind, ?_⟩
  rintro (⟨e, hx, rfl⟩ | ⟨b, before, after, hx, hf, rfl⟩)
  · rw [← List.append_nil log]
    exact Dialogue.Runs.bind hx (.done _)
  · exact Dialogue.Runs.bind hx hf

/-! ## Steps -/

theorem Runs.of_pure {a : α} (h : Runs (pure a) result log) : result = .ok a ∧ log = [] := by
  cases h
  exact ⟨rfl, rfl⟩

theorem Runs.of_ofExcept {x : Except ClientError α} (h : (ofExcept x).Runs result log) :
    result = x ∧ log = [] := by
  cases h
  exact ⟨rfl, rfl⟩

theorem runs_ofExcept_iff {x : Except ClientError α} : (ofExcept x).Runs result log ↔ result = x ∧ log = [] := by
  refine ⟨fun h => h.of_ofExcept, ?_⟩
  rintro ⟨rfl, rfl⟩
  exact .done _

theorem Runs.of_ofExcept_bind {x : Except ClientError β} {f : β → Operation α}
    (h : (ofExcept x >>= f).Runs result log) :
    (∃ e, x = .error e ∧ result = .error e ∧ log = []) ∨ ∃ b, x = .ok b ∧ (f b).Runs result log := by
  rcases h.of_bind with ⟨e, hx, rfl⟩ | ⟨b, before, after, hx, hf, rfl⟩
  · obtain ⟨rfl, rfl⟩ := hx.of_ofExcept
    exact .inl ⟨e, rfl, rfl, rfl⟩
  · obtain ⟨rfl, rfl⟩ := hx.of_ofExcept
    exact .inr ⟨b, rfl, hf⟩

theorem runs_ofExcept_bind_iff {x : Except ClientError β} {f : β → Operation α} :
    (ofExcept x >>= f).Runs result log ↔
      (∃ e, x = .error e ∧ result = .error e ∧ log = []) ∨ ∃ b, x = .ok b ∧ (f b).Runs result log := by
  refine ⟨fun h => h.of_ofExcept_bind, ?_⟩
  rintro (⟨e, rfl, rfl, rfl⟩ | ⟨b, rfl, hf⟩)
  · exact .done _
  · exact hf

theorem Runs.of_stamp {result : Except ClientError Stamp} (h : stamp.Runs result log) :
    ∃ answer, result = .ok answer ∧ log = [.stamp answer] := by
  cases h with
  | stamp answer h =>
    cases h
    exact ⟨answer, rfl, rfl⟩

theorem runs_stamp_iff {result : Except ClientError Stamp} :
    stamp.Runs result log ↔ ∃ answer, result = .ok answer ∧ log = [.stamp answer] := by
  refine ⟨fun h => h.of_stamp, ?_⟩
  rintro ⟨answer, rfl, rfl⟩
  exact .stamp answer (.done _)

theorem Runs.of_draw {result : Except ClientError (Nat → Nat)} (h : draw.Runs result log) :
    ∃ answer, result = .ok answer ∧ log = [.draw answer] := by
  cases h with
  | draw answer h =>
    cases h
    exact ⟨answer, rfl, rfl⟩

/-- A choice that random numbers decide on. -/
theorem Runs.of_draw_bind {f : (Nat → Nat) → Except ClientError α}
    (h : (draw >>= fun answer => ofExcept (f answer)).Runs result log) :
    ∃ answer, result = f answer ∧ log = [.draw answer] := by
  rcases h.of_bind with ⟨e, hd, -⟩ | ⟨numbers, _, _, hd, hf, rfl⟩
  · obtain ⟨answer, he, -⟩ := hd.of_draw
    cases he
  · obtain ⟨answer, he, rfl⟩ := hd.of_draw
    cases he
    obtain ⟨rfl, rfl⟩ := hf.of_ofExcept
    exact ⟨numbers, rfl, rfl⟩

theorem Runs.of_propose {limit : Duration} {targets : List Node} {p : SignedProposal}
    {result : Except ClientError (List PeerAnswer)} (h : (propose limit targets p).Runs result log) :
    ∃ answer, result = .ok (collect limit (targets.map Node.name) answer) ∧
      log = [.propose targets p answer] := by
  cases h with
  | propose answer h =>
    cases h
    exact ⟨answer, rfl, rfl⟩

theorem Runs.of_broadcast {target : Node} {e : Envelope} {result : Except ClientError Unit}
    (h : (broadcast target e).Runs result log) :
    ∃ answer, result = answer >>= Acknowledgement.check ∧ log = [.broadcast target e answer] := by
  cases h with
  | broadcast answer h =>
    cases h
    exact ⟨answer, rfl, rfl⟩

theorem Runs.of_seek {target : Node} {r : Envelope} {result : Except ClientError Session}
    (h : (seek target r).Runs result log) : log = [.seek target r result] := by
  cases h with
  | seek answer h =>
    cases h
    rfl

theorem runs_seek_iff {target : Node} {r : Envelope} {result : Except ClientError Session} :
    (seek target r).Runs result log ↔ log = [.seek target r result] := by
  refine ⟨fun h => h.of_seek, ?_⟩
  rintro rfl
  exact .seek result (.done _)

/-- A dialogue that is part of an operation and does not fail by itself. -/
theorem Runs.of_lift {d : Dialogue α} (h : Runs (ExceptT.lift d) result log) :
    ∃ a, result = .ok a ∧ Dialogue.Runs d a log := by
  obtain ⟨a, before, after, hd, hdone, rfl⟩ := Dialogue.Runs.of_bind h
  cases hdone
  exact ⟨a, rfl, by rwa [List.append_nil]⟩

/-- A broadcast that is the last thing sent. -/
theorem Runs.of_broadcast_pure {target : Node} {e : Envelope} {a : α}
    (h : (broadcast target e >>= fun _ => pure a).Runs result log) :
    ∃ answer, result = (answer >>= Acknowledgement.check >>= fun _ => .ok a) ∧
      log = [.broadcast target e answer] := by
  rcases h.of_bind with ⟨e, hb, rfl⟩ | ⟨⟨⟩, _, _, hb, hp, rfl⟩
  · obtain ⟨answer, he, rfl⟩ := hb.of_broadcast
    refine ⟨answer, ?_, rfl⟩
    rw [← he]
    rfl
  · obtain ⟨answer, ho, rfl⟩ := hb.of_broadcast
    obtain ⟨rfl, rfl⟩ := hp.of_pure
    refine ⟨answer, ?_, rfl⟩
    rw [← ho]
    rfl

end Operation

end LedgerClient
