/-
A listener's own operations are steps of streaming.

Letting the feed run for a time takes some steps of the receive loop; taking a
block, cancelling and giving up the queue are single steps of the consumer. So
whatever a program does with a listener, `Streams` holds of what it received
(`exists_streams`).
-/
import LedgerClient.Proofs.Listener.Delivery

namespace LedgerClient

open Protocol Streaming

/-- The items that a session brings, without the pauses. -/
def Session.items : Session → Nat → Option Delivery
  | silence, _ | finish, _ => none
  | pause _ rest, n => rest.items n
  | item d _, 0 => some d
  | item _ rest, n + 1 => rest.items n

variable {items : Nat → Option Delivery} {s : Streaming}

namespace Feed

variable {f : Feed}

/-- A loop that goes on to read has not been cancelled. -/
theorem cancelled_of_proceed (h : f.proceed.phase = .reading) : f.proceed.cancelled = false := by
  unfold proceed at h ⊢
  split at h
  next how hp =>
    rw [hp] at h
    cases h
  next hp =>
    by_cases hc : f.cancelled = true
    · rw [if_pos hc] at h
      cases h
    · rw [if_neg hc, ← Bool.not_eq_true]
      exact hc
  next e hp =>
    by_cases hs : f.cancelled = true ∨ f.dropped = true
    · rw [if_pos hs] at h
      cases h
    · rw [if_neg hs] at h ⊢
      have hc : f.cancelled = false := Bool.not_eq_true _ ▸ (not_or.1 hs).1
      split at h
      next hl =>
        rw [if_pos hl]
        exact hc
      next =>
        rw [hp] at h
        cases h

theorem runFor_of_ne_reading (h : f.proceed.phase ≠ .reading) (time : Duration) (session : Session) :
    f.runFor time session = (f.proceed, session) := by
  unfold runFor
  dsimp only
  split
  next hp => exact absurd hp h
  next hp => exact absurd hp h
  next hp => exact absurd hp h
  next => rfl

theorem runFor_silence (time : Duration) : f.runFor time .silence = (f.proceed, .silence) := by
  by_cases h : f.proceed.phase = .reading
  · unfold runFor
    dsimp only
    rw [h]
  · exact runFor_of_ne_reading h time .silence

end Feed

namespace Streaming

/-- After some steps of the loop the feed and what is left of the stream are as given, and nothing
has been taken. -/
structure Reaches (items : Nat → Option Delivery) (s s' : Streaming) (target : Feed × Session) : Prop where
  feed_eq : s'.feed = target.1
  received_eq : s'.received = s.received
  rest_eq : ∀ i, items (s'.read + i) = target.2.items i

theorem reaches_proceed {session : Session} (hp : s.feed.proceed.phase ≠ .reading) (time : Duration)
    (h : ∀ i, items (s.read + i) = session.items i) :
    Reaches items s (s.run items [.proceed]) (s.feed.runFor time session) := by
  rw [Feed.runFor_of_ne_reading hp]
  exact ⟨rfl, rfl, h⟩

/-- Letting a feed run takes some steps of the loop. -/
theorem exists_run_runFor (session : Session) : ∀ {s : Streaming} (time : Duration),
    (∀ i, items (s.read + i) = session.items i) →
      ∃ actions, Reaches items s (s.run items actions) (s.feed.runFor time session) := by
  induction session with
  | silence =>
    intro s time h
    refine ⟨[.proceed], ?_⟩
    rw [Feed.runFor_silence]
    exact ⟨rfl, rfl, h⟩
  | finish =>
    intro s time h
    by_cases hp : s.feed.proceed.phase = .reading
    · refine ⟨[.proceed, .read], ?_⟩
      simp only [Feed.runFor, hp]
      have hread := read_step_read (s := s.step items .proceed) items hp (Feed.cancelled_of_proceed hp)
      refine ⟨?_, rfl, ?_⟩
      · exact congrArg s.feed.proceed.read (h 0)
      · intro i
        show items (((s.step items .proceed).step items .read).read + i) = none
        rw [hread, Nat.add_assoc]
        exact h (1 + i)
    · exact ⟨[.proceed], reaches_proceed hp time h⟩
  | pause wait rest ih =>
    intro s time h
    by_cases hp : s.feed.proceed.phase = .reading
    · simp only [Feed.runFor, hp]
      by_cases hle : wait ≤ time
      · rw [if_pos hle]
        obtain ⟨actions, hr⟩ := ih (s := s.step items .proceed) (time - wait) h
        exact ⟨.proceed :: actions, hr.feed_eq, hr.received_eq, hr.rest_eq⟩
      · rw [if_neg hle]
        exact ⟨[.proceed], rfl, rfl, h⟩
    · exact ⟨[.proceed], reaches_proceed hp time h⟩
  | item d rest ih =>
    intro s time h
    by_cases hp : s.feed.proceed.phase = .reading
    · simp only [Feed.runFor, hp]
      have hread := read_step_read (s := s.step items .proceed) items hp (Feed.cancelled_of_proceed hp)
      have hfeed : ((s.step items .proceed).step items .read).feed = s.feed.proceed.read (some d) :=
        congrArg s.feed.proceed.read (h 0)
      obtain ⟨actions, hr⟩ := ih (s := (s.step items .proceed).step items .read) time (by
        intro i
        rw [hread, Nat.add_assoc, Nat.add_comm 1 i]
        exact h (i + 1))
      rw [hfeed] at hr
      exact ⟨.proceed :: .read :: actions, hr.feed_eq, hr.received_eq, hr.rest_eq⟩
    · exact ⟨[.proceed], reaches_proceed hp time h⟩

end Streaming

/-! ## Listeners -/

/-- What a program does with a listener that streams. -/
inductive ListenerAction where
  | wait (time : Duration)
  | take
  | cancel
  | drop

namespace Listener

/-- The block that an action takes, if any, and the listener after it. -/
def act (l : Listener) : ListenerAction → Option BlockEvent × Listener
  | .wait time => (none, l.runFor time)
  | .take => l.take
  | .cancel => (none, l.cancel)
  | .drop => (none, l.drop)

/-- The blocks that some actions take, and the listener after them. -/
def play (l : Listener) : List ListenerAction → List BlockEvent × Listener
  | [] => ([], l)
  | a :: rest => ((l.act a).1.toList ++ ((l.act a).2.play rest).1, ((l.act a).2.play rest).2)

/-- A listener stands where a run of the steps does, with the same part of the stream ahead. -/
structure StandsAt (l : Listener) (items : Nat → Option Delivery) (s : Streaming) : Prop where
  feed_eq : l.feed = some s.feed
  state_eq : l.state = s.state
  rest_eq : ∀ i, items (s.read + i) = l.session.items i

variable {l : Listener}

theorem StandsAt.runFor (h : l.StandsAt items s) (time : Duration) {s' : Streaming}
    (hr : Reaches items s s' (s.feed.runFor time l.session)) (hs : s.state ≠ .streaming → s'.state = s.state) :
    (l.runFor time).StandsAt items s' := by
  obtain ⟨hfeed, -, hrest⟩ := hr
  unfold Listener.runFor
  rw [h.feed_eq]
  refine ⟨congrArg some hfeed.symm, ?_, hrest⟩
  dsimp only
  rw [← hfeed]
  cases ho : s'.feed.outcome? with
  | some how =>
    unfold Streaming.state
    rw [ho]
  | none =>
    have hs' : s'.state = .streaming := by
      unfold Streaming.state
      rw [ho]
    show l.state = s'.state
    rw [h.state_eq]
    by_cases hstreaming : s.state = .streaming
    · rw [hstreaming, hs']
    · exact (hs hstreaming).symm

theorem StandsAt.act (h : l.StandsAt items s) (a : ListenerAction) : ∃ actions,
    (l.act a).2.StandsAt items (s.run items actions) ∧
      (s.run items actions).received = s.received ++ (l.act a).1.toList := by
  cases a with
  | wait time =>
    obtain ⟨actions, hr⟩ := exists_run_runFor l.session time h.rest_eq
    refine ⟨actions, h.runFor time hr fun hs => state_run hs actions, ?_⟩
    rw [hr.received_eq]
    exact (List.append_nil s.received).symm
  | take =>
    have hl : l.take = (s.feed.take.1, { l with feed := some s.feed.take.2 }) := by
      unfold Listener.take
      rw [h.feed_eq]
    have hstate : (s.step items .take).state = s.state := by
      simp only [step, Feed.take]
      cases s.feed.queue with
      | nil => rfl
      | cons e rest => rfl
    refine ⟨[.take], ?_, ?_⟩
    · show l.take.2.StandsAt items (s.step items .take)
      rw [hl]
      exact ⟨rfl, h.state_eq.trans hstate.symm, h.rest_eq⟩
    · show _ = s.received ++ l.take.1.toList
      rw [hl]
      rfl
  | cancel =>
    refine ⟨[.cancel], ⟨?_, h.state_eq, h.rest_eq⟩, (List.append_nil s.received).symm⟩
    exact congrArg (Option.map Feed.cancel) h.feed_eq
  | drop =>
    refine ⟨[.drop], ⟨?_, h.state_eq, h.rest_eq⟩, (List.append_nil s.received).symm⟩
    exact congrArg (Option.map Feed.drop) h.feed_eq

theorem StandsAt.play (h : l.StandsAt items s) (script : List ListenerAction) : ∃ actions,
    (l.play script).2.StandsAt items (s.run items actions) ∧
      (s.run items actions).received = s.received ++ (l.play script).1 := by
  induction script generalizing l s with
  | nil => exact ⟨[], h, (List.append_nil s.received).symm⟩
  | cons a rest ih =>
    obtain ⟨actions, hact, hreceived⟩ := h.act a
    obtain ⟨actions', hplay, hreceived'⟩ := ih hact
    refine ⟨actions ++ actions', ?_, ?_⟩
    · rw [run_append]
      exact hplay
    · rw [run_append, hreceived', hreceived, List.append_assoc]
      rfl

/-- A listener whose session has just been opened. It may have been cancelled before. -/
theorem standsAt_opened (l : Listener) (session : Session) : ∃ actions,
    (l.opened (.ok session)).2.StandsAt session.items ((start l.mode l.capacity).run session.items actions) ∧
      ((start l.mode l.capacity).run session.items actions).received = [] := by
  have hrest : ∀ i, session.items (0 + i) = session.items i := by
    intro i
    rw [Nat.zero_add]
  cases hc : l.cancelled with
  | false =>
    refine ⟨[], ⟨?_, rfl, hrest⟩, rfl⟩
    show some ({ mode := l.mode, capacity := l.capacity, cancelled := l.cancelled } : Feed) = some _
    rw [hc]
    rfl
  | true =>
    refine ⟨[.cancel], ⟨?_, rfl, hrest⟩, rfl⟩
    show some ({ mode := l.mode, capacity := l.capacity, cancelled := l.cancelled } : Feed) = some _
    rw [hc]
    rfl

/-- Whatever is done with a listener once its session is open, what has been received and what is
queued are as `Streams` says. -/
theorem exists_streams (l : Listener) (session : Session) (script : List ListenerAction) : ∃ s : Streaming,
    ((l.opened (.ok session)).2.play script).2.StandsAt session.items s ∧
      s.received = ((l.opened (.ok session)).2.play script).1 ∧ Streams l.mode l.capacity session.items s := by
  obtain ⟨before, hopened, hnone⟩ := standsAt_opened l session
  obtain ⟨actions, hplay, hreceived⟩ := hopened.play script
  refine ⟨_, hplay, ?_, ?_⟩
  · rw [hreceived, hnone, List.nil_append]
  · have h : Kept l.mode l.capacity session.items (start l.mode l.capacity) :=
      kept_start l.mode l.capacity session.items
    exact ((h.run before).run actions).streams

end Listener

end LedgerClient
