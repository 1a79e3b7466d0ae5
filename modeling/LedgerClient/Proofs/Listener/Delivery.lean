/-
Streaming loses no block, repeats none and keeps their order.

`Streams` says what a consumer can count on wherever a run has led; it is read
off what every run keeps (`Kept.streams`).
-/
import LedgerClient.Proofs.Listener.Progress

namespace LedgerClient.Streaming

variable {mode : DecodeMode} {capacity : Nat} {items : Nat → Option Delivery} {s : Streaming}

/-- What a consumer can count on. -/
structure Streams (mode : DecodeMode) (capacity : Nat) (items : Nat → Option Delivery) (s : Streaming) :
    Prop where
  /-- Nothing is lost, repeated or put in another order. -/
  in_order : ∃ n, Open items n ∧ s.received ++ s.feed.queue <+: blocks mode items n
  /-- What was queued and not taken is in the queue, as long as there is one. -/
  queued_eq : s.feed.dropped = false → s.received ++ s.feed.queue = s.queued
  length_le : s.feed.queue.length ≤ capacity
  /-- Nothing is queued after a cancellation or a drop. -/
  silent : s.feed.cancelled = true ∨ s.feed.dropped = true →
    ∀ actions, (s.run items actions).queued = s.queued
  /-- With neither, all blocks up to the end of the stream are queued before the loop ends. -/
  complete : s.feed.cancelled = false → s.feed.dropped = false → s.state ≠ .streaming →
    ∃ n how, Open items n ∧ FeedEnd.ofItem? (items n) = some how ∧
      s.received ++ s.feed.queue = blocks mode items n ∧ s.state = .ofEnd how
  /-- The loop ends with the stream, or by a cancellation or a drop, which close it. -/
  ended : s.state ≠ .streaming →
    (∃ n how, s.read = n + 1 ∧ Open items n ∧ FeedEnd.ofItem? (items n) = some how ∧
      s.queued = blocks mode items n ∧ s.state = .ofEnd how) ∨
    Open items s.read ∧ (s.feed.cancelled = true ∨ s.feed.dropped = true) ∧ s.state = .closed
  /-- A loop cancelled before its end does not fail. -/
  cancelled : s.feed.cancelled = true → s.state = .streaming →
    ∀ actions, (s.run items actions).state ≠ .failed
  final : s.state ≠ .streaming → ∀ actions, (s.run items actions).state = s.state
  /-- While it streams, any number of blocks can still be received. -/
  progress : 0 < capacity → s.feed.cancelled = false → s.feed.dropped = false → s.state = .streaming →
    ∀ n, s.read ≤ n → Open items n → ∃ actions, (s.run items actions).received = blocks mode items n

theorem Kept.streams (h : Kept mode capacity items s) : Streams mode capacity items s := by
  refine ⟨?_, h.received_eq, h.capacity_eq ▸ h.length_le, queued_run, ?_, h.ended, ?_, state_run, ?_⟩
  · obtain ⟨n, hopen, hq⟩ := h.exists_queued_prefix
    exact ⟨n, hopen, h.received_prefix.trans hq⟩
  · intro hc hd hs
    rcases h.ended hs with ⟨n, how, -, hopen, hend, hq, hstate⟩ | ⟨-, hflags, -⟩
    · exact ⟨n, how, hopen, hend, (h.received_eq hd).trans hq, hstate⟩
    · rw [hc, hd] at hflags
      rcases hflags with hf | hf
      · cases hf
      · cases hf
  · intro hc hs
    refine state_run_ne_failed hc ?_
    rw [hs]
    exact nofun
  · intro hcap hc hd hs n hn ho
    exact h.exists_run_received ⟨hc, hd, h.capacity_eq ▸ hcap⟩ hs hn ho

/-- **Faithful streaming.** Whatever the mode, the room in the queue and the stream, and in
whatever order the loop and its consumer take their steps, the blocks received and those in the
queue are the blocks of the stream in its order, with none left out before the last of them. -/
theorem streams_run (mode : DecodeMode) (capacity : Nat) (items : Nat → Option Delivery)
    (actions : List StreamAction) : Streams mode capacity items ((start mode capacity).run items actions) := by
  have h : Kept mode capacity items (start mode capacity) := kept_start mode capacity items
  exact (h.run actions).streams

end LedgerClient.Streaming
