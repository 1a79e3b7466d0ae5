/-
Every block of a stream can be received.

From wherever a feed stands, steps lead to where the loop is about to read and
the queue is empty (`exists_run_idle`); reading one item and taking its block
leads there again. So a consumer that goes on taking receives all blocks of the
stream, if the queue has room for one.
-/
import LedgerClient.Proofs.Listener.Streaming

namespace LedgerClient.Streaming

variable {mode : DecodeMode} {capacity : Nat} {items : Nat → Option Delivery} {s : Streaming}

/-- Neither cancelled nor dropped, with room for a block. -/
structure Live (s : Streaming) : Prop where
  cancelled_eq : s.feed.cancelled = false
  dropped_eq : s.feed.dropped = false
  capacity_pos : 0 < s.feed.capacity

/-- All that was read has been taken, and the loop is about to read. -/
structure Idle (s : Streaming) : Prop where
  live : s.Live
  phase_eq : s.feed.phase = .reading
  queue_eq : s.feed.queue = []

/-- Taking empties the queue. -/
theorem exists_run_drained (items : Nat → Option Delivery) (s : Streaming) : ∃ actions,
    s.run items actions = { s with feed.queue := [], received := s.received ++ s.feed.queue } := by
  obtain ⟨f, n, queued, received⟩ := s
  induction hq : f.queue generalizing f received with
  | nil =>
    refine ⟨[], ?_⟩
    obtain ⟨mode, capacity, phase, queue, cancelled, dropped⟩ := f
    cases hq
    rw [List.append_nil]
    rfl
  | cons e rest ih =>
    obtain ⟨actions, h⟩ := ih { f with queue := rest } (received ++ [e]) rfl
    refine ⟨.take :: actions, ?_⟩
    have htake : step items ⟨f, n, queued, received⟩ .take =
        ⟨{ f with queue := rest }, n, queued, received ++ [e]⟩ := by
      simp only [step, Feed.take, hq, Option.toList_some]
    show run items (step items ⟨f, n, queued, received⟩ .take) actions = _
    rw [htake, h, List.append_assoc]
    rfl

theorem exists_run_idle (items : Nat → Option Delivery) (hl : s.Live) (hs : s.state = .streaming) :
    ∃ actions, (s.run items actions).Idle ∧ (s.run items actions).read = s.read := by
  obtain ⟨hc, hd, hcap⟩ := hl
  obtain ⟨actions, hdrained⟩ := exists_run_drained items s
  cases hp : s.feed.phase with
  | reading =>
    refine ⟨actions, ?_, ?_⟩
    · rw [hdrained]
      exact ⟨⟨hc, hd, hcap⟩, hp, rfl⟩
    · rw [hdrained]
  | holding e =>
    -- With the queue empty the block goes into it and can be taken.
    obtain ⟨f, n, queued, received⟩ := s
    have hp : f.phase = .holding e := hp
    have hproceed : ({ f with queue := [] } : Feed).proceed = { f with phase := .reading, queue := [e] } := by
      have hstop : ¬ (f.cancelled = true ∨ f.dropped = true) := by
        rw [hc, hd]
        decide
      simp only [Feed.proceed, hp, if_neg hstop, List.length_nil, if_pos hcap, List.nil_append]
    have hfeed : (run items ⟨f, n, queued, received⟩ (actions ++ [.proceed, .take])).feed =
        { f with phase := .reading, queue := [] } := by
      rw [run_append, hdrained]
      show Prod.snd (Feed.take (Feed.proceed { f with queue := [] })) = _
      rw [hproceed]
      rfl
    refine ⟨actions ++ [.proceed, .take], ⟨⟨?_, ?_, ?_⟩, ?_, ?_⟩, ?_⟩
    · rw [hfeed]
      exact hc
    · rw [hfeed]
      exact hd
    · rw [hfeed]
      exact hcap
    · rw [hfeed]
    · rw [hfeed]
    · rw [run_append, hdrained]
      rfl
  | ended how =>
    unfold state Feed.outcome? at hs
    rw [hp] at hs
    cases how with
    | closed => cases hs
    | failed => cases hs

theorem exists_run_next (h : s.Idle) (ho : FeedEnd.ofItem? (items s.read) = none) :
    ∃ actions, (s.run items actions).Idle ∧ (s.run items actions).read = s.read + 1 := by
  obtain ⟨⟨hc, hd, hcap⟩, hp, -⟩ := h
  have hread : (s.step items .read).read = s.read + 1 := read_step_read items hp hc
  have hfeed : (s.step items .read).feed = s.feed.read (items s.read) := rfl
  rw [Feed.read_eq hp hc, ho] at hfeed
  dsimp only at hfeed
  have hlive : (s.step items .read).Live ∧ (s.step items .read).state = .streaming := by
    cases hb : (items s.read).bind s.feed.mode.block? with
    | none =>
      rw [hb] at hfeed
      dsimp only at hfeed
      refine ⟨⟨?_, ?_, ?_⟩, ?_⟩
      · rw [hfeed]
        exact hc
      · rw [hfeed]
        exact hd
      · rw [hfeed]
        exact hcap
      · rw [state, hfeed, Feed.outcome?, hp]
    | some e =>
      rw [hb] at hfeed
      dsimp only at hfeed
      refine ⟨⟨?_, ?_, ?_⟩, ?_⟩
      · rw [hfeed]
        exact hc
      · rw [hfeed]
        exact hd
      · rw [hfeed]
        exact hcap
      · rw [state, hfeed]
        rfl
  obtain ⟨actions, hidle, hrest⟩ := exists_run_idle items hlive.1 hlive.2
  exact ⟨.read :: actions, hidle, hrest.trans hread⟩

/-- Every block can be received. -/
theorem Kept.exists_run_received (h : Kept mode capacity items s) (hl : s.Live) (hs : s.state = .streaming)
    {n : Nat} (hn : s.read ≤ n) (ho : Open items n) :
    ∃ actions, (s.run items actions).received = blocks mode items n := by
  have hidle : ∃ actions, (s.run items actions).Idle ∧ (s.run items actions).read = n := by
    induction hn with
    | refl => exact exists_run_idle items hl hs
    | @step n hn ih =>
      obtain ⟨actions, hidle, hread⟩ := ih fun i hi => ho i (Nat.lt_succ_of_lt hi)
      have hend : FeedEnd.ofItem? (items (s.run items actions).read) = none := by
        rw [hread]
        exact ho n (Nat.lt_succ_self n)
      obtain ⟨actions', hidle', hread'⟩ := exists_run_next hidle hend
      refine ⟨actions ++ actions', ?_, ?_⟩
      · rw [run_append]
        exact hidle'
      · rw [run_append, hread', hread]
  obtain ⟨actions, hidle, hread⟩ := hidle
  have hkept := h.run actions
  have hprogress := hkept.progress
  have hreceived := hkept.received_eq hidle.live.dropped_eq
  rw [hidle.phase_eq] at hprogress
  rw [hidle.queue_eq, List.append_nil] at hreceived
  exact ⟨actions, by rw [hreceived, hprogress.2, hread]⟩

end LedgerClient.Streaming
