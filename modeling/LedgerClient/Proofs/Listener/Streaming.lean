/-
A feed and its consumer, step by step.

The receive loop and the consumer take their steps in any order (`run`); what a
step can do is said once (`Next`). An invariant (`Kept`) ties what was queued
to what was read of the stream: all its blocks but the one that is held, or all
of them at the end of the stream. It holds after every run (`Kept.run`).
-/
import LedgerClient.Listener

namespace LedgerClient

open Protocol

/-! ## Items of a stream -/

/-- How a stream ends with an item: a success closes it, any other status and every failure fails
it, and so does the end of a stream without a status. -/
def FeedEnd.ofItem? : Option Delivery → Option FeedEnd
  | none | some (.error _) => some .failed
  | some (.ok (.status code)) => some (if code = Status.success.code then .closed else .failed)
  | some (.ok (.block _)) | some (.ok (.filteredBlock _)) => none

/-- The block in an item as the consumer is to receive it, unless it is to be skipped. -/
def DecodeMode.block? : DecodeMode → Delivery → Option BlockEvent
  | full, .ok (.block b) => (Block.decode b).toOption.map .full
  | filtered, .ok (.block b) => (Block.filter b).toOption.map .filtered
  | filtered, .ok (.filteredBlock b) => some (.filtered (Block.ofPeerFiltered b))
  | _, _ => none

theorem DecodeMode.react_eq (mode : DecodeMode) (d : Delivery) : mode.react d =
    match FeedEnd.ofItem? (some d) with
    | some how => .stop how
    | none =>
      match mode.block? d with
      | some e => .pass e
      | none => .skip := by
  cases d with
  | error e => rfl
  | ok m =>
    cases m with
    | status code => rfl
    | block b =>
      cases mode with
      | full =>
        simp only [react, FeedEnd.ofItem?, block?]
        cases Block.decode b with
        | ok b => rfl
        | error e => rfl
      | filtered =>
        simp only [react, FeedEnd.ofItem?, block?]
        cases Block.filter b with
        | ok b => rfl
        | error e => rfl
    | filteredBlock b =>
      cases mode with
      | full => rfl
      | filtered => rfl

/-- A loop that reads an item ends with it, holds its block, or goes on to the next. -/
theorem Feed.read_eq {f : Feed} (hp : f.phase = .reading) (hc : f.cancelled = false) (d : Option Delivery) :
    f.read d =
      match FeedEnd.ofItem? d with
      | some how => { f with phase := .ended how }
      | none =>
        match d.bind f.mode.block? with
        | some e => { f with phase := .holding e }
        | none => f := by
  have hn : ¬ f.cancelled = true := by
    rw [hc]
    exact Bool.false_ne_true
  unfold Feed.read
  rw [hp]
  dsimp only
  rw [if_neg hn]
  cases d with
  | none => rfl
  | some d =>
    dsimp only
    rw [DecodeMode.react_eq]
    cases FeedEnd.ofItem? (some d) with
    | some how => rfl
    | none =>
      show _ = match f.mode.block? d with
        | some e => { f with phase := .holding e }
        | none => f
      cases f.mode.block? d with
      | some e => rfl
      | none => rfl

theorem Feed.read_of_ne_reading {f : Feed} (hp : f.phase ≠ .reading) (d : Option Delivery) : f.read d = f := by
  unfold Feed.read
  split
  next h => exact absurd h hp
  next => rfl

/-! ## Steps -/

/-- A step of the receive loop or of the consumer. -/
inductive StreamAction where
  | proceed
  | read
  | take
  | cancel
  | drop

/-- A feed with what has come to pass. -/
structure Streaming where
  feed : Feed
  /-- The number of items read. -/
  read : Nat := 0
  /-- All blocks that have been put into the queue. -/
  queued : List BlockEvent := []
  /-- All blocks that the consumer has taken. -/
  received : List BlockEvent := []

namespace Streaming

variable (mode : DecodeMode) (items : Nat → Option Delivery)

/-- The first `n` items are all there and none of them ends the stream. -/
def Open (n : Nat) : Prop := ∀ i < n, FeedEnd.ofItem? (items i) = none

/-- The blocks among the first `n` items. -/
def blocks : Nat → List BlockEvent
  | 0 => []
  | n + 1 => blocks n ++ ((items n).bind mode.block?).toList

variable {mode items} {capacity : Nat}

theorem Open.succ {n : Nat} (h : Open items n) (hn : FeedEnd.ofItem? (items n) = none) :
    Open items (n + 1) := by
  intro i hi
  rcases Nat.lt_succ_iff_lt_or_eq.1 hi with hi | rfl
  · exact h i hi
  · exact hn

/-- After a step of the loop. -/
def advance (s : Streaming) (f : Feed) : Streaming :=
  { s with feed := f, queued := s.queued ++ f.queue.drop s.feed.queue.length }

/-- Whether the loop is to read the next item. -/
def reads (s : Streaming) : Bool :=
  match s.feed.phase with
  | .reading => !s.feed.cancelled
  | _ => false

theorem reads_of_ne_reading {s : Streaming} (hp : s.feed.phase ≠ .reading) : s.reads = false := by
  unfold reads
  split
  next h => exact absurd h hp
  next => rfl

def step (items : Nat → Option Delivery) (s : Streaming) : StreamAction → Streaming
  | .proceed => s.advance s.feed.proceed
  | .read =>
    { s.advance (s.feed.read (items s.read)) with read := if s.reads then s.read + 1 else s.read }
  | .take => { s with feed := s.feed.take.2, received := s.received ++ s.feed.take.1.toList }
  | .cancel => { s with feed := s.feed.cancel }
  | .drop => { s with feed := s.feed.drop }

/-- A loop that is to read reads the next item. -/
theorem read_step_read {s : Streaming} (items : Nat → Option Delivery) (hp : s.feed.phase = .reading)
    (hc : s.feed.cancelled = false) :
    (s.step items .read).read = s.read + 1 := by
  have hr : s.reads = true := by
    unfold reads
    rw [hp, hc]
    rfl
  exact if_pos hr

/-- After some steps, in the order in which they are taken. -/
def run (items : Nat → Option Delivery) (s : Streaming) (actions : List StreamAction) : Streaming :=
  actions.foldl (step items) s

theorem run_append (s : Streaming) (actions rest : List StreamAction) :
    s.run items (actions ++ rest) = (s.run items actions).run items rest := List.foldl_append

/-- Where a listener with this feed stands. -/
def state (s : Streaming) : ListenerState :=
  match s.feed.outcome? with
  | some how => .ofEnd how
  | none => .streaming

/-- What a step can do. -/
inductive Next (items : Nat → Option Delivery) (s : Streaming) : Streaming → Prop where
  | idle : Next items s s
  | stopped (ho : s.feed.outcome? = none) (hs : s.feed.cancelled = true ∨ s.feed.dropped = true) :
    Next items s { s with feed.phase := .ended .closed }
  | queued (e : BlockEvent) (hp : s.feed.phase = .holding e) (hc : s.feed.cancelled = false)
    (hd : s.feed.dropped = false) (hl : s.feed.queue.length < s.feed.capacity) :
    Next items s { s with feed.phase := .reading, feed.queue := s.feed.queue ++ [e], queued := s.queued ++ [e] }
  | skipped (hp : s.feed.phase = .reading) (he : FeedEnd.ofItem? (items s.read) = none)
    (hb : (items s.read).bind s.feed.mode.block? = none) :
    Next items s { s with read := s.read + 1 }
  | held (e : BlockEvent) (hp : s.feed.phase = .reading) (he : FeedEnd.ofItem? (items s.read) = none)
    (hb : (items s.read).bind s.feed.mode.block? = some e) :
    Next items s { s with read := s.read + 1, feed.phase := .holding e }
  | ended (how : FeedEnd) (hp : s.feed.phase = .reading) (hc : s.feed.cancelled = false)
    (he : FeedEnd.ofItem? (items s.read) = some how) :
    Next items s { s with read := s.read + 1, feed.phase := .ended how }
  | received (e : BlockEvent) (rest : List BlockEvent) (hq : s.feed.queue = e :: rest) :
    Next items s { s with feed.queue := rest, received := s.received ++ [e] }
  | cancelled : Next items s { s with feed := s.feed.cancel }
  | dropped : Next items s { s with feed := s.feed.drop }

theorem advance_eq {s : Streaming} {f : Feed} (h : f.queue = s.feed.queue) :
    s.advance f = { s with feed := f } := by
  rw [advance, h, List.drop_length, List.append_nil]

theorem next_proceed (s : Streaming) : Next items s (s.step items .proceed) := by
  obtain ⟨f, n, queued, received⟩ := s
  show Next items _ (advance ⟨f, n, queued, received⟩ f.proceed)
  cases hp : f.phase with
  | ended how =>
    have hf : f.proceed = f := by simp only [Feed.proceed, hp]
    rw [hf, advance_eq (by rfl)]
    exact .idle
  | reading =>
    by_cases hc : f.cancelled = true
    · have hf : f.proceed = { f with phase := .ended .closed } := by simp only [Feed.proceed, hp, hc, if_true]
      rw [hf, advance_eq (by rfl)]
      exact .stopped (by simp only [Feed.outcome?, hp]) (.inl hc)
    · have hf : f.proceed = f := by simp only [Feed.proceed, hp, if_neg hc]
      rw [hf, advance_eq (by rfl)]
      exact .idle
  | holding e =>
    by_cases hs : f.cancelled = true ∨ f.dropped = true
    · have hf : f.proceed = { f with phase := .ended .closed } := by simp only [Feed.proceed, hp, if_pos hs]
      rw [hf, advance_eq (by rfl)]
      exact .stopped (by simp only [Feed.outcome?, hp]) hs
    · by_cases hl : f.queue.length < f.capacity
      · have hf : f.proceed = { f with phase := .reading, queue := f.queue ++ [e] } := by
          simp only [Feed.proceed, hp, if_neg hs, if_pos hl]
        rw [not_or, Bool.not_eq_true, Bool.not_eq_true] at hs
        rw [hf, advance, List.drop_left]
        exact .queued e hp hs.1 hs.2 hl
      · have hf : f.proceed = f := by simp only [Feed.proceed, hp, if_neg hs, if_neg hl]
        rw [hf, advance_eq (by rfl)]
        exact .idle

theorem next_read (s : Streaming) : Next items s (s.step items .read) := by
  obtain ⟨f, n, queued, received⟩ := s
  show Next items _ { advance ⟨f, n, queued, received⟩ (f.read (items n)) with
    read := if reads ⟨f, n, queued, received⟩ then n + 1 else n }
  by_cases hp : f.phase = .reading
  · by_cases hc : f.cancelled = true
    · have hf : f.read (items n) = { f with phase := .ended .closed } := by
        simp only [Feed.read, hp, hc, if_true]
      rw [hf, advance_eq (by rfl)]
      have hr : reads ⟨f, n, queued, received⟩ = false := by simp only [reads, hp, hc, Bool.not_true]
      rw [hr]
      exact .stopped (by simp only [Feed.outcome?, hp]) (.inl hc)
    · rw [Bool.not_eq_true] at hc
      have hr : reads ⟨f, n, queued, received⟩ = true := by simp only [reads, hp, hc, Bool.not_false]
      rw [if_pos hr, Feed.read_eq hp hc]
      cases he : FeedEnd.ofItem? (items n) with
      | some how =>
        rw [advance_eq (by rfl)]
        exact .ended how hp hc he
      | none =>
        cases hb : (items n).bind f.mode.block? with
        | some e =>
          rw [advance_eq (by rfl)]
          exact .held e hp he hb
        | none =>
          rw [advance_eq (by rfl)]
          exact .skipped hp he hb
  · rw [Feed.read_of_ne_reading hp, reads_of_ne_reading hp, advance_eq (by rfl)]
    exact .idle

theorem next_step (s : Streaming) (a : StreamAction) : Next items s (s.step items a) := by
  cases a with
  | proceed => exact next_proceed s
  | read => exact next_read s
  | take =>
    obtain ⟨f, n, queued, received⟩ := s
    cases hq : f.queue with
    | nil =>
      have hf : f.take = (none, f) := by simp only [Feed.take, hq]
      simp only [step, hf, Option.toList_none, List.append_nil]
      exact .idle
    | cons e rest =>
      have hf : f.take = (some e, { f with queue := rest }) := by simp only [Feed.take, hq]
      simp only [step, hf, Option.toList_some]
      exact .received e rest hq
  | cancel => exact .cancelled
  | drop => exact .dropped

/-! ## What every run keeps -/

/-- What has been queued, given what has been read and where the loop stands. -/
def Progress (mode : DecodeMode) (items : Nat → Option Delivery) (s : Streaming) : FeedPhase → Prop
  | .reading => Open items s.read ∧ s.queued = blocks mode items s.read
  | .holding e => Open items s.read ∧ s.queued ++ [e] = blocks mode items s.read
  | .ended how =>
    (∃ n, s.read = n + 1 ∧ Open items n ∧ FeedEnd.ofItem? (items n) = some how ∧
      s.queued = blocks mode items n) ∨
      Open items s.read ∧ s.queued <+: blocks mode items s.read ∧ how = .closed ∧
        (s.feed.cancelled = true ∨ s.feed.dropped = true)

/-- A cancellation and a drop leave it as it is. -/
theorem Progress.of_flags {s s' : Streaming} {phase : FeedPhase} (h : Progress mode items s phase)
    (hr : s'.read = s.read) (hq : s'.queued = s.queued)
    (hf : s.feed.cancelled = true ∨ s.feed.dropped = true → s'.feed.cancelled = true ∨ s'.feed.dropped = true) :
    Progress mode items s' phase := by
  cases phase with
  | reading =>
    unfold Progress
    rw [hr, hq]
    exact h
  | holding e =>
    unfold Progress
    rw [hr, hq]
    exact h
  | ended how =>
    unfold Progress
    rw [hr, hq]
    rcases h with hend | ⟨hopen, hpre, hhow, hs⟩
    · exact .inl hend
    · exact .inr ⟨hopen, hpre, hhow, hf hs⟩

structure Kept (mode : DecodeMode) (capacity : Nat) (items : Nat → Option Delivery) (s : Streaming) : Prop where
  mode_eq : s.feed.mode = mode
  capacity_eq : s.feed.capacity = capacity
  progress : Progress mode items s s.feed.phase
  received_prefix : s.received ++ s.feed.queue <+: s.queued
  received_eq : s.feed.dropped = false → s.received ++ s.feed.queue = s.queued
  length_le : s.feed.queue.length ≤ s.feed.capacity

theorem Kept.next {s s' : Streaming} (h : Kept mode capacity items s) (hn : Next items s s') :
    Kept mode capacity items s' := by
  have hprogress := h.progress
  cases hn with
  | idle => exact h
  | stopped ho hs =>
    refine ⟨h.mode_eq, h.capacity_eq, .inr ?_, h.received_prefix, h.received_eq, h.length_le⟩
    cases hp : s.feed.phase with
    | reading =>
      rw [hp] at hprogress
      refine ⟨hprogress.1, ?_, rfl, hs⟩
      exact hprogress.2 ▸ List.prefix_rfl
    | holding e =>
      rw [hp] at hprogress
      refine ⟨hprogress.1, ?_, rfl, hs⟩
      show s.queued <+: blocks mode items s.read
      rw [← hprogress.2]
      exact List.prefix_append s.queued [e]
    | ended how =>
      rw [Feed.outcome?, hp] at ho
      cases ho
  | queued e hp hc hd hl =>
    rw [hp] at hprogress
    have heq : s.received ++ (s.feed.queue ++ [e]) = s.queued ++ [e] := by
      rw [← List.append_assoc, h.received_eq hd]
    refine ⟨h.mode_eq, h.capacity_eq, hprogress, ?_, fun _ => heq, ?_⟩
    · show s.received ++ (s.feed.queue ++ [e]) <+: s.queued ++ [e]
      exact heq ▸ List.prefix_rfl
    · show (s.feed.queue ++ [e]).length ≤ s.feed.capacity
      rw [List.length_append]
      exact hl
  | skipped hp he hb =>
    rw [hp] at hprogress
    refine ⟨h.mode_eq, h.capacity_eq, ?_, h.received_prefix, h.received_eq, h.length_le⟩
    show Progress mode items _ s.feed.phase
    rw [hp]
    refine ⟨hprogress.1.succ he, ?_⟩
    show s.queued = blocks mode items (s.read + 1)
    rw [h.mode_eq] at hb
    rw [blocks, hb, Option.toList_none, List.append_nil]
    exact hprogress.2
  | held e hp he hb =>
    rw [hp] at hprogress
    refine ⟨h.mode_eq, h.capacity_eq, ⟨hprogress.1.succ he, ?_⟩, h.received_prefix, h.received_eq, h.length_le⟩
    show s.queued ++ [e] = blocks mode items (s.read + 1)
    rw [h.mode_eq] at hb
    rw [blocks, hb, Option.toList_some, hprogress.2]
  | ended how hp hc he =>
    rw [hp] at hprogress
    exact ⟨h.mode_eq, h.capacity_eq, .inl ⟨s.read, rfl, hprogress.1, he, hprogress.2⟩, h.received_prefix,
      h.received_eq, h.length_le⟩
  | received e rest hq =>
    have heq : s.received ++ [e] ++ rest = s.received ++ s.feed.queue := by
      rw [hq, List.append_assoc]
      rfl
    refine ⟨h.mode_eq, h.capacity_eq, h.progress, ?_, fun hd => heq.trans (h.received_eq hd), ?_⟩
    · show s.received ++ [e] ++ rest <+: s.queued
      rw [heq]
      exact h.received_prefix
    · have hl := h.length_le
      rw [hq] at hl
      exact Nat.le_of_succ_le hl
  | cancelled =>
    exact ⟨h.mode_eq, h.capacity_eq, hprogress.of_flags rfl rfl fun _ => .inl rfl, h.received_prefix,
      h.received_eq, h.length_le⟩
  | dropped =>
    refine ⟨h.mode_eq, h.capacity_eq, hprogress.of_flags rfl rfl fun _ => .inr rfl, ?_, nofun, Nat.zero_le _⟩
    show s.received ++ [] <+: s.queued
    rw [List.append_nil]
    exact (List.prefix_append s.received s.feed.queue).trans h.received_prefix

/-- Once cancelled or dropped, always so, and nothing is queued any more. -/
theorem Next.queued_eq {s s' : Streaming} (hn : Next items s s')
    (hs : s.feed.cancelled = true ∨ s.feed.dropped = true) :
    s'.queued = s.queued ∧ (s'.feed.cancelled = true ∨ s'.feed.dropped = true) := by
  cases hn with
  | idle | stopped | skipped | held | ended | received => exact ⟨rfl, hs⟩
  | queued e hp hc hd =>
    rw [hc, hd] at hs
    rcases hs with hs | hs
    · cases hs
    · cases hs
  | cancelled => exact ⟨rfl, .inl rfl⟩
  | dropped => exact ⟨rfl, .inr rfl⟩

/-- A cancelled feed does not fail. -/
theorem Next.state_ne_failed {s s' : Streaming} (hn : Next items s s') (hc : s.feed.cancelled = true)
    (hs : s.state ≠ .failed) : s'.feed.cancelled = true ∧ s'.state ≠ .failed := by
  cases hn with
  | idle | skipped | received | dropped => exact ⟨hc, hs⟩
  | cancelled => exact ⟨rfl, hs⟩
  | stopped => exact ⟨hc, nofun⟩
  | held => exact ⟨hc, nofun⟩
  | queued e hp hc' =>
    rw [hc] at hc'
    cases hc'
  | ended how hp hc' =>
    rw [hc] at hc'
    cases hc'

/-- What has ended stays as it has ended. -/
theorem Next.state_eq {s s' : Streaming} (hn : Next items s s') (hs : s.state ≠ .streaming) :
    s'.state = s.state := by
  cases hn with
  | idle | skipped | received | cancelled | dropped => rfl
  | stopped ho =>
    unfold state at hs
    rw [ho] at hs
    exact absurd rfl hs
  | queued e hp | held e hp | ended _ hp =>
    unfold state Feed.outcome? at hs
    rw [hp] at hs
    exact absurd rfl hs

variable {s : Streaming}

theorem Kept.run (h : Kept mode capacity items s) (actions : List StreamAction) :
    Kept mode capacity items (s.run items actions) := by
  induction actions generalizing s with
  | nil => exact h
  | cons a rest ih => exact ih (h.next (next_step s a))

theorem queued_run (hs : s.feed.cancelled = true ∨ s.feed.dropped = true) (actions : List StreamAction) :
    (s.run items actions).queued = s.queued := by
  induction actions generalizing s with
  | nil => rfl
  | cons a rest ih =>
    obtain ⟨hq, hs'⟩ := (next_step s a).queued_eq hs
    exact (ih hs').trans hq

theorem state_run_ne_failed (hc : s.feed.cancelled = true) (hs : s.state ≠ .failed)
    (actions : List StreamAction) :
    (s.run items actions).state ≠ .failed := by
  induction actions generalizing s with
  | nil => exact hs
  | cons a rest ih =>
    obtain ⟨hc', hs'⟩ := (next_step s a).state_ne_failed hc hs
    exact ih hc' hs'

theorem state_run (hs : s.state ≠ .streaming) (actions : List StreamAction) :
    (s.run items actions).state = s.state := by
  induction actions generalizing s with
  | nil => rfl
  | cons a rest ih =>
    have h : (s.step items a).state = s.state := (next_step s a).state_eq hs
    exact (ih (h ▸ hs)).trans h

/-- What is queued comes from a part of the stream that has no end in it. -/
theorem Kept.exists_queued_prefix (h : Kept mode capacity items s) :
    ∃ n, Open items n ∧ s.queued <+: blocks mode items n := by
  have hprogress := h.progress
  cases hp : s.feed.phase with
  | reading =>
    rw [hp] at hprogress
    exact ⟨s.read, hprogress.1, hprogress.2 ▸ List.prefix_rfl⟩
  | holding e =>
    rw [hp] at hprogress
    exact ⟨s.read, hprogress.1, hprogress.2 ▸ List.prefix_append s.queued [e]⟩
  | ended how =>
    rw [hp] at hprogress
    rcases hprogress with ⟨n, -, hopen, -, hq⟩ | ⟨hopen, hpre, -⟩
    · exact ⟨n, hopen, hq ▸ List.prefix_rfl⟩
    · exact ⟨s.read, hopen, hpre⟩

theorem exists_of_state_ne (h : s.state ≠ .streaming) :
    ∃ how, s.feed.phase = .ended how ∧ s.state = .ofEnd how := by
  unfold state Feed.outcome? at h ⊢
  cases hp : s.feed.phase with
  | reading =>
    rw [hp] at h
    exact absurd rfl h
  | holding e =>
    rw [hp] at h
    exact absurd rfl h
  | ended how => exact ⟨how, rfl, rfl⟩

theorem Kept.ended (h : Kept mode capacity items s) (hs : s.state ≠ .streaming) :
    (∃ n how, s.read = n + 1 ∧ Open items n ∧ FeedEnd.ofItem? (items n) = some how ∧
      s.queued = blocks mode items n ∧ s.state = .ofEnd how) ∨
    Open items s.read ∧ (s.feed.cancelled = true ∨ s.feed.dropped = true) ∧ s.state = .closed := by
  have hprogress := h.progress
  obtain ⟨how, hp, hstate⟩ := exists_of_state_ne hs
  rw [hp] at hprogress
  rcases hprogress with ⟨n, hread, hopen, hend, hq⟩ | ⟨hopen, -, rfl, hflags⟩
  · exact .inl ⟨n, how, hread, hopen, hend, hq, hstate⟩
  · exact .inr ⟨hopen, hflags, hstate⟩

/-! ## The start -/

/-- A feed at its start. -/
def start (mode : DecodeMode) (capacity : Nat) : Streaming := { feed := { mode, capacity } }

theorem kept_start (mode : DecodeMode) (capacity : Nat) (items : Nat → Option Delivery) :
    Kept mode capacity items (start mode capacity) := by
  have hopen : Open items 0 := fun i hi => absurd hi (Nat.not_lt_zero i)
  exact ⟨rfl, rfl, ⟨hopen, rfl⟩, List.prefix_rfl, fun _ => rfl, Nat.zero_le capacity⟩

end Streaming

end LedgerClient
