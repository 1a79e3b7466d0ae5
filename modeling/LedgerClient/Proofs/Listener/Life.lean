/-
The life of a listener.

Its owner seeks, listens, cancels and waits for the end, in any order and as
often as it likes. Between the calls the receive loop takes its own steps, time
passes in the session, and the consumer takes blocks or gives the queue up
(`Goes`); to let a listener run is to take such steps (`reaches_runFor`). The
loop reports how it ended in a step of its own, so that a listener whose loop
has ended may still count as streaming.
-/
import LedgerClient.Proofs.Listener.Calls
import LedgerClient.Proofs.Listener.Schedule

namespace LedgerClient

open Protocol

namespace Feed

variable {f : Feed} {how : FeedEnd}

theorem phase_of_outcome? (h : f.outcome? = some how) : f.phase = .ended how := by
  unfold outcome? at h
  split at h
  next how' hp =>
    cases h
    exact hp
  next => cases h

theorem proceed_of_outcome? (h : f.outcome? = some how) : f.proceed = f := by
  unfold proceed
  rw [phase_of_outcome? h]

theorem outcome?_take (f : Feed) : f.take.2.outcome? = f.outcome? := by
  unfold take
  split
  next => rfl
  next => rfl

end Feed

namespace Listener

/-! ## Steps -/

/-- The blocks to ask for. -/
inductive Range where
  | newest
  | between (start stop : UInt64)

namespace Range

/-- The seek for these blocks. -/
def seek (r : Range) (l : Listener) (stamp : Stamp) : Except ClientError Listener :=
  match r with
  | newest => l.seekNewest stamp
  | between start stop => l.seekRange stamp start stop

def start : Range → SeekPosition
  | newest => .newest
  | between start _ => .specified start

def stop : Range → SeekPosition
  | newest => .specified 0xFFFFFFFFFFFFFFFF
  | between _ stop => .specified stop

end Range

inductive Call where
  | seek (r : Range)
  | listen
  | cancel
  | finished

/-- What happens in the life of a listener. -/
inductive Event where
  /-- A call has run to its end, with all that it asked for on the way. -/
  | called (c : Call) (result : Except ClientError Unit) (log : List Exchange)
  /-- Something else has gone on. -/
  | went

/-- The number of sessions asked for. -/
def Event.sessions : Event → Nat
  | called _ _ log => log.countP Exchange.isSeek
  | went => 0

/-- What goes on without a call. -/
inductive Goes (l : Listener) : Listener → Prop where
  | proceed (f : Feed) (hf : l.feed = some f) : Goes l { l with feed := some f.proceed }
  | read (f : Feed) (hf : l.feed = some f) (hp : f.phase = .reading) (d : Delivery) (rest : Session)
    (hs : l.session = .item d rest) : Goes l { l with feed := some (f.read (some d)), session := rest }
  | closed (f : Feed) (hf : l.feed = some f) (hp : f.phase = .reading) (hs : l.session = .finish) :
    Goes l { l with feed := some (f.read none) }
  | passed (time part : Duration) (rest : Session) (hs : l.session = .pause time rest) (hle : part ≤ time) :
    Goes l { l with session := .pause (time - part) rest }
  | waited (time : Duration) (rest : Session) (hs : l.session = .pause time rest) :
    Goes l { l with session := rest }
  /-- The loop has ended, and the listener takes note of how. -/
  | reported (f : Feed) (hf : l.feed = some f) (how : FeedEnd) (ho : f.outcome? = some how) :
    Goes l { l with state := .ofEnd how }
  | taken : Goes l l.take.2
  | dropped : Goes l l.drop

/-- The receive loop, if there is one, has ended and reported. -/
def Finished (l : Listener) : Prop := ∀ f, l.feed = some f → ∃ how, f.outcome? = some how ∧ l.state = .ofEnd how

/-- One step in the life of a listener. -/
inductive Step (l : Listener) : Event → Listener → Prop where
  | sought (r : Range) (stamp : Stamp) {l' : Listener} (h : r.seek l stamp = .ok l') :
    Step l (.called (.seek r) (.ok ()) [.stamp stamp]) l'
  | unsought (r : Range) (stamp : Stamp) {e : ClientError} (h : r.seek l stamp = .error e) :
    Step l (.called (.seek r) (.error e) []) l
  | listened {result : Except ClientError Unit} {l' : Listener} {log : List Exchange}
    (h : Dialogue.Runs l.listen (result, l') log) : Step l (.called .listen result log) l'
  | cancelled : Step l (.called .cancel (.ok ()) []) l.cancel
  | finished (h : l.Finished) : Step l (.called .finished (.ok ()) []) l
  | went {l' : Listener} (h : l.Goes l') : Step l .went l'

/-- A part of a life, event by event. -/
inductive Lives : Listener → List Event → Listener → Prop where
  | nil (l : Listener) : Lives l [] l
  | cons {l l' l'' : Listener} {e : Event} {events : List Event} (h : Step l e l') (hs : Lives l' events l'') :
    Lives l (e :: events) l''

variable {l l' : Listener}

theorem Lives.single {e : Event} (h : Step l e l') : Lives l [e] l' := .cons h (.nil l')

theorem Lives.append {l'' : Listener} {events events' : List Event} (h : Lives l events l')
    (h' : Lives l' events' l'') : Lives l (events ++ events') l'' := by
  induction h with
  | nil l => exact h'
  | cons hstep _ ih => exact .cons hstep (ih h')

/-- Some steps without a call lead from one listener to the other. -/
def Reaches (l l' : Listener) : Prop := ∃ events, (∀ e ∈ events, e = .went) ∧ Lives l events l'

theorem Reaches.refl (l : Listener) : l.Reaches l := ⟨[], nofun, .nil l⟩

theorem Goes.reaches (h : l.Goes l') : l.Reaches l' :=
  ⟨[.went], fun _ he => List.mem_singleton.1 he, .single (.went h)⟩

theorem Reaches.trans {l'' : Listener} (h : l.Reaches l') (h' : l'.Reaches l'') : l.Reaches l'' := by
  obtain ⟨events, hevents, hlives⟩ := h
  obtain ⟨events', hevents', hlives'⟩ := h'
  refine ⟨events ++ events', fun e he => ?_, hlives.append hlives'⟩
  exact (List.mem_append.1 he).elim (hevents e) (hevents' e)

theorem reaches_proceed (l : Listener) (f : Feed) (session : Session) :
    Reaches { l with feed := some f, session } { l with feed := some f.proceed, session } :=
  (Goes.proceed f rfl).reaches

theorem reaches_feed_runFor (l : Listener) (session : Session) : ∀ (f : Feed) (time : Duration),
    Reaches { l with feed := some f, session }
      { l with feed := some (f.runFor time session).1, session := (f.runFor time session).2 } := by
  induction session with
  | silence =>
    intro f time
    rw [Feed.runFor_silence]
    exact reaches_proceed l f .silence
  | finish =>
    intro f time
    by_cases hp : f.proceed.phase = .reading
    · simp only [Feed.runFor, hp]
      exact (reaches_proceed l f .finish).trans (Goes.closed f.proceed rfl hp rfl).reaches
    · rw [Feed.runFor_of_ne_reading hp]
      exact reaches_proceed l f .finish
  | pause wait rest ih =>
    intro f time
    by_cases hp : f.proceed.phase = .reading
    · simp only [Feed.runFor, hp]
      refine (reaches_proceed l f (.pause wait rest)).trans ?_
      by_cases hle : wait ≤ time
      · rw [if_pos hle]
        exact (Goes.waited wait rest rfl).reaches.trans (ih f.proceed (time - wait))
      · rw [if_neg hle]
        exact (Goes.passed wait time rest rfl (Nat.le_of_not_le hle)).reaches
    · rw [Feed.runFor_of_ne_reading hp]
      exact reaches_proceed l f (.pause wait rest)
  | item d rest ih =>
    intro f time
    by_cases hp : f.proceed.phase = .reading
    · simp only [Feed.runFor, hp]
      refine (reaches_proceed l f (.item d rest)).trans ?_
      exact (Goes.read f.proceed rfl hp d rest rfl).reaches.trans (ih (f.proceed.read (some d)) time)
    · rw [Feed.runFor_of_ne_reading hp]
      exact reaches_proceed l f (.item d rest)

/-- To let a listener run for a time takes steps without a call. -/
theorem reaches_runFor (l : Listener) (time : Duration) : l.Reaches (l.runFor time) := by
  unfold runFor
  split
  next => exact .refl l
  next f hf =>
    have hl : { l with feed := some f, session := l.session } = l := by rw [← hf]
    have hrun := reaches_feed_runFor l l.session f time
    rw [hl] at hrun
    dsimp only
    cases ho : (f.runFor time l.session).1.outcome? with
    | none => exact hrun
    | some how => exact hrun.trans (Goes.reported _ rfl how ho).reaches

/-! ## Calls -/

theorem Range.seek_eq_ok (r : Range) (hs : l.state = .created) (stamp : Stamp) :
    r.seek l stamp = .ok (l.sought stamp r.start r.stop) := by
  cases r with
  | newest => exact Listener.seek_eq_ok hs stamp _ _
  | between start stop => exact Listener.seek_eq_ok hs stamp _ _

theorem Range.seek_eq_error (r : Range) (hs : l.state ≠ .created) (stamp : Stamp) :
    r.seek l stamp = .error (.invalidOperation (.wrongState "seek" "Created" l.state.name)) := by
  cases r with
  | newest => exact Listener.seek_eq_error hs stamp _ _
  | between start stop => exact Listener.seek_eq_error hs stamp _ _

/-- A seek signs a request where nothing has been sought yet, and is refused otherwise. -/
inductive Seeks (l : Listener) (r : Range) : Except ClientError Unit → List Exchange → Listener → Prop where
  | signed (hs : l.state = .created) (stamp : Stamp) :
    Seeks l r (.ok ()) [.stamp stamp] (l.sought stamp r.start r.stop)
  | refused (hs : l.state ≠ .created) :
    Seeks l r (.error (.invalidOperation (.wrongState "seek" "Created" l.state.name))) [] l

theorem Step.seeks {r : Range} {result : Except ClientError Unit} {log : List Exchange}
    (h : Step l (.called (.seek r) result log) l') : l.Seeks r result log l' := by
  cases h with
  | sought r stamp h =>
    by_cases hs : l.state = .created
    · cases (r.seek_eq_ok hs stamp).symm.trans h
      exact .signed hs stamp
    · cases (r.seek_eq_error hs stamp).symm.trans h
  | unsought r stamp h =>
    by_cases hs : l.state = .created
    · cases (r.seek_eq_ok hs stamp).symm.trans h
    · cases (r.seek_eq_error hs stamp).symm.trans h
      exact .refused hs

/-- In any world, every call but that which waits for the end can be made at any time. -/
theorem exists_step {σ : Type} (w : World σ) (s : σ) (l : Listener) {c : Call} (hc : c ≠ .finished) :
    ∃ result log l', Step l (.called c result log) l' := by
  cases c with
  | seek r =>
    by_cases hs : l.state = .created
    · exact ⟨_, _, _, .sought r (w.stamp s).1 (r.seek_eq_ok hs _)⟩
    · exact ⟨_, _, _, .unsought r (w.stamp s).1 (r.seek_eq_error hs _)⟩
  | listen => exact ⟨_, _, _, .listened (l.listen.runs_transcript w s)⟩
  | cancel => exact ⟨_, _, _, .cancelled⟩
  | finished => exact absurd rfl hc

end Listener

end LedgerClient
