/-
The stages of a listener's life.

They tie the state to the request, the feed and the number of sessions asked
for (`Stage`). Each step leads from stage to stage (`Stage.step`), and what it
does to the state is read off there (`Stage.change`). So whatever the life has
been (`lifelong`), a call out of turn is refused, and the session that a
listener has is the only one it ever asks for.
-/
import LedgerClient.Proofs.Listener.Life

namespace LedgerClient.Listener

open Protocol

variable {l l' : Listener}

/-! ## Between the calls -/

/-- What goes on without a call leaves the request as it is. The state changes only where the loop
has ended, and a loop that has ended stays so. -/
structure Stays (l l' : Listener) : Prop where
  request_eq : l'.request = l.request
  signer_eq : l'.signer = l.signer
  channelId_eq : l'.channelId = l.channelId
  state : l'.state = l.state ∨ ∃ f how, l.feed = some f ∧ f.outcome? = some how ∧ l'.state = .ofEnd how
  feed_none : l.feed = none → l'.feed = none
  feed_some : ∀ f, l.feed = some f →
    ∃ f', l'.feed = some f' ∧ ∀ how, f.outcome? = some how → f'.outcome? = some how

theorem Stays.of_feed {f f' : Feed} {session : Session} (hf : l.feed = some f)
    (h : ∀ how, f.outcome? = some how → f'.outcome? = some how) :
    Stays l { l with feed := some f', session := session } := by
  refine ⟨rfl, rfl, rfl, .inl rfl, fun hn => ?_, fun f'' hf'' => ?_⟩
  · rw [hf] at hn
    cases hn
  · rw [hf] at hf''
    cases hf''
    exact ⟨f', rfl, h⟩

theorem Stays.of_session (l : Listener) (session : Session) : Stays l { l with session } :=
  ⟨rfl, rfl, rfl, .inl rfl, id, fun f hf => ⟨f, hf, fun _ => id⟩⟩

theorem Goes.stays (h : l.Goes l') : Stays l l' := by
  cases h with
  | proceed f hf =>
    refine .of_feed hf fun how ho => ?_
    rw [Feed.proceed_of_outcome? ho, ho]
  | read f hf hp d rest hs =>
    refine .of_feed hf fun how ho => ?_
    cases hp.symm.trans (Feed.phase_of_outcome? ho)
  | closed f hf hp hs =>
    refine .of_feed hf fun how ho => ?_
    cases hp.symm.trans (Feed.phase_of_outcome? ho)
  | passed | waited => exact .of_session l _
  | reported f hf how ho =>
    exact ⟨rfl, rfl, rfl, .inr ⟨f, how, hf, ho, rfl⟩, id, fun f' hf' => ⟨f', hf', fun _ => id⟩⟩
  | taken =>
    unfold take
    split
    next => exact .of_session l l.session
    next f hf =>
      refine .of_feed hf fun how ho => ?_
      rw [Feed.outcome?_take, ho]
  | dropped =>
    refine ⟨rfl, rfl, rfl, .inl rfl, fun hn => ?_, fun f hf => ?_⟩
    · exact congrArg (Option.map Feed.drop) hn
    · exact ⟨f.drop, congrArg (Option.map Feed.drop) hf, fun _ => id⟩

/-! ## Stages -/

/-- The stages of a life, with the number of sessions asked for so far. -/
inductive Stage (l : Listener) : Nat → Prop where
  | created (hs : l.state = .created) (hr : l.request = none) (hf : l.feed = none) : Stage l 0
  | seeking (hs : l.state = .seeking) (stamp : Stamp) (start stop : SeekPosition)
    (hr : l.request = some (l.signer.seek stamp l.channelId start stop)) (hf : l.feed = none) : Stage l 0
  /-- The session could not be opened. -/
  | unopened (hs : l.state = .failed) (hr : l.request = none) (hf : l.feed = none) : Stage l 1
  | streaming (hs : l.state = .streaming) (hr : l.request = none) (f : Feed) (hf : l.feed = some f) : Stage l 1
  | ended (how : FeedEnd) (hs : l.state = .ofEnd how) (hr : l.request = none) (f : Feed) (hf : l.feed = some f)
    (ho : f.outcome? = some how) : Stage l 1

theorem Stage.stays {n : Nat} (h : l.Stage n) (hs : Stays l l') : l'.Stage n := by
  obtain ⟨hrequest, hsigner, hchannel, hstate, hnone, hsome⟩ := hs
  -- Without a feed there is nothing that could change the state.
  have hkeep : l.feed = none → l'.state = l.state := by
    intro hf
    rcases hstate with hstate | ⟨f, how, hf', -⟩
    · exact hstate
    · cases hf.symm.trans hf'
  cases h with
  | created hs hr hf => exact .created ((hkeep hf).trans hs) (hrequest.trans hr) (hnone hf)
  | seeking hs stamp start stop hr hf =>
    refine .seeking ((hkeep hf).trans hs) stamp start stop ?_ (hnone hf)
    rw [hrequest, hsigner, hchannel, hr]
  | unopened hs hr hf => exact .unopened ((hkeep hf).trans hs) (hrequest.trans hr) (hnone hf)
  | streaming hs hr f hf =>
    obtain ⟨f', hf', houtcome⟩ := hsome f hf
    rcases hstate with hstate | ⟨_, how, hf'', ho, hend⟩
    · exact .streaming (hstate.trans hs) (hrequest.trans hr) f' hf'
    · cases hf.symm.trans hf''
      exact .ended how hend (hrequest.trans hr) f' hf' (houtcome how ho)
  | ended how hs hr f hf ho =>
    obtain ⟨f', hf', houtcome⟩ := hsome f hf
    refine .ended how ?_ (hrequest.trans hr) f' hf' (houtcome how ho)
    rcases hstate with hstate | ⟨_, how', hf'', ho', hend⟩
    · exact hstate.trans hs
    · cases hf.symm.trans hf''
      cases ho.symm.trans ho'
      exact hend

theorem Stage.cancel {n : Nat} (h : l.Stage n) : l.cancel.Stage n := by
  cases h with
  | created hs hr hf => exact .created hs hr (congrArg (Option.map Feed.cancel) hf)
  | seeking hs stamp start stop hr hf =>
    exact .seeking hs stamp start stop hr (congrArg (Option.map Feed.cancel) hf)
  | unopened hs hr hf => exact .unopened hs hr (congrArg (Option.map Feed.cancel) hf)
  | streaming hs hr f hf => exact .streaming hs hr f.cancel (congrArg (Option.map Feed.cancel) hf)
  | ended how hs hr f hf ho => exact .ended how hs hr f.cancel (congrArg (Option.map Feed.cancel) hf) ho

theorem Stage.of_created {n : Nat} (h : l.Stage n) (hs : l.state = .created) : n = 0 ∧ l.feed = none := by
  cases h with
  | created _ _ hf => exact ⟨rfl, hf⟩
  | seeking hs' => cases hs.symm.trans hs'
  | unopened hs' => cases hs.symm.trans hs'
  | streaming hs' => cases hs.symm.trans hs'
  | ended how hs' => cases how <;> cases hs.symm.trans hs'

/-- A listener that is seeking has a signed request, and has asked for no session yet. -/
theorem Stage.of_seeking {n : Nat} (h : l.Stage n) (hs : l.state = .seeking) : n = 0 ∧ l.feed = none ∧
    ∃ stamp start stop, l.request = some (l.signer.seek stamp l.channelId start stop) := by
  cases h with
  | created hs' => cases hs.symm.trans hs'
  | seeking _ stamp start stop hr hf => exact ⟨rfl, hf, stamp, start, stop, hr⟩
  | unopened hs' => cases hs.symm.trans hs'
  | streaming hs' => cases hs.symm.trans hs'
  | ended how hs' => cases how <;> cases hs.symm.trans hs'

/-- No other listener has a request. -/
theorem Stage.request_eq_none {n : Nat} (h : l.Stage n) (hs : l.state ≠ .seeking) : l.request = none := by
  cases h with
  | created _ hr => exact hr
  | seeking hs' => exact absurd hs' hs
  | unopened _ hr => exact hr
  | streaming _ hr => exact hr
  | ended _ _ hr => exact hr

theorem Stage.le_one {n : Nat} (h : l.Stage n) : n ≤ 1 := by
  cases h with
  | created | seeking => exact Nat.zero_le 1
  | unopened | streaming | ended => exact Nat.le_refl 1

/-- Listening asks for one session where a request is signed, and is refused otherwise. -/
inductive Opens (l : Listener) : Except ClientError Unit → List Exchange → Listener → Prop where
  | asked (hs : l.state = .seeking) (request : Envelope) (hr : l.request = some request)
    (answer : Except ClientError Session) :
    Opens l (l.opened answer).1 [.seek l.source request answer] (l.opened answer).2
  | refused (hs : l.state ≠ .seeking) :
    Opens l (.error (.invalidOperation (.wrongState "listen" "Seeking" l.state.name))) [] l

theorem Stage.opens {n : Nat} (h : l.Stage n) {result : Except ClientError Unit} {log : List Exchange}
    (hstep : Step l (.called .listen result log) l') : l.Opens result log l' := by
  cases hstep with
  | listened hruns =>
    cases listens_of_runs hruns with
    | refused hs => exact .refused hs
    | unsought hs hr =>
      -- A listener that is seeking has a request.
      obtain ⟨-, -, stamp, start, stop, hr'⟩ := h.of_seeking hs
      cases hr.symm.trans hr'
    | failed hs request hr e => exact .asked hs request hr (.error e)
    | opened hs request hr session => exact .asked hs request hr (.ok session)

theorem Stage.step {e : Event} {n : Nat} (h : l.Stage n) (hstep : Step l e l') :
    l'.Stage (e.sessions + n) := by
  cases e with
  | called c result log =>
    cases c with
    | seek r =>
      cases hstep.seeks with
      | signed hs stamp =>
        obtain ⟨rfl, hf⟩ := h.of_created hs
        exact .seeking rfl stamp r.start r.stop rfl hf
      | refused => exact (Nat.zero_add n).symm ▸ h
    | listen =>
      cases h.opens hstep with
      | asked hs request hr answer =>
        obtain ⟨rfl, hf, -⟩ := h.of_seeking hs
        cases answer with
        | error e => exact .unopened rfl rfl hf
        | ok session => exact .streaming rfl rfl _ rfl
      | refused => exact (Nat.zero_add n).symm ▸ h
    | cancel =>
      cases hstep
      exact (Nat.zero_add n).symm ▸ h.cancel
    | finished =>
      cases hstep
      exact (Nat.zero_add n).symm ▸ h
  | went =>
    cases hstep with
    | went hgoes => exact (Nat.zero_add n).symm ▸ h.stays hgoes.stays

/-- The number of sessions asked for in a part of a life. -/
def sessions : List Event → Nat
  | [] => 0
  | e :: events => e.sessions + sessions events

theorem Lives.stage {events : List Event} (h : Lives l events l') {n : Nat} (hl : l.Stage n) :
    l'.Stage (sessions events + n) := by
  induction h generalizing n with
  | nil l => exact (Nat.zero_add n).symm ▸ hl
  | @cons l l' l'' e events hstep _ ih =>
    have hcount : sessions (e :: events) + n = sessions events + (e.sessions + n) := by
      simp only [sessions]
      omega
    rw [hcount]
    exact ih (hl.step hstep)

/-! ## States -/

/-- How the state may change, and by what. -/
inductive Change : ListenerState → Event → ListenerState → Prop where
  | stays (s : ListenerState) (e : Event) : Change s e s
  | sought (r : Range) (log : List Exchange) : Change .created (.called (.seek r) (.ok ()) log) .seeking
  | opened (source : Node) (request : Envelope) (session : Session) :
    Change .seeking (.called .listen (.ok ()) [.seek source request (.ok session)]) .streaming
  | unopened (source : Node) (request : Envelope) (e : ClientError) :
    Change .seeking (.called .listen (.error e) [.seek source request (.error e)]) .failed
  | ended (how : FeedEnd) : Change .streaming .went (.ofEnd how)

theorem Stage.change {e : Event} {n : Nat} (h : l.Stage n) (hstep : Step l e l') :
    Change l.state e l'.state := by
  cases e with
  | called c result log =>
    cases c with
    | seek r =>
      cases hstep.seeks with
      | signed hs stamp =>
        rw [hs]
        exact .sought r _
      | refused => exact .stays _ _
    | listen =>
      cases h.opens hstep with
      | asked hs request hr answer =>
        rw [hs]
        cases answer with
        | error e => exact .unopened l.source request e
        | ok session => exact .opened l.source request session
      | refused => exact .stays _ _
    | cancel =>
      cases hstep
      exact .stays _ _
    | finished =>
      cases hstep
      exact .stays _ _
  | went =>
    cases hstep with
    | went hgoes =>
      rcases hgoes.stays.state with heq | ⟨f, how, hf, ho, heq⟩
      · rw [heq]
        exact .stays _ _
      · rw [heq]
        cases h with
        | created _ _ hf' => cases hf.symm.trans hf'
        | seeking _ _ _ _ _ hf' => cases hf.symm.trans hf'
        | unopened _ _ hf' => cases hf.symm.trans hf'
        | streaming hs =>
          rw [hs]
          exact .ended how
        | ended how' hs _ f' hf' ho' =>
          cases hf.symm.trans hf'
          cases ho.symm.trans ho'
          rw [hs]
          exact .stays _ _

theorem Change.eq_of_ended {how : FeedEnd} {e : Event} {s : ListenerState} (h : Change (.ofEnd how) e s) :
    s = .ofEnd how := by
  generalize hs : ListenerState.ofEnd how = before at h
  cases h with
  | stays => rfl
  | sought | opened | unopened | ended => cases how <;> cases hs

theorem Lives.state_eq {events : List Event} (h : Lives l events l') {how : FeedEnd} {n : Nat}
    (hl : l.Stage n) (hs : l.state = .ofEnd how) : l'.state = .ofEnd how := by
  induction h generalizing n with
  | nil l => exact hs
  | cons hstep _ ih =>
    have hchange := hl.change hstep
    rw [hs] at hchange
    exact ih (hl.step hstep) hchange.eq_of_ended

/-! ## Lives -/

/-- A listener with which nothing has been done yet, but that it may have been cancelled. -/
structure Fresh (l : Listener) : Prop where
  state_eq : l.state = .created
  request_eq : l.request = none
  feed_eq : l.feed = none

/-- What is known of a listener at any time of its life, after these events. -/
structure Lifelong (events : List Event) (l : Listener) : Prop where
  /-- It is seeking exactly while it has a request. -/
  seeking_iff : l.state = .seeking ↔ ∃ request, l.request = some request
  /-- A request is one that it has signed and not sent. -/
  unused : ∀ request, l.request = some request → sessions events = 0 ∧
    ∃ stamp start stop, request = l.signer.seek stamp l.channelId start stop
  sessions_le_one : sessions events ≤ 1
  change : ∀ e l', Step l e l' → Change l.state e l'.state
  final : ∀ how, l.state = .ofEnd how → ∀ events l', Lives l events l' → l'.state = .ofEnd how
  seek : ∀ r result log l', Step l (.called (.seek r) result log) l' → l.Seeks r result log l'
  listen : ∀ result log l', Step l (.called .listen result log) l' → l.Opens result log l'

/-- **The life of a listener.** Whatever calls are made, in whatever order, and however the receive
loop, the session and the consumer go on between them: the state takes the one way through its
stages, each call out of turn is refused and changes nothing, and one session is asked for at most. -/
theorem lifelong {l₀ : Listener} {events : List Event} (h₀ : l₀.Fresh) (h : Lives l₀ events l) :
    Lifelong events l := by
  have hstage : l.Stage (sessions events) := h.stage (.created h₀.state_eq h₀.request_eq h₀.feed_eq)
  constructor
  case seeking_iff =>
    constructor
    · intro hs
      obtain ⟨-, -, stamp, start, stop, hr⟩ := hstage.of_seeking hs
      exact ⟨_, hr⟩
    · rintro ⟨request, hr⟩
      refine Decidable.byContradiction fun hs => ?_
      cases (hstage.request_eq_none hs).symm.trans hr
  case unused =>
    intro request hr
    have hs : l.state = .seeking := by
      refine Decidable.byContradiction fun hs => ?_
      cases (hstage.request_eq_none hs).symm.trans hr
    obtain ⟨hzero, -, stamp, start, stop, hr'⟩ := hstage.of_seeking hs
    cases hr.symm.trans hr'
    exact ⟨hzero, stamp, start, stop, rfl⟩
  case sessions_le_one => exact hstage.le_one
  case change => exact fun e l' hstep => hstage.change hstep
  case final => exact fun how hs events l' hlives => hlives.state_eq hstage hs
  case seek => exact fun r result log l' hstep => hstep.seeks
  case listen => exact fun result log l' hstep => hstage.opens hstep

def sampleListener : Listener where
  signer := { identity := ⟨[1], "Org1MSP", ⟨6, by decide, by decide⟩⟩ }
  source := .eventPeer "events0"
  channelId := "mychannel"
  mode := .full

/-- It seeks the newest block, and listens to a session that is over at once. -/
theorem lifelong_sample : sampleListener.Fresh ∧
    ∃ events l, Lives sampleListener events l ∧ l.state = .failed ∧ Lifelong events l := by
  let stamp : Stamp := ⟨[7], {}⟩
  let sought := sampleListener.sought stamp .newest (.specified 0xFFFFFFFFFFFFFFFF)
  let opened := (sought.opened (.ok .finish)).2
  have hfresh : sampleListener.Fresh := ⟨rfl, rfl, rfl⟩
  have hseek : Step sampleListener (.called (.seek .newest) (.ok ()) [.stamp stamp]) sought :=
    .sought .newest stamp rfl
  have hlisten := Step.listened (runs_listen (l := sought) rfl rfl (.ok .finish))
  have hover := Goes.closed (l := opened) { mode := .full, capacity := 64 } rfl rfl rfl
  have hlives := Lives.cons hseek (.cons hlisten (.cons (.went hover) (.single (.went
    (.reported _ rfl .failed rfl)))))
  exact ⟨hfresh, _, _, hlives, rfl, lifelong hfresh hlives⟩

end LedgerClient.Listener
