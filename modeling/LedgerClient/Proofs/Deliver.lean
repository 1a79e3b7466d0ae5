/-
What a deliver session is asked for and how it ends.

A request is read back as it was made, with its two places and the id of its
nonce and creator (`Signer.asks_seek`). What a session brings settles a fetch at
certain times, which do not fall (`Session.verdicts_sorted`); the first verdict
that comes in time is how the fetch ends (`Session.firstBlock_eq_outcome`), so
what comes later does not count, however long it goes on. For the block with the
configuration in force there is a second session, exactly if the first names it.
-/
import LedgerClient.Proofs.Envelope
import LedgerClient.Proofs.Fetch

namespace LedgerClient

open Protocol

/-! ## Requests -/

/-- Behaviour `BLOCK_UNTIL_READY`: the node waits for blocks not yet there. -/
def Protocol.SeekInfo.blockUntilReady : Int32 := 0

/-- A request for the blocks of a channel from one place to another, by a signer with the nonce and at the time of a
stamp. -/
structure Block.Entry.Asks (l : Block.Entry) (s : LedgerClient.Signer) (stamp : Stamp) (channelId : String)
    (start stop : SeekPosition) : Prop where
  type : l.channelHeader.type = HeaderType.deliverSeekInfo.code
  channelId : l.channelHeader.channelId = channelId
  timestamp : l.channelHeader.timestamp = some stamp.time
  signatureHeader : ∃ h, Wire.decode? SignatureHeader l.header.signatureHeader = some h ∧
    h.creator = s.creator ∧ h.nonce = stamp.nonce ∧ l.channelHeader.txId = (sha256 (h.nonce ++ h.creator)).toHex
  seek : Wire.decode? SeekInfo l.payload.data =
    some { start := some start, stop := some stop, behavior := SeekInfo.blockUntilReady }

/-- A request is read back as it was made. -/
theorem Signer.asks_seek (s : Signer) (stamp : Stamp) (channelId : String) (start stop : SeekPosition)
    (hsize : Wire.size (s.seek stamp channelId start stop) < 2 ^ 64) :
    ∃ l : Block.Entry, l.Open (Wire.encode (s.seek stamp channelId start stop)) ∧
      l.Asks s stamp channelId start stop := by
  let seek : SeekInfo := { start := some start, stop := some stop }
  let channelHeader : ChannelHeader :=
    { type := HeaderType.deliverSeekInfo.code, timestamp := some stamp.time, channelId
      txId := (s.transactionId stamp).id }
  let header : Header := s.header stamp .deliverSeekInfo channelId (s.transactionId stamp).id []
  let payload : Payload := { header := some header, data := Wire.encode seek }
  let l : Block.Entry := { envelope := s.signPayload payload, payload, header, channelHeader }
  have hl : l.Layered := ⟨rfl, rfl, rfl⟩
  exact ⟨l, hl.opened hsize, rfl, rfl, rfl, ⟨_, hl.decode_signatureHeader hsize rfl, rfl, rfl, rfl⟩,
    hl.decode_data hsize seek.faithful (by decide) rfl⟩

/-! ## Verdicts -/

/-- How a fetch ends for what is delivered; a filtered block does not end it. -/
def Delivery.verdict? : Delivery → Option (Except ClientError Block)
  | .ok (.block b) => some (.ok b)
  | .ok (.status code) => some (.error (.deliverRejected code))
  | .ok (.filteredBlock _) => none
  | .error e => some (.error e)

namespace Session

variable {limit left since : Duration}

/-- The verdicts that a session brings, each with the time at which it comes. To close the session is a verdict too. -/
def verdicts : (since : Duration) → Session → List (Duration × Except ClientError Block)
  | _, silence => []
  | since, finish => [(since, .error (.transport "deliver stream closed without a block"))]
  | since, pause time rest => rest.verdicts (since + time)
  | since, item d rest =>
    match d.verdict? with
    | some v => (since, v) :: rest.verdicts since
    | none => rest.verdicts since

/-- The first verdict that comes within the limit; a failure if none does. -/
def firstInTime (limit : Duration) (verdicts : List (Duration × Except ClientError Block)) :
    Except ClientError Block :=
  match verdicts.find? (·.1 ≤ limit) with
  | some (_, v) => v
  | none => .error (.ordererTimeout limit)

/-- How a session ends for who waits for one block. -/
def outcome (limit : Duration) (s : Session) : Except ClientError Block := firstInTime limit (s.verdicts .zero)

theorem le_of_mem_verdicts (s : Session) : ∀ {since : Duration}, ∀ v ∈ s.verdicts since, since ≤ v.1 := by
  induction s with
  | silence => exact nofun
  | finish =>
    intro since v hv
    rw [List.mem_singleton.1 hv]
    exact Nat.le_refl _
  | pause time rest ih =>
    intro since v hv
    exact Nat.le_trans (Nat.le_add_right _ _) (ih v hv)
  | item d rest ih =>
    intro since v hv
    rw [verdicts] at hv
    split at hv
    next =>
      rcases List.mem_cons.1 hv with rfl | hv
      · exact Nat.le_refl _
      · exact ih v hv
    next => exact ih v hv

/-- Verdicts are listed in the order in which they come. -/
theorem verdicts_sorted (s : Session) : ∀ {since : Duration}, (s.verdicts since).Pairwise (·.1 ≤ ·.1) := by
  induction s with
  | silence => exact .nil
  | finish => exact List.pairwise_singleton _ _
  | pause time rest ih => exact ih
  | item d rest ih =>
    intro since
    rw [verdicts]
    split
    next => exact .cons rest.le_of_mem_verdicts ih
    next => exact ih

theorem firstInTime_cons {v : Except ClientError Block} {vs : List (Duration × Except ClientError Block)}
    (h : since ≤ limit) : firstInTime limit ((since, v) :: vs) = v := by
  have hfind : ((since, v) :: vs).find? (·.1 ≤ limit) = some (since, v) := List.find?_cons_of_pos (decide_eq_true h)
  simp only [firstInTime, hfind]

theorem firstInTime_of_late {vs : List (Duration × Except ClientError Block)} (h : ∀ v ∈ vs, ¬ v.1 ≤ limit) :
    firstInTime limit vs = .error (.ordererTimeout limit) := by
  have hnone : vs.find? (·.1 ≤ limit) = none := by simpa [List.find?_eq_none] using h
  simp only [firstInTime, hnone]

/-- By induction on the session: the time since its beginning and the time left make up the limit. -/
theorem firstBlockWithin_eq (s : Session) : ∀ {since left : Duration}, since + left = limit →
    s.firstBlockWithin limit left = firstInTime limit (s.verdicts since) := by
  have le_limit {since left : Duration} (h : since + left = limit) : since ≤ limit := by
    rw [← h]
    exact Nat.le_add_right _ _
  induction s with
  | silence =>
    intro since left _
    rfl
  | finish =>
    intro since left h
    exact (firstInTime_cons (le_limit h)).symm
  | pause time rest ih =>
    intro since left h
    rw [firstBlockWithin, verdicts]
    have hn : since.nanos + left.nanos = limit.nanos := congrArg Duration.nanos h
    split
    next ht =>
      have htn : time.nanos ≤ left.nanos := ht
      have hrest : since.nanos + time.nanos + (left.nanos - time.nanos) = limit.nanos := by omega
      exact ih (congrArg Duration.mk hrest)
    next ht =>
      have htn : ¬ time.nanos ≤ left.nanos := ht
      refine (firstInTime_of_late fun v hv hle => ?_).symm
      have hv' : since.nanos + time.nanos ≤ v.1.nanos := rest.le_of_mem_verdicts v hv
      have hle' : v.1.nanos ≤ limit.nanos := hle
      omega
  | item d rest ih =>
    intro since left h
    rcases d with e | (b | f | code)
    · exact (firstInTime_cons (le_limit h)).symm
    · exact (firstInTime_cons (le_limit h)).symm
    · exact ih h
    · exact (firstInTime_cons (le_limit h)).symm

theorem firstBlock_eq_outcome (s : Session) (limit : Duration) : s.firstBlock limit = s.outcome limit :=
  s.firstBlockWithin_eq (congrArg Duration.mk (Nat.zero_add _))

/-- What follows after the time is up does not matter. -/
theorem firstBlockWithin_ofSteps (stop : Session) {steps : List (Duration ⊕ Delivery)} : ∀ {left : Duration},
    ¬ (ofSteps .silence steps).span ≤ left →
      (ofSteps stop steps).firstBlockWithin limit left = (ofSteps .silence steps).firstBlockWithin limit left := by
  induction steps with
  | nil =>
    intro left h
    exact absurd (Nat.zero_le left.nanos) h
  | cons step steps ih =>
    intro left h
    rcases step with time | (e | (b | f | code))
    · simp only [ofSteps, List.foldr_cons] at ih h ⊢
      rw [firstBlockWithin, firstBlockWithin]
      split
      next ht =>
        refine ih fun hle => h ?_
        have hle' : _ ≤ left.nanos - time.nanos := hle
        have htn : time.nanos ≤ left.nanos := ht
        show time.nanos + _ ≤ left.nanos
        omega
      next => rfl
    · rfl
    · rfl
    · exact ih h
    · rfl

end Session

/-! ## Fetches -/

namespace BlockReader

variable {r : BlockReader} {source : Node} {channelId : String} {log : List Exchange}
  {result : Except ClientError Block}

/-- How a fetch ends with this answer to its request. -/
def ended (r : BlockReader) (answer : Except ClientError Session) : Except ClientError Block :=
  answer >>= fun session => session.outcome r.limit

/-- The number of the block with the configuration in force, as the answer to a request for the newest block tells. -/
def configNumber (r : BlockReader) (answer : Except ClientError Session) : Except ClientError UInt64 :=
  r.ended answer >>= fun newest => ClientError.ofDecode (Block.lastConfigIndex newest)

theorem runs_fetch_iff_ended {start stop : SeekPosition} : (r.fetch source channelId start stop).Runs result log ↔
    ∃ stamp answer, log = r.session source channelId start stop stamp answer ∧ result = r.ended answer := by
  simp only [runs_fetch_iff, Session.firstBlock_eq_outcome, ended]

/-- Without a number there is one session, with a number there is another one for that block. -/
theorem runs_lastConfigBlock_iff : (r.lastConfigBlock source channelId).Runs result log ↔
    ∃ stamp answer,
      (∃ e, r.configNumber answer = .error e ∧ result = .error e ∧
        log = r.session source channelId .newest .newest stamp answer) ∨
      ∃ i stamp' answer', r.configNumber answer = .ok i ∧ result = r.ended answer' ∧
        log = r.session source channelId .newest .newest stamp answer ++
          r.session source channelId (.specified i) (.specified i) stamp' answer' := by
  rw [lastConfigBlock, Operation.runs_bind_iff]
  simp only [newestBlock, block, Operation.runs_ofExcept_bind_iff, runs_fetch_iff_ended, configNumber,
    bind_eq_error_iff, bind_eq_ok_iff]
  constructor
  · rintro (⟨e, ⟨stamp, answer, rfl, he⟩, rfl⟩ | ⟨newest, _, _, ⟨stamp, answer, rfl, hnewest⟩, hrest, rfl⟩)
    · exact ⟨stamp, answer, .inl ⟨e, .inl he.symm, rfl, rfl⟩⟩
    · rcases hrest with ⟨e, he, rfl, rfl⟩ | ⟨i, hi, stamp', answer', rfl, rfl⟩
      · exact ⟨stamp, answer, .inl ⟨e, .inr ⟨newest, hnewest.symm, he⟩, rfl, List.append_nil _⟩⟩
      · exact ⟨stamp, answer, .inr ⟨i, stamp', answer', ⟨newest, hnewest.symm, hi⟩, rfl, rfl⟩⟩
  · rintro ⟨stamp, answer, ⟨e, he | ⟨newest, hnewest, he⟩, rfl, rfl⟩ |
      ⟨i, stamp', answer', ⟨newest, hnewest, hi⟩, rfl, rfl⟩⟩
    · exact .inl ⟨e, ⟨stamp, answer, rfl, he.symm⟩, rfl⟩
    · exact .inr ⟨newest, _, [], ⟨stamp, answer, rfl, hnewest.symm⟩, .inl ⟨e, he, rfl, rfl⟩, (List.append_nil _).symm⟩
    · exact .inr ⟨newest, _, _, ⟨stamp, answer, rfl, hnewest.symm⟩, .inr ⟨i, hi, stamp', answer', rfl, rfl⟩, rfl⟩

/-- **Deliver sessions.** A request is read back with exactly its two places. A fetch asks once and ends with the first
verdict of the session that comes in time, where filtered blocks are no verdicts, or with the failure to open a session;
what comes later does not count. The block with the configuration in force takes a second session exactly if the first
one gives its number, and that session is for this number only. -/
theorem deliver_sessions (r : BlockReader) (source : Node) (channelId : String) :
    (∀ stamp start stop, Wire.size (r.signer.seek stamp channelId start stop) < 2 ^ 64 →
      ∃ l : Block.Entry, l.Open (Wire.encode (r.signer.seek stamp channelId start stop)) ∧
        l.Asks r.signer stamp channelId start stop) ∧
    (∀ start stop result log, (r.fetch source channelId start stop).Runs result log ↔
      ∃ stamp answer, log = r.session source channelId start stop stamp answer ∧ result = r.ended answer) ∧
    (∀ session : Session, (session.verdicts .zero).Pairwise (·.1 ≤ ·.1)) ∧
    (∀ steps stop, ¬ (Session.ofSteps .silence steps).span ≤ r.limit →
      (Session.ofSteps stop steps).outcome r.limit = (Session.ofSteps .silence steps).outcome r.limit) ∧
    ∀ result log, (r.lastConfigBlock source channelId).Runs result log ↔
      ∃ stamp answer,
        (∃ e, r.configNumber answer = .error e ∧ result = .error e ∧
          log = r.session source channelId .newest .newest stamp answer) ∨
        ∃ i stamp' answer', r.configNumber answer = .ok i ∧ result = r.ended answer' ∧
          log = r.session source channelId .newest .newest stamp answer ++
            r.session source channelId (.specified i) (.specified i) stamp' answer' := by
  refine ⟨fun stamp start stop => r.signer.asks_seek stamp channelId start stop,
    fun _ _ _ _ => runs_fetch_iff_ended, fun session => session.verdicts_sorted, fun steps stop hlate => ?_,
    fun _ _ => runs_lastConfigBlock_iff⟩
  rw [← Session.firstBlock_eq_outcome, ← Session.firstBlock_eq_outcome]
  exact Session.firstBlockWithin_ofSteps stop hlate

/-- A filtered block and a second go by before the block comes; the status after it does not matter. -/
def lateBlock : List (Duration ⊕ Delivery) :=
  [.inr (.ok (.filteredBlock {})), .inl (.ofSecs 1), .inr (.ok (.block (blockNumbered 3))),
    .inr (.ok (.status 404)), .inl (.ofSecs 60)]

theorem deliver_sessions_lateBlock :
    (∃ l : Block.Entry, l.Asks sampleReader.signer ⟨[7], {}⟩ "mychannel" (.specified 0) (.specified (-1))) ∧
    (∃ log, (sampleReader.fetch (.orderer "orderer0") "mychannel" .oldest .newest).Runs (.ok (blockNumbered 3)) log) ∧
    ∀ stop, (Session.ofSteps stop lateBlock).outcome sampleReader.limit = .ok (blockNumbered 3) := by
  obtain ⟨hasks, hfetch, -, hlate, -⟩ := deliver_sessions sampleReader (.orderer "orderer0") "mychannel"
  refine ⟨?_, ⟨_, (hfetch .oldest .newest _ _).2 ⟨⟨[7], {}⟩, .ok (.ofSteps .finish lateBlock), rfl, rfl⟩⟩,
    fun stop => (hlate lateBlock stop (by decide)).trans rfl⟩
  have hsize :
      Wire.size (sampleReader.signer.seek ⟨[7], {}⟩ "mychannel" (.specified 0) (.specified (-1))) < 2 ^ 64 := by
    refine Nat.lt_of_le_of_lt (sampleReader.signer.size_signPayload_le _) ?_
    decide +kernel
  obtain ⟨l, -, hl⟩ := hasks ⟨[7], {}⟩ (.specified 0) (.specified (-1)) hsize
  exact ⟨l, hl⟩

end BlockReader

end LedgerClient
