/-
What the calls of a listener do.

A seek signs a request where none has been signed yet, and listening sends the
request that is there, once. Each is refused in any other state, with the
listener as it was and nothing asked.
-/
import LedgerClient.Listener
import LedgerClient.Proofs.Dialogue

namespace LedgerClient.Listener

open Protocol

variable {l : Listener}

theorem expectState_eq_ok_iff {expected : ListenerState} {operation : String} :
    l.expectState expected operation = .ok () ↔ l.state = expected := by
  unfold expectState
  split
  next h => exact iff_of_true rfl h
  next h => exact iff_of_false nofun h

theorem expectState_eq_error {expected : ListenerState} {operation : String} (h : l.state ≠ expected) :
    l.expectState expected operation =
      .error (.invalidOperation (.wrongState operation expected.name l.state.name)) := if_neg h

/-! ## Seeking -/

/-- The listener with a signed request. -/
def sought (l : Listener) (stamp : Stamp) (start stop : SeekPosition) : Listener :=
  { l with request := some (l.signer.seek stamp l.channelId start stop), state := .seeking }

theorem seek_eq_ok (h : l.state = .created) (stamp : Stamp) (start stop : SeekPosition) :
    l.seek stamp start stop = .ok (l.sought stamp start stop) := by
  unfold seek
  rw [expectState_eq_ok_iff.2 h]
  rfl

theorem seek_eq_error (h : l.state ≠ .created) (stamp : Stamp) (start stop : SeekPosition) :
    l.seek stamp start stop = .error (.invalidOperation (.wrongState "seek" "Created" l.state.name)) := by
  unfold seek
  rw [expectState_eq_error h]
  rfl

/-! ## Listening -/

/-- How listening goes. -/
inductive Listens (l : Listener) : Except ClientError Unit × Listener → List Exchange → Prop where
  | refused (h : l.state ≠ .seeking) :
    Listens l (.error (.invalidOperation (.wrongState "listen" "Seeking" l.state.name)), l) []
  | unsought (h : l.state = .seeking) (hr : l.request = none) :
    Listens l (.error (.invalidOperation .noSeekRequest), l) []
  | failed (h : l.state = .seeking) (request : Envelope) (hr : l.request = some request) (e : ClientError) :
    Listens l (l.opened (.error e)) [.seek l.source request (.error e)]
  | opened (h : l.state = .seeking) (request : Envelope) (hr : l.request = some request) (session : Session) :
    Listens l (l.opened (.ok session)) [.seek l.source request (.ok session)]

theorem runs_listen (hs : l.state = .seeking) {request : Envelope} (hr : l.request = some request)
    (answer : Except ClientError Session) :
    Dialogue.Runs l.listen (l.opened answer) [.seek l.source request answer] := by
  unfold listen
  rw [expectState_eq_ok_iff.2 hs, hr]
  exact .seek answer (.done _)

theorem listens_of_runs {end_ : Except ClientError Unit × Listener} {log : List Exchange}
    (h : Dialogue.Runs l.listen end_ log) : l.Listens end_ log := by
  by_cases hs : l.state = .seeking
  · unfold listen at h
    rw [expectState_eq_ok_iff.2 hs] at h
    dsimp only at h
    split at h
    next hr =>
      cases h
      exact .unsought hs hr
    next request hr =>
      cases h with
      | seek answer h =>
        cases h
        cases answer with
        | error e => exact .failed hs request hr e
        | ok session => exact .opened hs request hr session
  · unfold listen at h
    rw [expectState_eq_error hs] at h
    cases h
    exact .refused hs

end LedgerClient.Listener
