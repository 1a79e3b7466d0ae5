/-
What is read of a peer's answers about the ledger.

Five readers look at an answer. All of them ask first whether it is a success,
and one that is none they refuse alike, whatever it carries
(`readings_of_failed`). Of a success they read what was written: the block that
is carried, its filtered view, the time of a transaction in it, and the height
of a chain.
-/
import LedgerClient.Ledger
import LedgerClient.Proofs.Protocol.Block
import LedgerClient.Proofs.Transaction

namespace LedgerClient.Ledger

open Protocol

variable {peer txId : String} {r : ProposalResponse} {inner : Response} {error : ClientError}

/-- What the readers make of an answer. -/
structure Readings where
  payload : Except ClientError Bytes
  height : Except ClientError UInt64
  block : Except ClientError Block
  filteredBlock : Except ClientError Block.Filtered
  transactionTime : Except ClientError Block.TransactionTime

def readings (peer : String) (r : ProposalResponse) (txId : String) : Readings :=
  { payload := payload peer r, height := height peer r, block := block peer r
    filteredBlock := filteredBlock peer r, transactionTime := transactionTime peer r txId }

/-- All readers fail in the same way. -/
def Readings.failed (error : ClientError) : Readings :=
  { payload := .error error, height := .error error, block := .error error
    filteredBlock := .error error, transactionTime := .error error }

/-! ## Answers that are refused -/

/-- No reader goes on with an answer that is not accepted. -/
theorem readings_of_validateResponse (h : validateResponse peer r = .error error) :
    readings peer r txId = .failed error := by
  have hpayload : payload peer r = .error error := by
    rw [payload, h]
    rfl
  have hblock : block peer r = .error error := by
    rw [block, hpayload]
    rfl
  simp only [readings, Readings.failed, hpayload, height, hblock, filteredBlock, transactionTime, bind, Except.bind]

theorem readings_of_unanswered (h : r.response = none) :
    readings peer r txId = .failed (.proposalRejected peer 0 "response carries no chaincode response") :=
  readings_of_validateResponse (validateResponse_eq_error.2 (.inl ⟨h, rfl⟩))

theorem readings_of_failed (h : r.response = some inner) (hs : inner.status ≠ 200) :
    readings peer r txId = .failed (.proposalRejected peer inner.status inner.message) :=
  readings_of_validateResponse (validateResponse_eq_error.2 (.inr ⟨inner, h, hs, rfl⟩))

/-- The answer with another payload in the chaincode's own. -/
def withPayload (r : ProposalResponse) (payload : Bytes) : ProposalResponse :=
  { r with response := r.response.map fun inner => { inner with payload } }

/-! ## Successes -/

theorem payload_of_success (h : r.response = some inner) (hs : inner.status = 200) :
    payload peer r = .ok inner.payload := by
  rw [payload, validateResponse_eq_ok.2 ⟨inner, h, hs⟩, h]
  rfl

theorem decoded_payload {α : Type} [Wire.Typed α] {x : α} {depth : Nat} {what : String} (hx : Wire.Faithful depth x)
    (hd : depth ≤ Wire.Message.nestingLimit) (hp : inner.payload = Wire.encode x) (hsize : Wire.size x < 2 ^ 64) :
    ClientError.ofDecode (decodeAs α what inner.payload) = .ok x := by
  rw [hp]
  exact mapError_eq_ok_iff.2 (decodeAs_eq_ok_iff.2 (hx.decode?_encode hd hsize))

theorem height_of_success {info : BlockchainInfo} (h : r.response = some inner) (hs : inner.status = 200)
    (hp : inner.payload = Wire.encode info) (hsize : Wire.size info < 2 ^ 64) : height peer r = .ok info.height :=
  bind_eq_ok_iff.2 ⟨_, payload_of_success h hs,
    bind_eq_ok_iff.2 ⟨info, decoded_payload info.faithful (by decide) hp hsize, rfl⟩⟩

theorem block_of_success {b : Block} (h : r.response = some inner) (hs : inner.status = 200)
    (hp : inner.payload = Wire.encode b) (hsize : Wire.size b < 2 ^ 64) : block peer r = .ok b :=
  bind_eq_ok_iff.2 ⟨_, payload_of_success h hs, decoded_payload b.faithful (by decide) hp hsize⟩

/-- **Answers are read as they were meant.** Of a success that carries a block the block itself is read, its filtered view
or the reason why it has none, and the time of a transaction in it; of one that carries the state of a chain its height.
An answer without the chaincode's own, or with another status than that of a success, is refused by every reader with the
peer, the status and the text, whatever payload it carries. -/
theorem answers_read (peer txId : String) (r : ProposalResponse) :
    (∀ inner, r.response = some inner → inner.status = 200 →
      (∀ b : Block, inner.payload = Wire.encode b → Wire.size b < 2 ^ 64 →
        block peer r = .ok b ∧ filteredBlock peer r = ClientError.ofDecode (Block.filter b) ∧
          transactionTime peer r txId = .ok (Block.transactionTime b txId)) ∧
      ∀ info : BlockchainInfo, inner.payload = Wire.encode info → Wire.size info < 2 ^ 64 →
        height peer r = .ok info.height) ∧
    (r.response = none →
      readings peer r txId = .failed (.proposalRejected peer 0 "response carries no chaincode response")) ∧
    ∀ inner, r.response = some inner → inner.status ≠ 200 →
      readings peer r txId = .failed (.proposalRejected peer inner.status inner.message) ∧
        ∀ payload, readings peer (withPayload r payload) txId = readings peer r txId := by
  refine ⟨fun inner h hs => ⟨fun b hp hsize => ?_, fun info hp hsize => height_of_success h hs hp hsize⟩,
    readings_of_unanswered, fun inner h hs => ⟨readings_of_failed h hs, fun payload => ?_⟩⟩
  · have hblock : block peer r = .ok b := block_of_success h hs hp hsize
    refine ⟨hblock, ?_, ?_⟩
    · rw [filteredBlock, hblock]
      rfl
    · rw [transactionTime, hblock]
      rfl
  · have hother : (withPayload r payload).response = some { inner with payload } := by
      rw [withPayload, h]
      rfl
    rw [readings_of_failed hother hs, readings_of_failed h hs]

/-! A peer that answers with a block, and one that has failed and sends what is no block. -/

def answerWith (status : Int32) (payload : Bytes) : ProposalResponse :=
  { response := some { status, message := "m", payload } }

theorem answers_read_both :
    let b : Block := { header := some { number := 7 }, data := some { entries := [[255], []] } }
    let empty : Block := {}
    let failed : ClientError := .proposalRejected "peer0" 500 "m"
    block "peer0" (answerWith 200 (Wire.encode b)) = .ok b ∧
      transactionTime "peer0" (answerWith 200 (Wire.encode b)) "t" = .ok { blockNumber := 7 } ∧
      filteredBlock "peer0" (answerWith 200 (Wire.encode empty)) = .error (.decode (.missing "block header")) ∧
      height "peer0" (answerWith 200 (Wire.encode ({ height := 18446744073709551615 } : BlockchainInfo))) =
        .ok 18446744073709551615 ∧
      readings "peer0" (answerWith 500 []) "t" = .failed failed ∧
      readings "peer0" (withPayload (answerWith 500 []) [255]) "t" = .failed failed ∧
      readings "peer0" {} "t" = .failed (.proposalRejected "peer0" 0 "response carries no chaincode response") := by
  intro b empty failed
  obtain ⟨hblock, -, htime⟩ := ((answers_read "peer0" "t" (answerWith 200 (Wire.encode b))).1 _ rfl rfl).1 b rfl
    (by decide +kernel)
  obtain ⟨-, hfiltered, -⟩ := ((answers_read "peer0" "t" (answerWith 200 (Wire.encode empty))).1 _ rfl rfl).1 empty rfl
    (by decide +kernel)
  have hheight := ((answers_read "peer0" "t" (answerWith 200
    (Wire.encode ({ height := 18446744073709551615 } : BlockchainInfo)))).1 _ rfl rfl).2 _ rfl (by decide +kernel)
  obtain ⟨hfailed, hother⟩ := (answers_read "peer0" "t" (answerWith 500 [])).2.2 _ rfl (by decide)
  exact ⟨hblock, htime, hfiltered, hheight, hfailed, (hother [255]).trans hfailed,
    (answers_read "peer0" "t" {}).2.1 rfl⟩

end LedgerClient.Ledger
