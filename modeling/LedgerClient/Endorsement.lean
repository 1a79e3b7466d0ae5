/-
The answers of endorsing peers, and what is required of them.

A proposal goes to all its targets at once. The dispatches end in any order;
each fills the slot of its own target, so that the answers stand in the order
of the targets whatever order they came in.
-/
import LedgerClient.Error
import LedgerClient.Protocol.Proposal

namespace LedgerClient

open Protocol

/-- What came of asking one peer. -/
structure PeerAnswer where
  peer : String
  result : Except ClientError ProposalResponse

/-! ## Collecting answers -/

/-- What becomes of a proposal sent to one peer. -/
inductive Dispatch where
  /-- The peer answers, or the exchange fails, after some time. -/
  | answered (after : Duration) (result : Except ClientError ProposalResponse)
  /-- The exchange breaks off after some time with no result at all. -/
  | aborted (after : Duration)
  /-- The peer never answers. -/
  | silent

/-- What is noted when a dispatch ends: a result, which is an error once `limit` has passed, or
nothing after an abort. -/
def Dispatch.noted (limit : Duration) : Dispatch → Option (Except ClientError ProposalResponse)
  | answered after result => if after ≤ limit then some result else some (late limit)
  | aborted after => if after ≤ limit then none else some (late limit)
  | silent => some (late limit)
where
  late (limit : Duration) : Except ClientError ProposalResponse :=
    .error (.transport s!"no response within {limit.describe}")

/-- One slot a target, filled by the dispatches that ended, in the order in which they did. -/
def fillSlots (targets : Nat) (ended : List (Nat × Except ClientError ProposalResponse)) :
    List (Option (Except ClientError ProposalResponse)) :=
  ended.foldl (fun slots (i, r) => slots.set i (some r)) (List.replicate targets none)

/-- One answer a target, in the order of the targets. A slot left empty is an error too. -/
def gather (targets : List String) (ended : List (Nat × Except ClientError ProposalResponse)) :
    List PeerAnswer :=
  List.zipWith
    (fun peer slot => ⟨peer, slot.getD (.error (.transport "endorsement task aborted"))⟩)
    targets (fillSlots targets.length ended)

/-- The answers to a proposal whose dispatches went as given, each within `limit`. -/
def collect (limit : Duration) (targets : List String) (dispatches : List Dispatch) :
    List PeerAnswer :=
  gather targets (dispatches.zipIdx.filterMap fun (d, i) => (d.noted limit).map (i, ·))

/-! ## Requirements -/

/-- An answer counts only if it holds the chaincode's answer, and that a success. -/
def validateResponse (peer : String) (r : ProposalResponse) : Except ClientError Unit :=
  match r.response with
  | none => .error (.proposalRejected peer 0 "response carries no chaincode response")
  | some inner =>
    if inner.status = Status.success.code then .ok ()
    else .error (.proposalRejected peer inner.status inner.message)

namespace PeerAnswer

/-- The peer and its answer, if it counts. -/
def checked (a : PeerAnswer) : Except ClientError (String × ProposalResponse) := do
  let r ← a.result
  validateResponse a.peer r
  return (a.peer, r)

/-- All answers, if all of them count; otherwise the first peer that failed, and why. -/
def requireAll (answers : List PeerAnswer) : Except ClientError (List (String × ProposalResponse)) :=
  if answers.isEmpty then .error .noPeersConfigured
  else answers.mapM fun a => a.checked.mapError (.endorsementFailed a.peer)

/-- The first answer, if it counts. -/
def requireFirst (answers : List PeerAnswer) : Except ClientError (String × ProposalResponse) :=
  match answers with
  | [] => .error .noPeersConfigured
  | a :: _ => a.checked

end PeerAnswer

end LedgerClient
