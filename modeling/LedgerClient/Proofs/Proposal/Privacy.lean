/-
Private data stay between the client and the endorsing peers.

The transaction is made of a proposal's header and input alone
(`assemble_congr`), and neither depends on the transient map: whatever that is,
the same becomes of the same answers. The peers are sent all of it.
-/
import LedgerClient.Proofs.Assembly
import LedgerClient.Proofs.Proposal.Content

namespace LedgerClient

open Protocol

/-- The same with other private data, where there are any. -/
def Purpose.withTransientMap (m : List (String × Bytes)) : Purpose → Purpose
  | invocation r => .invocation { r with transientMap := m }
  | instantiation r operation policy collections =>
    .instantiation { r with transientMap := m } operation policy collections
  | purpose => purpose

/-- Private data go with calls of chaincodes, and with their start and upgrade. -/
def Purpose.isPrivate : Purpose → Bool
  | invocation _ | instantiation .. => true
  | _ => false

variable {s assembler : Signer} {stamp : Stamp} {m m' : List (String × Bytes)}

theorem Purpose.transientMap_withTransientMap {purpose : Purpose} (h : purpose.isPrivate = true) :
    (purpose.withTransientMap m).transientMap = m := by
  cases purpose <;> first | rfl | cases h

/-! ## The transaction -/

/-- The transaction is made of the header and the input of its proposal. -/
theorem assemble_congr {q q' : SignedRequest} (hh : q.header = q'.header)
    (hi : q.payload.input = q'.payload.input) (answers : List (String × ProposalResponse)) :
    assemble assembler q answers = assemble assembler q' answers := by
  cases answers with
  | nil => rfl
  | cons first rest => simp only [assemble, hh, hi]

/-- What a transaction is made of. -/
def SignedRequest.shared (q : SignedRequest) : Header × Bytes := (q.header, q.payload.input)

theorem Signer.shared_proposeInstantiation (r : ChaincodeRequest) (operation : String) (policy : Option String)
    (collections : Option Bytes) :
    (s.proposeInstantiation stamp { r with transientMap := m } operation policy collections).map
        SignedRequest.shared =
      (s.proposeInstantiation stamp { r with transientMap := m' } operation policy collections).map
        SignedRequest.shared := by
  rw [proposeInstantiation_eq, proposeInstantiation_eq]
  split
  next => cases chosenPolicy s.mspId policy <;> rfl
  next => rfl

/-- Whether there is a proposal, why not and what a transaction is made of is the same whatever the
private data are. -/
theorem Purpose.shared_propose (purpose : Purpose) :
    ((purpose.withTransientMap m).propose s stamp).map SignedRequest.shared =
      ((purpose.withTransientMap m').propose s stamp).map SignedRequest.shared := by
  cases purpose with
  | invocation r => rfl
  | instantiation r operation policy collections =>
    exact s.shared_proposeInstantiation r operation policy collections
  | install | join | lifecycleInstall | approval | commit | readinessCheck | query => rfl

theorem SignedRequest.assemble_eq_of_shared_eq {q q' : SignedRequest} (h : q.shared = q'.shared)
    (answers : List (String × ProposalResponse)) :
    assemble assembler q answers = assemble assembler q' answers :=
  assemble_congr (congrArg Prod.fst h) (congrArg Prod.snd h) answers

/-- No private data get into a transaction: two proposals for one purpose that differ in these alone
become, with the same answers, the same envelope or fail in the same way, and if there is no proposal
with the ones, then for the same reason there is none with the others. Each proposal itself holds its
own data, all of it. -/
theorem assemble_private (s assembler : Signer) (stamp : Stamp) (purpose : Purpose) (m m' : List (String × Bytes))
    (answers : List (String × ProposalResponse)) :
    ((purpose.withTransientMap m).propose s stamp).map (fun q => assemble assembler q answers) =
      ((purpose.withTransientMap m').propose s stamp).map (fun q => assemble assembler q answers) ∧
    ∀ q, purpose.isPrivate = true → (purpose.withTransientMap m).propose s stamp = .ok q →
      (m.map Prod.fst).Nodup → q.signed.proposalBytes.length < 2 ^ 64 →
      ∃ said, q.signed.contents? = some said ∧ said.payload.transientMap.Perm m := by
  refine ⟨map_eq_of_map_eq (fun q q' h => q.assemble_eq_of_shared_eq h answers) purpose.shared_propose, ?_⟩
  intro q hprivate hq hm hs
  obtain ⟨c, hasks, rfl⟩ := exists_asks_of_propose hq
  have hc : c.transientMap = m := hasks.transientMap_eq.trans (purpose.transientMap_withTransientMap hprivate)
  subst hc
  exact ⟨_, contents?_proposeCall hm hs, byKey_perm c.transientMap⟩

/-! A call with two private entries, and without any. -/

def bareCall : ChaincodeRequest := { sampleCall with transientMap := [] }

theorem assemble_private_sample :
    assemble sampleClient (sampleClient.proposeInvocation sampleStamp sampleCall) [("peer0", sampleAnswer [5] 1)] =
      assemble sampleClient (sampleClient.proposeInvocation sampleStamp bareCall) [("peer0", sampleAnswer [5] 1)] ∧
    (∃ said, (sampleClient.proposeInvocation sampleStamp sampleCall).signed.contents? = some said ∧
      said.payload.transientMap.Perm sampleCall.transientMap) ∧
    ∃ said, (sampleClient.proposeInvocation sampleStamp bareCall).signed.contents? = some said ∧
      said.payload.transientMap = [] := by
  obtain ⟨hsame, hsent⟩ := assemble_private sampleClient sampleClient sampleStamp (.invocation sampleCall)
    sampleCall.transientMap [] [("peer0", sampleAnswer [5] 1)]
  obtain ⟨-, hsent'⟩ := assemble_private sampleClient sampleClient sampleStamp (.invocation sampleCall) [] [] []
  obtain ⟨said, hread, hmap⟩ := hsent' _ rfl rfl .nil (by decide +kernel)
  exact ⟨Except.ok.inj hsame, hsent _ rfl rfl (by decide) (by decide +kernel), said, hread, hmap.eq_nil⟩

end LedgerClient
