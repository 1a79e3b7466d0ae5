/-
One chaincode definition in three operations.

An organization approves a definition, asks whether it can be committed, and
commits it. The three proposals are made or refused together, and read from the
bytes that are signed they spell the same definition: the argument of the
question is that of the commitment, and the argument of the approval is the same
bytes with the source of the code behind them (`operations_share_definition`).
-/
import LedgerClient.Proofs.Policy.Depth
import LedgerClient.Proofs.Proposal.Content

namespace LedgerClient

open Protocol Wire

/-! ## The argument of an operation -/

/-- A proposal calls a function of the lifecycle chaincode on a channel, with one argument besides its name, and the
argument spells `args`. Both are read from the bytes, unless there are too many of them to be counted. -/
structure Requests {α : Type} [Typed α] (s : Signer) (stamp : Stamp) (channelId function : String) (args : α)
    (argument : Bytes) (request : SignedRequest) : Prop where
  made : request = s.proposeLifecycle stamp channelId function argument
  spells : argument = encode args
  said : request.signed.proposalBytes.length < 2 ^ 64 →
    ∃ said, request.signed.contents? = some said ∧ said.channelHeader.channelId = channelId ∧
      said.extension.chaincodeId = some { name := "_lifecycle" } ∧
      said.invocation.spec = some { type := golang, chaincodeId := some { name := "_lifecycle" }
                                    input := some { args := [Utf8.encode function, argument] } }
  read : request.signed.proposalBytes.length < 2 ^ 64 → decode? α argument = some args

section Argument

variable (s : Signer) (stamp : Stamp) (channelId function : String) {α : Type} [Typed α] {args : α}

theorem size_le_proposeLifecycle (args : α) :
    size args ≤ (s.proposeLifecycle stamp channelId function (encode args)).signed.proposalBytes.length := by
  let c : Call :=
    { channelId, chaincodeId := { name := "_lifecycle" }, args := [Utf8.encode function, encode args] }
  have h := length_arg_le s stamp (c := c) (a := encode args) (by simp [c])
  rwa [length_encode] at h

/-- What is asked of the lifecycle chaincode is read from the proposal. -/
theorem requests_proposeLifecycle {argument : Bytes} {depth : Nat} (ha : Faithful depth args)
    (hd : depth ≤ Message.nestingLimit) (hspells : encode args = argument) :
    Requests s stamp channelId function args argument (s.proposeLifecycle stamp channelId function (encode args)) := by
  subst hspells
  let c : Call :=
    { channelId, chaincodeId := { name := "_lifecycle" }, args := [Utf8.encode function, encode args] }
  refine ⟨rfl, rfl, fun hs => ?_, fun hs => ?_⟩
  · have hread : (s.proposeCall stamp c).signed.contents? = _ := contents?_proposeCall List.nodup_nil hs
    exact ⟨_, hread, rfl, rfl, rfl⟩
  · exact ha.decode?_encode hd (Nat.lt_of_le_of_lt (size_le_proposeLifecycle s stamp channelId function args) hs)

end Argument

/-! ## The definition -/

namespace ChaincodeDefinition

variable {d : ChaincodeDefinition} {parameter : Bytes}

/-- What is asked about a definition, and at last for it. -/
def operations (d : ChaincodeDefinition) (channelId packageId : String) : List Purpose :=
  [.approval channelId d packageId, .commit channelId d, .readinessCheck channelId d]

/-- A definition is refused for its policy alone. -/
theorem toArgs_eq_error {error : ClientError} (h : d.toArgs = .error error) :
    ∃ fault, d.policy ≠ "" ∧ Policy.parse d.policy = .error fault ∧ error = .invalidPolicy fault := by
  have h : d.validationParameter = .error error := bind_ok_eq_error_iff.1 h
  rw [validationParameter] at h
  split at h
  next => cases h
  next hne =>
    have h : ClientError.ofPolicy (Policy.parse d.policy) = .error error := bind_ok_eq_error_iff.1 h
    obtain ⟨fault, hfault, rfl⟩ := mapError_eq_error_iff.1 h
    exact ⟨fault, fun hempty => hne (String.isEmpty_iff.2 hempty), hfault, rfl⟩

theorem encode_readinessCheck (args : CommitChaincodeDefinitionArgs) :
    encode ({ definition := args } : CheckCommitReadinessArgs) = encode args := rfl

/-- The source of the code follows the definition. -/
theorem encode_approval (args : CommitChaincodeDefinitionArgs) (packageId : String) :
    encode ({ definition := args, source := some (.localPackage packageId) } : ApproveChaincodeDefinitionArgs) =
      encode args ++ Field.write (.message 9 [.message 2 (Message.ofText 1 packageId)]) := by
  simp only [encode, Typed.toMessage, Message.encode_append]
  simp [Message.encode, Field.writeAll, Message.ofChild?, Typed.toMessage]

theorem policy_of_parameter (hp : PolicyParameter d.policy parameter) :
    (d.policy = "" ∧ parameter = []) ∨
      ∃ policy, Policy.parse d.policy = .ok policy ∧ parameter = encode (ApplicationPolicy.signaturePolicy policy) := by
  generalize d.policy = text at hp
  cases hp with
  | absent => exact .inl ⟨rfl, rfl⟩
  | given _ hparse => exact .inr ⟨_, hparse, rfl⟩

theorem parameter_eq (hp : PolicyParameter d.policy parameter) {e : Policy.Expr}
    (he : Policy.parseExpr d.policy = .ok e) :
    parameter = encode (ApplicationPolicy.signaturePolicy e.toPolicy) := by
  have hparse : Policy.parse d.policy = .ok e.toPolicy := map_eq_ok_iff.2 ⟨e, he, rfl⟩
  obtain ⟨hempty, -⟩ | ⟨policy, hpolicy, rfl⟩ := policy_of_parameter hp
  · rw [hempty] at he
    cases he
  · rw [Except.ok.inj (hparse.symm.trans hpolicy)]

/-- A policy that is not nested too deep is read back. -/
theorem decode?_policy {e : Policy.Expr} (he : Policy.parseExpr d.policy = .ok e) (hdepth : ∀ k, e.Inside k → k ≤ 49)
    (hs : (encode (ApplicationPolicy.signaturePolicy e.toPolicy)).length < 2 ^ 64) :
    decode? ApplicationPolicy (encode (ApplicationPolicy.signaturePolicy e.toPolicy)) =
      some (.signaturePolicy e.toPolicy) := by
  obtain ⟨_, -, hspells⟩ := Policy.parseExpr_eq_ok_iff.1 he
  obtain ⟨levels, hfaithful⟩ := e.faithful_toPolicy
  have hle := hdepth _ hspells.sound.inside_depth
  have hnesting : (Typed.toMessage (Policy.wrapped e.toPolicy)).nesting ≤ Message.nestingLimit := by
    rw [Policy.nesting_wrapped, Policy.Expr.nesting_toPolicy hspells.sound, Message.nestingLimit]
    omega
  rw [length_encode] at hs
  exact (ApplicationPolicy.faithful_signaturePolicy hfaithful).decode?_encode_of_nesting hnesting hs

end ChaincodeDefinition

namespace Signer

variable (s : Signer) (stamp : Stamp) (channelId : String) {d : ChaincodeDefinition}
  {definition : CommitChaincodeDefinitionArgs} (h : d.toArgs = .ok definition)
include h

theorem proposeApproval_of_toArgs (packageId : String) :
    s.proposeApproval stamp channelId d packageId =
      .ok (s.proposeLifecycle stamp channelId "ApproveChaincodeDefinitionForMyOrg"
        (encode ({ definition, source := some (.localPackage packageId) } : ApproveChaincodeDefinitionArgs))) := by
  rw [proposeApproval, h]
  rfl

theorem proposeCommit_of_toArgs :
    s.proposeCommit stamp channelId d =
      .ok (s.proposeLifecycle stamp channelId "CommitChaincodeDefinition" (encode definition)) := by
  rw [proposeCommit, h]
  rfl

theorem proposeReadinessCheck_of_toArgs :
    s.proposeReadinessCheck stamp channelId d =
      .ok (s.proposeLifecycle stamp channelId "CheckCommitReadiness"
        (encode ({ definition } : CheckCommitReadinessArgs))) := by
  rw [proposeReadinessCheck, h]
  rfl

end Signer

/-- **One definition.** The approval of a definition, the question whether it is ready and its commitment are refused
together, for a policy that is there and cannot be read, or all made. Then they call their functions with one argument,
which holds the definition, and the approval's goes on with field 9, which holds the id of the package. -/
theorem operations_share_definition (s : Signer) (stamp : Stamp) (channelId : String) (d : ChaincodeDefinition)
    (packageId : String) :
    (∃ fault, d.policy ≠ "" ∧ Policy.parse d.policy = .error fault ∧
      ∀ purpose ∈ d.operations channelId packageId, purpose.propose s stamp = .error (.invalidPolicy fault)) ∨
    (d.policy = "" ∨ ∃ policy, Policy.parse d.policy = .ok policy) ∧
      ∃ approval commit readiness parameter argument,
        s.proposeApproval stamp channelId d packageId = .ok approval ∧ s.proposeCommit stamp channelId d = .ok commit ∧
        s.proposeReadinessCheck stamp channelId d = .ok readiness ∧
        Requests s stamp channelId "CommitChaincodeDefinition" (d.args parameter) argument commit ∧
        Requests s stamp channelId "CheckCommitReadiness"
          ({ definition := d.args parameter } : CheckCommitReadinessArgs) argument readiness ∧
        Requests s stamp channelId "ApproveChaincodeDefinitionForMyOrg"
          ({ definition := d.args parameter, source := some (.localPackage packageId) } :
            ApproveChaincodeDefinitionArgs)
          (argument ++ Field.write (.message 9 [.message 2 (Message.ofText 1 packageId)])) approval ∧
        (d.policy = "" → parameter = []) ∧
        ∀ e, Policy.parseExpr d.policy = .ok e →
          Policy.parse d.policy = .ok e.toPolicy ∧
          parameter = encode (ApplicationPolicy.signaturePolicy e.toPolicy) ∧
          ((∀ k, e.Inside k → k ≤ 49) → parameter.length < 2 ^ 64 →
            decode? ApplicationPolicy parameter = some (.signaturePolicy e.toPolicy)) := by
  cases hargs : d.toArgs with
  | error error =>
    obtain ⟨fault, hne, hparse, rfl⟩ := ChaincodeDefinition.toArgs_eq_error hargs
    refine .inl ⟨fault, hne, hparse, ?_⟩
    simp only [ChaincodeDefinition.operations, List.forall_mem_cons, List.not_mem_nil, false_implies, implies_true,
      and_true, Purpose.propose, Signer.proposeApproval, Signer.proposeCommit, Signer.proposeReadinessCheck, hargs]
    exact ⟨rfl, rfl, rfl⟩
  | ok args =>
    obtain ⟨parameter, hp, rfl⟩ := ChaincodeDefinition.of_toArgs_eq_ok hargs
    have hcommit := requests_proposeLifecycle s stamp channelId "CommitChaincodeDefinition"
      (d.args parameter).faithful (by decide) rfl
    have hreadiness := requests_proposeLifecycle s stamp channelId "CheckCommitReadiness"
      (CheckCommitReadinessArgs.faithful { definition := d.args parameter }) (by decide)
      (ChaincodeDefinition.encode_readinessCheck _)
    have happroval := requests_proposeLifecycle s stamp channelId "ApproveChaincodeDefinitionForMyOrg"
      (ApproveChaincodeDefinitionArgs.faithful
        { definition := d.args parameter, source := some (.localPackage packageId) }) (by decide)
      (ChaincodeDefinition.encode_approval _ _)
    refine .inr ⟨?_, _, _, _, parameter, encode (d.args parameter),
      s.proposeApproval_of_toArgs stamp channelId hargs packageId, s.proposeCommit_of_toArgs stamp channelId hargs,
      s.proposeReadinessCheck_of_toArgs stamp channelId hargs, hcommit, hreadiness, happroval, ?_, ?_⟩
    · obtain ⟨hempty, -⟩ | ⟨policy, hpolicy, -⟩ := ChaincodeDefinition.policy_of_parameter hp
      · exact .inl hempty
      · exact .inr ⟨policy, hpolicy⟩
    · intro hempty
      obtain ⟨-, hparameter⟩ | ⟨policy, hpolicy, -⟩ := ChaincodeDefinition.policy_of_parameter hp
      · exact hparameter
      · rw [hempty] at hpolicy
        cases hpolicy
    · intro e he
      have hparameter := ChaincodeDefinition.parameter_eq hp he
      refine ⟨map_eq_ok_iff.2 ⟨e, he, rfl⟩, hparameter, fun hdepth hs => ?_⟩
      rw [hparameter] at hs ⊢
      exact ChaincodeDefinition.decode?_policy he hdepth hs

/-! A definition with a policy of its own, before its first version. -/

def sampleDefinition : ChaincodeDefinition :=
  { name := "basic", version := "1.0", sequence := -1, policy := String.ofList (Policy.nestedText 1)
    initRequired := true }

theorem operations_share_definition_sample :
    ∃ approval commit readiness parameter argument,
      sampleClient.proposeApproval sampleStamp "mychannel" sampleDefinition "basic:1" = .ok approval ∧
      sampleClient.proposeCommit sampleStamp "mychannel" sampleDefinition = .ok commit ∧
      sampleClient.proposeReadinessCheck sampleStamp "mychannel" sampleDefinition = .ok readiness ∧
      decode? CommitChaincodeDefinitionArgs argument = some (sampleDefinition.args parameter) ∧
      decode? CheckCommitReadinessArgs argument = some { definition := sampleDefinition.args parameter } ∧
      decode? ApproveChaincodeDefinitionArgs
          (argument ++ Field.write (.message 9 [.message 2 (Message.ofText 1 "basic:1")])) =
        some { definition := sampleDefinition.args parameter, source := some (.localPackage "basic:1") } ∧
      decode? ApplicationPolicy parameter = some (.signaturePolicy (Policy.nestedExpr 1).toPolicy) := by
  have hparse : Policy.parseExpr sampleDefinition.policy = .ok (Policy.nestedExpr 1) :=
    Policy.parseExpr_nestedText (by decide +kernel)
  have hdepth (k : Nat) (hk : (Policy.nestedExpr 1).Inside k) : k ≤ 49 :=
    Nat.le_trans ((Policy.isGreatest_nestedExpr 1).2 hk) (by decide)
  have hargs : sampleDefinition.toArgs =
      .ok (sampleDefinition.args (encode (ApplicationPolicy.signaturePolicy (Policy.nestedExpr 1).toPolicy))) := by
    decide +kernel
  have hsize : ∀ purpose ∈ sampleDefinition.operations "mychannel" "basic:1", ∀ request,
      purpose.propose sampleClient sampleStamp = .ok request → request.signed.proposalBytes.length < 2 ^ 64 := by
    simp only [ChaincodeDefinition.operations, List.forall_mem_cons, List.not_mem_nil, false_implies, implies_true,
      and_true, Purpose.propose, Signer.proposeApproval_of_toArgs _ _ _ hargs,
      Signer.proposeCommit_of_toArgs _ _ _ hargs, Signer.proposeReadinessCheck_of_toArgs _ _ _ hargs,
      Except.ok.injEq, forall_eq']
    refine ⟨?_, ?_, ?_⟩ <;> decide +kernel
  obtain ⟨fault, -, hfault, -⟩ | ⟨-, approval, commit, readiness, parameter, argument, happroval, hcommit, hreadiness,
      hcommitAsks, hreadinessAsks, happrovalAsks, -, hpolicy⟩ :=
    operations_share_definition sampleClient sampleStamp "mychannel" sampleDefinition "basic:1"
  · cases hfault.symm.trans (map_eq_ok_iff.2 ⟨_, hparse, rfl⟩)
  · obtain ⟨-, rfl, hread⟩ := hpolicy _ hparse
    exact ⟨approval, commit, readiness, _, argument, happroval, hcommit, hreadiness,
      hcommitAsks.read (hsize (.commit _ _) (by simp [ChaincodeDefinition.operations]) _ hcommit),
      hreadinessAsks.read (hsize (.readinessCheck _ _) (by simp [ChaincodeDefinition.operations]) _ hreadiness),
      happrovalAsks.read (hsize (.approval _ _ _) (by simp [ChaincodeDefinition.operations]) _ happroval),
      hread hdepth (by decide +kernel)⟩

end LedgerClient
