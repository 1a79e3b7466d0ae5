/-
What starts or upgrades a chaincode.

The deployment chaincode is called with arguments that are told apart by their
places: the operation, the channel, what is deployed, the endorsement policy,
and the collections behind all others. Two of them are messages of their own.
`instantiations_carry_arguments` says when a proposal is made, and of every one
that is made which arguments it has and what is read from them. Without a policy
one member of the signer's organization suffices, which is what the text
`OutOf(1, '….member')` says of it.
-/
import LedgerClient.Proofs.Policy.Rendering
import LedgerClient.Proofs.Proposal.Content

namespace LedgerClient

open Protocol

theorem ChaincodeRequest.decode?_deployment (r : ChaincodeRequest)
    (hs : (Wire.encode r.deployment).length < 2 ^ 64) :
    Wire.decode? ChaincodeDeploymentSpec (Wire.encode r.deployment) = some r.deployment := by
  have hfaithful : Wire.Faithful 3 r.deployment := by
    refine ChaincodeDeploymentSpec.faithful fun c i hspec hinput => ?_
    cases hspec
    cases hinput
    exact .nil
  rw [Wire.length_encode] at hs
  exact hfaithful.decode?_encode (by decide) hs

/-! ## Policies -/

section Policies

variable {mspId t : String} {text : Option String} {policy accepted : SignaturePolicyEnvelope} {fault : Policy.Fault}

theorem exists_chosenPolicy_iff (mspId : String) :
    (∃ policy, ChosenPolicy mspId text policy) ↔
      text = none ∨ text = some "" ∨ ∃ t policy, text = some t ∧ Policy.parse t = .ok policy := by
  constructor
  · rintro ⟨_, _ | _ | ⟨_, hp⟩⟩
    · exact .inl rfl
    · exact .inr (.inl rfl)
    · exact .inr (.inr ⟨_, _, rfl, hp⟩)
  · rintro (rfl | rfl | ⟨t, policy, rfl, hp⟩)
    · exact ⟨_, .absent⟩
    · exact ⟨_, .empty⟩
    · by_cases hempty : t = ""
      · subst hempty
        exact ⟨_, .empty⟩
      · exact ⟨_, .given hempty hp⟩

theorem ChosenPolicy.eq_of_parse (h : ChosenPolicy mspId (some t) policy) (hp : Policy.parse t = .ok accepted) :
    policy = accepted := by
  cases h with
  | empty => cases hp
  | given _ hp' => exact Except.ok.inj (hp'.symm.trans hp)

theorem chosenPolicy_of_refused (hne : t ≠ "") (hp : Policy.parse t = .error fault) :
    chosenPolicy mspId (some t) = .error (.invalidPolicy fault) := by
  rw [chosenPolicy, if_neg fun hempty => hne (String.isEmpty_iff.1 hempty), hp]
  rfl

end Policies

/-! ## What it says -/

/-- A proposal calls the deployment chaincode on a channel, with these arguments. All of this is read from the bytes,
unless there are too many of them to be counted; the keys of a transient map are distinct. -/
structure CallsDeployment (s : Signer) (stamp : Stamp) (channelId : String) (args : List Bytes)
    (transientMap : List (String × Bytes)) (request : SignedRequest) : Prop where
  made : request = s.proposeSystemCall stamp channelId .deployment args transientMap
  said : (transientMap.map Prod.fst).Nodup → request.signed.proposalBytes.length < 2 ^ 64 →
    ∃ said, request.signed.contents? = some said ∧ said.channelHeader.channelId = channelId ∧
      said.extension.chaincodeId = some { name := "lscc" } ∧
      said.invocation.spec = some { type := golang, chaincodeId := some { name := "lscc" }, input := some { args } }

theorem callsDeployment_proposeCall (s : Signer) (stamp : Stamp) (channelId : String) (args : List Bytes)
    (transientMap : List (String × Bytes)) :
    CallsDeployment s stamp channelId args transientMap
      (s.proposeCall stamp { channelId, chaincodeId := { name := "lscc" }, args, transientMap }) where
  made := rfl
  said hm hs := ⟨_, contents?_proposeCall hm hs, rfl, rfl, rfl⟩

/-- **The arguments of an instantiation.** A proposal is made exactly for the two operations and a policy that is
absent, empty or accepted, and the operation is looked at first. It calls the deployment chaincode on the channel of
the request with six arguments, and with the collections as a seventh unless there are none; the third is read as what
is deployed, the fourth is the policy. The policy that stands in for an absent one, that any member of the signer's
organization may endorse, can be written down for every organization without a quote in its name. -/
theorem instantiations_carry_arguments (s : Signer) (stamp : Stamp) (r : ChaincodeRequest) (operation : String)
    (text : Option String) (collections : Option Bytes) :
    ((∃ request, s.proposeInstantiation stamp r operation text collections = .ok request) ↔
      (operation = "deploy" ∨ operation = "upgrade") ∧
        (text = none ∨ text = some "" ∨ ∃ t policy, text = some t ∧ Policy.parse t = .ok policy)) ∧
    (¬ (operation = "deploy" ∨ operation = "upgrade") →
      s.proposeInstantiation stamp r operation text collections =
        .error (.invalidOperation (.notDeployOrUpgrade operation))) ∧
    (∀ t fault, operation = "deploy" ∨ operation = "upgrade" → text = some t → t ≠ "" →
      Policy.parse t = .error fault →
        s.proposeInstantiation stamp r operation text collections = .error (.invalidPolicy fault)) ∧
    (∀ request, s.proposeInstantiation stamp r operation text collections = .ok request →
      ∃ policy, ChosenPolicy s.mspId text policy ∧
        CallsDeployment s stamp r.channelId (r.instantiationArgs operation policy collections) r.transientMap request ∧
        (request.signed.proposalBytes.length < 2 ^ 64 →
          Wire.decode? ChaincodeDeploymentSpec (Wire.encode r.deployment) = some r.deployment)) ∧
    ∀ mspId : String, mspId ≠ "" → '\'' ∉ mspId.toList →
      Policy.parse ("OutOf(1, '" ++ mspId ++ ".member')") = .ok (Policy.signedByMember mspId) := by
  refine ⟨?_, fun ho => ?_, ?_, fun request h => ?_, fun _ => Policy.parse_anyMember⟩
  · rw [← exists_chosenPolicy_iff s.mspId]
    simp only [Signer.proposeInstantiation_eq_ok_iff]
    constructor
    · rintro ⟨request, ho, policy, hp, -⟩
      exact ⟨ho, policy, hp⟩
    · rintro ⟨ho, policy, hp⟩
      exact ⟨_, ho, policy, hp, rfl⟩
  · rw [s.proposeInstantiation_eq, if_neg ho]
  · rintro t fault ho rfl hne hp
    rw [s.proposeInstantiation_eq, if_pos ho, chosenPolicy_of_refused hne hp]
    rfl
  · obtain ⟨-, policy, hp, rfl⟩ := s.proposeInstantiation_eq_ok_iff.1 h
    refine ⟨policy, hp, callsDeployment_proposeCall s stamp _ _ _, fun hs => ?_⟩
    have hmem : Wire.encode r.deployment ∈ r.instantiationArgs operation policy collections := by
      simp [ChaincodeRequest.instantiationArgs]
    exact r.decode?_deployment (Nat.lt_of_le_of_lt (length_arg_le s stamp hmem) hs)

/-! An upgrade with collections and a policy of an organization that has dots in its name. -/

theorem instantiations_carry_arguments_upgrade :
    sampleClient.proposeInstantiation sampleStamp sampleCall "install" (some "AND") (some [10, 0]) =
        .error (.invalidOperation (.notDeployOrUpgrade "install")) ∧
      ∃ request said, sampleClient.proposeInstantiation sampleStamp sampleCall "upgrade"
          (some ("OutOf(1, '" ++ "org.one" ++ ".member')")) (some [10, 0]) = .ok request ∧
        request.signed.contents? = some said ∧
        (said.invocation.spec.bind (·.input)).map (·.args.drop 3) =
          some [Wire.encode (Policy.signedByMember "org.one"), [101, 115, 99, 99], [118, 115, 99, 99], [10, 0]] ∧
        Wire.decode? ChaincodeDeploymentSpec (Wire.encode sampleCall.deployment) = some sampleCall.deployment := by
  obtain ⟨-, hrefused, -⟩ :=
    instantiations_carry_arguments sampleClient sampleStamp sampleCall "install" (some "AND") (some [10, 0])
  obtain ⟨hmade, -, -, hcarries, hmember⟩ := instantiations_carry_arguments sampleClient sampleStamp sampleCall
    "upgrade" (some ("OutOf(1, '" ++ "org.one" ++ ".member')")) (some [10, 0])
  have hparse := hmember "org.one" (by decide) (by decide)
  obtain ⟨request, hrequest⟩ := hmade.2 ⟨.inr rfl, .inr (.inr ⟨_, _, rfl, hparse⟩)⟩
  obtain ⟨policy, hpolicy, hcalls, hread⟩ := hcarries request hrequest
  obtain rfl := hpolicy.eq_of_parse hparse
  have hs : request.signed.proposalBytes.length < 2 ^ 64 := by
    rw [hcalls.made]
    decide +kernel
  obtain ⟨said, hsaid, -, -, hspec⟩ := hcalls.said (by decide) hs
  refine ⟨hrefused (by decide), request, said, hrequest, hsaid, ?_, hread hs⟩
  rw [hspec]
  rfl

end LedgerClient
