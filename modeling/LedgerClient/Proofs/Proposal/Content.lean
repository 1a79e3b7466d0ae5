/-
What a proposal says is what was asked for.

A proposal is made for one of nine purposes. `Asks` says of each what it asks
for: a call of a chaincode, with its arguments, on a channel or on none. What a
proposal says is read from the bytes that are signed, layer by layer
(`SignedProposal.contents?`); `propose_says_call` finds the call there, under an id
made of the nonce and the creator that stand beside it.
-/
import LedgerClient.Proofs.Except
import LedgerClient.Proofs.Protocol
import LedgerClient.Proposal.Build

namespace LedgerClient

open Protocol

/-! ## Reading a proposal -/

/-- The layers of a signed proposal. -/
structure Protocol.SignedProposal.Contents where
  header : Header
  channelHeader : ChannelHeader
  extension : ChaincodeHeaderExtension
  signatureHeader : SignatureHeader
  creator : SerializedIdentity
  payload : ChaincodeProposalPayload
  invocation : ChaincodeInvocationSpec

def Protocol.SignedProposal.contents? (p : SignedProposal) : Option Contents := do
  let proposal ← Wire.decode? Proposal p.proposalBytes
  let header ← Wire.decode? Header proposal.header
  let channelHeader ← Wire.decode? ChannelHeader header.channelHeader
  let extension ← Wire.decode? ChaincodeHeaderExtension channelHeader.extension
  let signatureHeader ← Wire.decode? SignatureHeader header.signatureHeader
  let creator ← Wire.decode? SerializedIdentity signatureHeader.creator
  let payload ← Wire.decode? ChaincodeProposalPayload proposal.payload
  let invocation ← Wire.decode? ChaincodeInvocationSpec payload.input
  return { header, channelHeader, extension, signatureHeader, creator, payload, invocation }

/-! ## What is asked for -/

/-- A call of a chaincode, on a channel unless that is empty. -/
structure Call where
  channelId : String := ""
  chaincodeId : ChaincodeId
  type : Int32 := golang
  args : List Bytes
  isInit : Bool := false
  transientMap : List (String × Bytes) := []

def Call.spec (c : Call) : ChaincodeSpec :=
  { type := c.type, chaincodeId := some c.chaincodeId, input := some { args := c.args, isInit := c.isInit } }

/-- What a proposal is made for. -/
inductive Purpose where
  | invocation (r : ChaincodeRequest)
  | instantiation (r : ChaincodeRequest) (operation : String) (policy : Option String) (collections : Option Bytes)
  | install (r : ChaincodeRequest) (package : Bytes)
  | join (genesis : Block)
  | lifecycleInstall (package : Bytes)
  | approval (channelId : String) (d : ChaincodeDefinition) (packageId : String)
  | commit (channelId : String) (d : ChaincodeDefinition)
  | readinessCheck (channelId : String) (d : ChaincodeDefinition)
  | query (channelId function : String) (args : List String)

/-- The private data that go with it. -/
def Purpose.transientMap : Purpose → List (String × Bytes)
  | invocation r => r.transientMap
  | instantiation r _ _ _ => r.transientMap
  | _ => []

def Purpose.propose (s : Signer) (stamp : Stamp) : Purpose → Except ClientError SignedRequest
  | invocation r => .ok (s.proposeInvocation stamp r)
  | instantiation r operation policy collections => s.proposeInstantiation stamp r operation policy collections
  | install r package => .ok (s.proposeInstall stamp r package)
  | join genesis => .ok (s.proposeJoin stamp genesis)
  | lifecycleInstall package => .ok (s.proposeLifecycleInstall stamp package)
  | approval channelId d packageId => s.proposeApproval stamp channelId d packageId
  | commit channelId d => s.proposeCommit stamp channelId d
  | readinessCheck channelId d => s.proposeReadinessCheck stamp channelId d
  | query channelId function args => .ok (s.proposeQuery stamp channelId function args)

/-- The policy that a text stands for; without any, that one member of the organization signs. -/
inductive ChosenPolicy (mspId : String) : Option String → SignaturePolicyEnvelope → Prop where
  | absent : ChosenPolicy mspId none (Policy.signedByMember mspId)
  | empty : ChosenPolicy mspId (some "") (Policy.signedByMember mspId)
  | given {text : String} {policy : SignaturePolicyEnvelope} (h : text ≠ "") (hp : Policy.parse text = .ok policy) :
      ChosenPolicy mspId (some text) policy

/-- How the policy of a definition travels: not at all if it is the channel's own. -/
inductive PolicyParameter : String → Bytes → Prop where
  | absent : PolicyParameter "" []
  | given {text : String} {policy : SignaturePolicyEnvelope} (h : text ≠ "") (hp : Policy.parse text = .ok policy) :
      PolicyParameter text (Wire.encode (ApplicationPolicy.signaturePolicy policy))

def ChaincodeDefinition.args (d : ChaincodeDefinition) (validationParameter : Bytes) : CommitChaincodeDefinitionArgs :=
  { sequence := d.sequence, name := d.name, version := d.version, endorsementPlugin := d.endorsementPlugin
    validationPlugin := d.validationPlugin, validationParameter, initRequired := d.initRequired }

/-- What is asked for each purpose. -/
inductive Asks (s : Signer) : Purpose → Call → Prop where
  | invocation {r : ChaincodeRequest} : Asks s (.invocation r)
      { channelId := r.channelId, chaincodeId := { name := r.name }, type := r.chaincodeType, args := r.encodedArgs
        isInit := r.isInit, transientMap := r.transientMap }
  | instantiation {r : ChaincodeRequest} {operation : String} {text : Option String} {policy : SignaturePolicyEnvelope}
      {collections : Option Bytes} (ho : operation = "deploy" ∨ operation = "upgrade")
      (hp : ChosenPolicy s.mspId text policy) : Asks s (.instantiation r operation text collections)
      { channelId := r.channelId, chaincodeId := { name := "lscc" }, transientMap := r.transientMap
        args :=
          [Utf8.encode operation, Utf8.encode r.channelId,
            Wire.encode ({ spec := some (r.spec { name := r.name, version := r.version }) } : ChaincodeDeploymentSpec),
            Wire.encode policy, Utf8.encode "escc", Utf8.encode "vscc"] ++
          match collections with
          | some (b :: bs) => [b :: bs]
          | _ => [] }
  | install {r : ChaincodeRequest} {package : Bytes} : Asks s (.install r package)
      { chaincodeId := { name := "lscc" }
        args := [Utf8.encode "install",
          Wire.encode ({ spec := some (r.spec { path := r.path, name := r.name, version := r.version })
                         codePackage := package } : ChaincodeDeploymentSpec)] }
  | join {genesis : Block} : Asks s (.join genesis)
      { chaincodeId := { name := "cscc" }, args := [Utf8.encode "JoinChain", Wire.encode genesis] }
  | lifecycleInstall {package : Bytes} : Asks s (.lifecycleInstall package)
      { chaincodeId := { name := "_lifecycle" }
        args := [Utf8.encode "InstallChaincode", Wire.encode ({ package } : InstallChaincodeArgs)] }
  | approval {channelId : String} {d : ChaincodeDefinition} {packageId : String} {parameter : Bytes}
      (hp : PolicyParameter d.policy parameter) : Asks s (.approval channelId d packageId)
      { channelId, chaincodeId := { name := "_lifecycle" }
        args := [Utf8.encode "ApproveChaincodeDefinitionForMyOrg",
          Wire.encode ({ definition := d.args parameter, source := some (.localPackage packageId) } :
            ApproveChaincodeDefinitionArgs)] }
  | commit {channelId : String} {d : ChaincodeDefinition} {parameter : Bytes}
      (hp : PolicyParameter d.policy parameter) : Asks s (.commit channelId d)
      { channelId, chaincodeId := { name := "_lifecycle" }
        args := [Utf8.encode "CommitChaincodeDefinition", Wire.encode (d.args parameter)] }
  | readinessCheck {channelId : String} {d : ChaincodeDefinition} {parameter : Bytes}
      (hp : PolicyParameter d.policy parameter) : Asks s (.readinessCheck channelId d)
      { channelId, chaincodeId := { name := "_lifecycle" }
        args := [Utf8.encode "CheckCommitReadiness",
          Wire.encode ({ definition := d.args parameter } : CheckCommitReadinessArgs)] }
  | query {channelId function : String} {args : List String} : Asks s (.query channelId function args)
      { channelId, chaincodeId := { name := "qscc" }, args := (function :: args).map Utf8.encode }

theorem Asks.transientMap_eq {s : Signer} {purpose : Purpose} {c : Call} (h : Asks s purpose c) :
    c.transientMap = purpose.transientMap := by
  cases h <;> rfl

/-! ## Every proposal is that of what is asked for -/

section Propose

variable {s : Signer} {stamp : Stamp} {request : SignedRequest} {d : ChaincodeDefinition}

def Signer.proposeCall (s : Signer) (stamp : Stamp) (c : Call) : SignedRequest :=
  s.propose stamp c.channelId c.chaincodeId c.spec c.transientMap

theorem ChaincodeDefinition.of_toArgs_eq_ok {args : CommitChaincodeDefinitionArgs} (h : d.toArgs = .ok args) :
    ∃ parameter, PolicyParameter d.policy parameter ∧ args = d.args parameter := by
  obtain ⟨parameter, hp, h⟩ := exists_of_bind_eq_ok h
  cases h
  refine ⟨parameter, ?_, rfl⟩
  rw [validationParameter] at hp
  split at hp
  next hempty =>
    cases hp
    rw [String.isEmpty_iff.1 hempty]
    exact .absent
  next hempty =>
    obtain ⟨policy, hparse, hp⟩ := exists_of_bind_eq_ok hp
    cases hp
    exact .given (fun he => hempty (String.isEmpty_iff.2 he)) (mapError_eq_ok_iff.1 hparse)

/-! The start and the upgrade of a chaincode. -/

section Instantiation

variable {r : ChaincodeRequest} {operation mspId : String} {text : Option String} {policy : SignaturePolicyEnvelope}
  {collections : Option Bytes}

/-- The chaincode of a request under its name and version, with neither path nor code. -/
def ChaincodeRequest.deployment (r : ChaincodeRequest) : ChaincodeDeploymentSpec where
  spec := some
    { type := r.chaincodeType, chaincodeId := some { path := "", name := r.name, version := r.version }
      input := some { args := r.encodedArgs, isInit := r.isInit } }
  codePackage := []

/-- The arguments in their places; there is a seventh exactly if there are collections. -/
def ChaincodeRequest.instantiationArgs (r : ChaincodeRequest) (operation : String) (policy : SignaturePolicyEnvelope)
    (collections : Option Bytes) : List Bytes :=
  [Utf8.encode operation, Utf8.encode r.channelId, Wire.encode r.deployment, Wire.encode policy, Utf8.encode "escc",
    Utf8.encode "vscc"] ++
  if collections.getD [] = [] then [] else [collections.getD []]

def ChaincodeRequest.instantiation (r : ChaincodeRequest) (operation : String) (policy : SignaturePolicyEnvelope)
    (collections : Option Bytes) : Call :=
  { channelId := r.channelId, chaincodeId := { name := "lscc" }, transientMap := r.transientMap
    args := r.instantiationArgs operation policy collections }

theorem Asks.of_chosenPolicy (ho : operation = "deploy" ∨ operation = "upgrade")
    (hp : ChosenPolicy s.mspId text policy) :
    Asks s (.instantiation r operation text collections) (r.instantiation operation policy collections) := by
  rcases collections with _ | ⟨_ | ⟨b, bs⟩⟩ <;> exact .instantiation ho hp

/-- The policy that a text stands for, or why it stands for none. -/
def chosenPolicy (mspId : String) : Option String → Except ClientError SignaturePolicyEnvelope
  | none => .ok (Policy.signedByMember mspId)
  | some text =>
    if text.isEmpty then .ok (Policy.signedByMember mspId) else ClientError.ofPolicy (Policy.parse text)

theorem chosenPolicy_eq_ok_iff : chosenPolicy mspId text = .ok policy ↔ ChosenPolicy mspId text policy := by
  constructor
  · intro h
    cases text with
    | none =>
      cases h
      exact .absent
    | some text =>
      rw [chosenPolicy] at h
      split at h
      next hempty =>
        cases h
        rw [String.isEmpty_iff.1 hempty]
        exact .empty
      next hempty => exact .given (fun he => hempty (String.isEmpty_iff.2 he)) (mapError_eq_ok_iff.1 h)
  · rintro (_ | _ | ⟨hne, hp⟩)
    · rfl
    · rfl
    · rw [chosenPolicy, if_neg fun hempty => hne (String.isEmpty_iff.1 hempty), hp]
      rfl

/-- First the operation is looked at, then the policy. -/
theorem Signer.proposeInstantiation_eq :
    s.proposeInstantiation stamp r operation text collections =
      if operation = "deploy" ∨ operation = "upgrade" then
        chosenPolicy s.mspId text >>= fun policy => .ok (s.proposeCall stamp (r.instantiation operation policy collections))
      else .error (.invalidOperation (.notDeployOrUpgrade operation)) := by
  have hseventh : (collections.filter fun c => !c.isEmpty).toList =
      if collections.getD [] = [] then [] else [collections.getD []] := by
    rcases collections with _ | ⟨_ | ⟨b, bs⟩⟩ <;> rfl
  by_cases ho : operation = "deploy" ∨ operation = "upgrade"
  · have hn : ¬ (operation ≠ "deploy" ∧ operation ≠ "upgrade") := fun h => ho.elim h.1 h.2
    simp only [proposeInstantiation, if_pos ho, if_neg hn, hseventh]
    cases text with
    | none => rfl
    | some text =>
      by_cases hempty : text.isEmpty
      · simp only [chosenPolicy, if_pos hempty]
        rfl
      · simp only [chosenPolicy, if_neg hempty]
        rfl
  · rw [proposeInstantiation, if_pos (not_or.1 ho), if_neg ho]
    rfl

theorem Signer.proposeInstantiation_eq_ok_iff :
    s.proposeInstantiation stamp r operation text collections = .ok request ↔
      (operation = "deploy" ∨ operation = "upgrade") ∧ ∃ policy, ChosenPolicy s.mspId text policy ∧
        s.proposeCall stamp (r.instantiation operation policy collections) = request := by
  rw [proposeInstantiation_eq]
  by_cases ho : operation = "deploy" ∨ operation = "upgrade"
  · rw [if_pos ho]
    simp only [bind_eq_ok_iff, chosenPolicy_eq_ok_iff, Except.ok.injEq, ho, true_and]
  · rw [if_neg ho]
    simp only [ho, false_and, reduceCtorEq]

end Instantiation

theorem exists_asks_of_propose {purpose : Purpose} (h : purpose.propose s stamp = .ok request) :
    ∃ c, Asks s purpose c ∧ request = s.proposeCall stamp c := by
  cases purpose with
  | invocation r => exact ⟨_, .invocation, (Except.ok.inj h).symm⟩
  | instantiation r operation text collections =>
    obtain ⟨ho, policy, hp, rfl⟩ := s.proposeInstantiation_eq_ok_iff.1 h
    exact ⟨_, .of_chosenPolicy ho hp, rfl⟩
  | install r package => exact ⟨_, .install, (Except.ok.inj h).symm⟩
  | join genesis => exact ⟨_, .join, (Except.ok.inj h).symm⟩
  | lifecycleInstall package => exact ⟨_, .lifecycleInstall, (Except.ok.inj h).symm⟩
  | approval channelId d packageId =>
    obtain ⟨_, ha, h⟩ := exists_of_bind_eq_ok h
    obtain ⟨parameter, hp, rfl⟩ := d.of_toArgs_eq_ok ha
    exact ⟨_, .approval hp, (Except.ok.inj h).symm⟩
  | commit channelId d =>
    obtain ⟨_, ha, h⟩ := exists_of_bind_eq_ok h
    obtain ⟨parameter, hp, rfl⟩ := d.of_toArgs_eq_ok ha
    exact ⟨_, .commit hp, (Except.ok.inj h).symm⟩
  | readinessCheck channelId d =>
    obtain ⟨_, ha, h⟩ := exists_of_bind_eq_ok h
    obtain ⟨parameter, hp, rfl⟩ := d.of_toArgs_eq_ok ha
    exact ⟨_, .readinessCheck hp, (Except.ok.inj h).symm⟩
  | query channelId function args => exact ⟨_, .query, (Except.ok.inj h).symm⟩

end Propose

/-! ## The bytes say it -/

variable {s : Signer} {stamp : Stamp} {c : Call} {request : SignedRequest}

/-- What a proposal is put together from, layer by layer, is what is read; the transient map may have
its entries in another order. -/
theorem Protocol.SignedProposal.contents?_eq_some {p : SignedProposal} (said : SignedProposal.Contents)
    (hp : p.proposalBytes =
      Wire.encode ({ header := Wire.encode said.header, payload := Wire.encode said.payload } : Proposal))
    (hc : said.header.channelHeader = Wire.encode said.channelHeader)
    (he : said.channelHeader.extension = Wire.encode said.extension)
    (hsig : said.header.signatureHeader = Wire.encode said.signatureHeader)
    (hi : said.signatureHeader.creator = Wire.encode said.creator)
    (hv : said.payload.input = Wire.encode said.invocation)
    (hm : (said.payload.transientMap.map Prod.fst).Nodup)
    (hd : ∀ c i, said.invocation.spec = some c → c.input = some i → i.decorations = [])
    (hs : p.proposalBytes.length < 2 ^ 64) :
    p.contents? =
      some { said with payload := { said.payload with transientMap := byKey said.payload.transientMap } } := by
  obtain ⟨header, channelHeader, extension, signatureHeader, creator, payload, invocation⟩ := said
  dsimp only at *
  let proposal : Proposal := { header := Wire.encode header, payload := Wire.encode payload }
  have hs : Wire.size proposal < 2 ^ 64 := by rwa [hp, Wire.length_encode] at hs
  have hproposal : Wire.decode? Proposal (Wire.encode proposal) = some proposal :=
    proposal.faithful.decode?_encode (by decide) hs
  -- the header and what is in it
  obtain ⟨hheader, hhs⟩ := header.faithful.decode?_inside (by decide) proposal 1
    (by simp [Wire.Typed.toMessage, proposal]) hs
  obtain ⟨hchannel, hcs⟩ := channelHeader.faithful.decode?_inside (by decide) header 1
    (by simp [Wire.Typed.toMessage, hc]) hhs
  obtain ⟨hextension, -⟩ := extension.faithful.decode?_inside (by decide) channelHeader 7
    (by simp [Wire.Typed.toMessage, he]) hcs
  obtain ⟨hsignature, hss⟩ := signatureHeader.faithful.decode?_inside (by decide) header 2
    (by simp [Wire.Typed.toMessage, hsig]) hhs
  obtain ⟨hcreator, -⟩ := creator.faithful.decode?_inside (by decide) signatureHeader 1
    (by simp [Wire.Typed.toMessage, hi]) hss
  -- the payload, whose map may stand in any order, and the call in it
  have hps : Wire.size payload < 2 ^ 64 :=
    Nat.lt_of_le_of_lt (Wire.size_le_of_bytes 2 (by simp [Wire.Typed.toMessage, proposal])) hs
  have hpayload := decode?_encode_proposalPayload hm hps
  have hfaithful : Wire.Faithful 3 invocation := by
    refine ChaincodeInvocationSpec.faithful fun c i hspec hinput => ?_
    rw [hd c i hspec hinput]
    exact .nil
  obtain ⟨hinvocation, -⟩ := hfaithful.decode?_inside (by decide) payload 1 (by simp [Wire.Typed.toMessage, hv]) hps
  simp only [contents?, hp, hproposal, Option.bind_eq_bind, Option.bind_some, proposal, hheader, hc, hchannel, he,
    hextension, hsig, hsignature, hi, hcreator, hpayload, hv, hinvocation]
  rfl

/-- What the proposal of a call is put together from. -/
def Signer.layers (s : Signer) (stamp : Stamp) (c : Call) : SignedProposal.Contents where
  header := (s.proposeCall stamp c).header
  channelHeader :=
    { type := HeaderType.endorserTransaction.code, timestamp := some stamp.time, channelId := c.channelId
      txId := (s.transactionId stamp).id
      extension := Wire.encode ({ chaincodeId := some c.chaincodeId } : ChaincodeHeaderExtension) }
  extension := { chaincodeId := some c.chaincodeId }
  signatureHeader := s.signatureHeader stamp
  creator := { mspId := s.identity.mspId, idBytes := s.identity.certificate }
  payload := (s.proposeCall stamp c).payload
  invocation := { spec := some c.spec }

theorem contents?_proposeCall (hm : (c.transientMap.map Prod.fst).Nodup)
    (hs : (s.proposeCall stamp c).signed.proposalBytes.length < 2 ^ 64) :
    (s.proposeCall stamp c).signed.contents? =
      some { s.layers stamp c with
        payload := { (s.proposeCall stamp c).payload with transientMap := byKey c.transientMap } } := by
  apply SignedProposal.contents?_eq_some (s.layers stamp c)
  case hs => exact hs
  case hm => exact hm
  case hd =>
    intro spec i hspec hinput
    cases hspec
    cases hinput
    rfl
  -- each layer is encoded in the one around it
  all_goals
    simp only [Signer.layers, Signer.proposeCall, Signer.propose, Signer.header, Signer.signatureHeader,
      Signer.creator, Identity.creator]

theorem length_arg_le_size {a : Bytes} (h : a ∈ c.args) :
    a.length ≤ Wire.size ({ spec := some c.spec } : ChaincodeInvocationSpec) := by
  let input : ChaincodeInput := { args := c.args, isInit := c.isInit }
  have hmem : a ∈ (Wire.Typed.toMessage input).allBytes 1 := by simp [input, Wire.Typed.toMessage, h]
  have harg : a.length ≤ Wire.size input := Wire.Message.length_le_of_mem_allBytes hmem
  have hinput : Wire.size input ≤ Wire.size c.spec :=
    Wire.size_le_of_mem 3 (by simp [Wire.Typed.toMessage, Call.spec, input, Wire.Message.ofChild?])
  exact Nat.le_trans harg (Nat.le_trans hinput (Wire.size_le_of_mem 1 List.mem_cons_self))

theorem length_input_le_size (p : ChaincodeProposalPayload) : p.input.length ≤ Wire.size p := by
  have h := Wire.Message.length_bytes_le (Wire.Typed.toMessage p) 1
  have hinput : (Wire.Typed.toMessage p).bytes 1 = p.input := by simp [Wire.Typed.toMessage]
  rwa [hinput] at h

/-- An argument is no longer than the proposal around it. -/
theorem length_arg_le (s : Signer) (stamp : Stamp) {a : Bytes} (h : a ∈ c.args) :
    a.length ≤ (s.proposeCall stamp c).signed.proposalBytes.length := by
  have hinput : a.length ≤ (s.proposeCall stamp c).payload.input.length := by
    simp only [Signer.proposeCall, Signer.propose, Wire.length_encode]
    exact length_arg_le_size h
  have hpayload : (s.proposeCall stamp c).payload.input.length ≤ Wire.size (s.proposeCall stamp c).payload :=
    length_input_le_size _
  have hproposal :
      Wire.size (s.proposeCall stamp c).payload ≤ (s.proposeCall stamp c).signed.proposalBytes.length := by
    simp only [Signer.proposeCall, Signer.propose, Wire.length_encode]
    exact Wire.size_le_of_bytes 2 (by simp [Wire.Typed.toMessage])
  omega

/-- What is read of a proposal is what was asked for. -/
structure Says (s : Signer) (stamp : Stamp) (c : Call) (request : SignedRequest) (said : SignedProposal.Contents) :
    Prop where
  header : said.header = request.header
  type : said.channelHeader.type = HeaderType.endorserTransaction.code
  channelId : said.channelHeader.channelId = c.channelId ∧ request.channelId = c.channelId
  time : said.channelHeader.timestamp = some stamp.time
  /-- The id is made of what stands in the other header. -/
  txId : said.channelHeader.txId = (sha256 (said.signatureHeader.nonce ++ said.signatureHeader.creator)).toHex ∧
    request.txId.id = said.channelHeader.txId
  nonce : said.signatureHeader.nonce = stamp.nonce
  creator : said.creator = { mspId := s.identity.mspId, idBytes := s.identity.certificate }
  /-- The chaincode is named here and in the call, alike. -/
  chaincode : said.extension.chaincodeId = some c.chaincodeId
  call : said.invocation.spec = some
    { type := c.type, chaincodeId := some c.chaincodeId, input := some { args := c.args, isInit := c.isInit } }
  transientMap : said.payload.transientMap.Perm c.transientMap
  signature : request.signed.signature = s.sign request.signed.proposalBytes

theorem says_layers (transientMap : List (String × Bytes)) (h : transientMap.Perm c.transientMap) :
    Says s stamp c (s.proposeCall stamp c)
      { s.layers stamp c with payload := { (s.proposeCall stamp c).payload with transientMap } } where
  header := rfl
  type := rfl
  channelId := ⟨rfl, rfl⟩
  time := rfl
  txId := ⟨by simp only [Signer.layers, TransactionId.id, Signer.transactionId, Signer.signatureHeader], rfl⟩
  nonce := rfl
  creator := rfl
  chaincode := rfl
  call := rfl
  transientMap := h
  signature := by simp only [Signer.proposeCall, Signer.propose]

/-- Whatever purpose a proposal is made for, its bytes are read layer by layer and say what is asked
for, under an id that is bound to who signed them and to the nonce. The keys of a transient map are
distinct. -/
theorem propose_says_call {purpose : Purpose} (h : purpose.propose s stamp = .ok request)
    (hm : (purpose.transientMap.map Prod.fst).Nodup) (hs : request.signed.proposalBytes.length < 2 ^ 64) :
    ∃ c said, Asks s purpose c ∧ request.signed.contents? = some said ∧ Says s stamp c request said := by
  obtain ⟨c, hasks, rfl⟩ := exists_asks_of_propose h
  rw [← hasks.transientMap_eq] at hm
  exact ⟨c, _, hasks, contents?_proposeCall hm hs, says_layers _ (byKey_perm c.transientMap)⟩

/-! A call with private data whose keys do not stand in order. -/

def sampleClient : Signer where
  identity := { certificate := [67, 78], mspId := "Org1MSP", key := ⟨3, by decide, by decide⟩ }

def sampleStamp : Stamp := { nonce := [1, 2], time := { seconds := 7 } }

def sampleCall : ChaincodeRequest :=
  { channelId := "mychannel", name := "basic", version := "1.0", args := ["read", "é"]
    transientMap := [("secret", [7]), ("price", [8, 9])], isInit := true }

theorem propose_says_call_sample :
    ∃ said : SignedProposal.Contents,
      (sampleClient.proposeInvocation sampleStamp sampleCall).signed.contents? = some said ∧
      said.channelHeader.channelId = "mychannel" ∧ said.creator.mspId = "Org1MSP" ∧
      said.extension.chaincodeId = some { name := "basic" } ∧
      said.invocation.spec = some { type := 1, chaincodeId := some { name := "basic" }
                                    input := some { args := [[114, 101, 97, 100], [195, 169]], isInit := true } } ∧
      said.payload.transientMap.Perm [("price", [8, 9]), ("secret", [7])] := by
  have hpropose : (Purpose.invocation sampleCall).propose sampleClient sampleStamp =
      .ok (sampleClient.proposeInvocation sampleStamp sampleCall) := rfl
  obtain ⟨c, said, hasks, hread, hsaid⟩ := propose_says_call hpropose (by decide) (by decide +kernel)
  cases hasks
  exact ⟨said, hread, hsaid.channelId.1, congrArg _ hsaid.creator, hsaid.chaincode, hsaid.call,
    hsaid.transientMap.trans (.swap _ _ _)⟩

end LedgerClient
