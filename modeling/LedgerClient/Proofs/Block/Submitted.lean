/-
What a client submits is what a block shows.

The client and the view of blocks take the layers of a transaction in opposite
directions: envelope, payload, headers, transaction, action, endorsed action.
Each step of the view is shown to undo one of the client's, as long as the
whole envelope has a length at all; `decode_submitted` puts the steps together.
-/
import LedgerClient.Proofs.Block.Shown
import LedgerClient.Proofs.Envelope
import LedgerClient.Proofs.Transaction

namespace LedgerClient.Block

open Protocol

/-! ## Steps -/

theorem decodeAs_eq_ok {α : Type} [Wire.Typed α] {what : String} {bytes : Bytes} {x : α}
    (h : Wire.decode? α bytes = some x) : decodeAs α what bytes = .ok x := decodeAs_eq_ok_iff.2 h

theorem Entry.ofBytes?_encode {e : Envelope} {p : Payload} {h : Header} {c : ChannelHeader}
    (hs : Wire.size e < 2 ^ 64) (hp : e.payload = Wire.encode p) (hh : p.header = some h)
    (hc : h.channelHeader = Wire.encode c) : Entry.ofBytes? (Wire.encode e) = .ok ⟨e, p, h, c⟩ :=
  Entry.ofBytes?_eq_ok_iff.2 (Entry.Layered.opened ⟨hp, hh, hc⟩ hs)

theorem creator_encode {i : SerializedIdentity} (hs : Wire.size i < 2 ^ 64) :
    creator (Wire.encode i) = (i.mspId, Utf8.decodeLossy i.idBytes) := by
  simp only [creator, i.faithful.decode?_encode (by decide) hs]

/-- How a client is shown as the signer of what it stamped. -/
def Signer.of (s : LedgerClient.Signer) (stamp : Stamp) : Signer :=
  { mspId := s.mspId, certificate := Utf8.decodeLossy s.identity.certificate, nonce := stamp.nonce }

/-- The signer of a header is who made it, with the nonce of its stamp. -/
theorem Signer.ofHeader_signatureHeader {s : LedgerClient.Signer} {stamp : Stamp}
    (hs : Wire.size (s.signatureHeader stamp) < 2 ^ 64) :
    Signer.ofHeader (s.signatureHeader stamp) = .of s stamp := by
  have hi : Wire.size ({ mspId := s.identity.mspId, idBytes := s.identity.certificate } : SerializedIdentity) ≤
      Wire.size (s.signatureHeader stamp) :=
    Wire.size_le_of_bytes 1 (by simp [Wire.Typed.toMessage, Signer.signatureHeader, Signer.creator, Identity.creator])
  have hc := creator_encode (Nat.lt_of_le_of_lt hi hs)
  simp only [ofHeader, LedgerClient.Signer.signatureHeader, LedgerClient.Signer.creator, Identity.creator, hc,
    Signer.of, LedgerClient.Signer.mspId]

/-- What endorsing peers have agreed on: the payload of their answers, what it says was done, the
event that was emitted and the sets of keys that were read and written. -/
structure Simulated (payload : Bytes) (response : ProposalResponsePayload) (action : ChaincodeAction)
    (event : Option ChaincodeEvent) (results : TxReadWriteSet) : Prop where
  decode_payload : Wire.decode? ProposalResponsePayload payload = some response
  extension_ne_nil : response.extension ≠ []
  decode_extension : Wire.decode? ChaincodeAction response.extension = some action
  decode_events :
    match event with
    | none => action.events = []
    | some e => action.events ≠ [] ∧ Wire.decode? ChaincodeEvent action.events = some e
  decode_results : Wire.decode? TxReadWriteSet action.results = some results

variable {payload : Bytes} {response : ProposalResponsePayload} {action : ChaincodeAction}
  {event : Option ChaincodeEvent} {results : TxReadWriteSet}

/-- An empty payload has no extension. -/
theorem Simulated.payload_ne_nil (h : Simulated payload response action event results) : payload ≠ [] := by
  rintro rfl
  have hr : some (Wire.Typed.ofMessage [] : ProposalResponsePayload) = some response := h.decode_payload
  exact h.extension_ne_nil (by rw [← Option.some.inj hr]; rfl)

theorem EndorsedAction.ofBytes?_encode {t : Protocol.Transaction} {a : TransactionAction}
    {p : ChaincodeActionPayload} {e : ChaincodeEndorsedAction} (hs : Wire.size t < 2 ^ 64)
    (ha : t.actions.head? = some a) (hp : a.payload = Wire.encode p) (he : p.action = some e)
    (hsim : Simulated e.proposalResponsePayload response action event results) :
    EndorsedAction.ofBytes? (Wire.encode t) = .ok ⟨a, p, e, response, action⟩ := by
  have has : Wire.size a ≤ Wire.size t := Wire.size_le_of_mem 1 (by
    simpa [Wire.Typed.toMessage, Wire.Message.ofChildren] using ⟨a, List.mem_of_head? ha, rfl⟩)
  have hps : Wire.size p ≤ Wire.size a := Wire.size_le_of_bytes 2 (by simp [Wire.Typed.toMessage, hp])
  have ht : Wire.decode? Protocol.Transaction (Wire.encode t) = some t :=
    t.faithful.decode?_encode (by decide) hs
  have hp' : Wire.decode? ChaincodeActionPayload a.payload = some p :=
    hp ▸ p.faithful.decode?_encode (by decide) (by omega)
  simp only [ofBytes?, decodeAs_eq_ok ht, ha, require, decodeAs_eq_ok hp', he, Option.filter,
    List.isEmpty_eq_false_iff.2 hsim.payload_ne_nil, Bool.not_false, if_true, decodeAs_eq_ok hsim.decode_payload,
    List.isEmpty_eq_false_iff.2 hsim.extension_ne_nil, Bool.false_eq_true, if_false, decodeAs_eq_ok hsim.decode_extension,
    bind, Except.bind, pure, Except.pure]

/-- How a client's call is shown with what the peers agreed on: every argument as text, every
endorsement with its signature. -/
def EndorserTransaction.ofCall (s : LedgerClient.Signer) (stamp : Stamp) (r : ChaincodeRequest)
    (endorsements : List Protocol.Endorsement) (response : ProposalResponsePayload) (action : ChaincodeAction)
    (event : Option ChaincodeEvent) (results : TxReadWriteSet) : EndorserTransaction :=
  { actionSigner := .of s stamp
    invocation :=
      { chaincodeType := r.chaincodeType, chaincodeId := some { name := r.name },
        args := r.encodedArgs.map Utf8.decodeLossy }
    endorsements := endorsements.map fun e =>
      { signer := .ofHeader { creator := e.endorser }, signature := e.signature }
    proposalHash := response.proposalHash
    response := action.response
    event
    accesses := results.namespaces.filterMap NamespaceAccess.of? }

theorem endorserTransaction_encode {s : LedgerClient.Signer} {stamp : Stamp} {r : ChaincodeRequest}
    {endorsements : List Protocol.Endorsement}
    (hs : Wire.size ((s.proposeInvocation stamp r).transaction payload endorsements) < 2 ^ 64)
    (hsim : Simulated payload response action event results) :
    endorserTransaction (Wire.encode ((s.proposeInvocation stamp r).transaction payload endorsements)) =
      .ok (.ofCall s stamp r endorsements response action event results) := by
  let invocation : ChaincodeInvocationSpec := { spec := some (r.spec r.invocationId) }
  let proposalPayload : ChaincodeProposalPayload := { input := Wire.encode invocation }
  let endorsed : ChaincodeEndorsedAction := { proposalResponsePayload := payload, endorsements }
  let actionPayload : ChaincodeActionPayload :=
    { proposalPayload := Wire.encode proposalPayload, action := some endorsed }
  let a : TransactionAction :=
    { header := Wire.encode (s.signatureHeader stamp), payload := Wire.encode actionPayload }
  have hopen := EndorsedAction.ofBytes?_encode (a := a) (p := actionPayload) (e := endorsed) hs rfl rfl rfl hsim
  have has : Wire.size a ≤ Wire.size ((s.proposeInvocation stamp r).transaction payload endorsements) :=
    Wire.size_le_of_mem 1 List.mem_cons_self
  have hhs : Wire.size (s.signatureHeader stamp) ≤ Wire.size a :=
    Wire.size_le_of_bytes 1 (by simp [Wire.Typed.toMessage, a])
  have haps : Wire.size actionPayload ≤ Wire.size a :=
    Wire.size_le_of_bytes 2 (by simp [Wire.Typed.toMessage, a])
  have hpps : Wire.size proposalPayload ≤ Wire.size actionPayload :=
    Wire.size_le_of_bytes 1 (by simp [Wire.Typed.toMessage, actionPayload])
  have his : Wire.size invocation ≤ Wire.size proposalPayload :=
    Wire.size_le_of_bytes 1 (by simp [Wire.Typed.toMessage, proposalPayload])
  have hh : Wire.decode? SignatureHeader a.header = some (s.signatureHeader stamp) :=
    (s.signatureHeader stamp).faithful.decode?_encode (by decide) (by omega)
  have hpp : Wire.decode? ChaincodeProposalPayload actionPayload.proposalPayload = some proposalPayload :=
    (ChaincodeProposalPayload.faithful .nil).decode?_encode (by decide) (by omega)
  have hi : Wire.decode? ChaincodeInvocationSpec proposalPayload.input = some invocation := by
    refine (ChaincodeInvocationSpec.faithful fun c i hc hi => ?_).decode?_encode (by decide) (by omega)
    cases hc
    cases hi
    exact .nil
  have haccesses : accesses action.results = .ok (results.namespaces.filterMap NamespaceAccess.of?) := by
    simp only [accesses, decodeAs_eq_ok hsim.decode_results, bind, Except.bind, pure, Except.pure]
  have hsigner : Signer.ofHeader (s.signatureHeader stamp) = .of s stamp :=
    Signer.ofHeader_signatureHeader (by omega)
  have hspec : invocation.spec = some (r.spec r.invocationId) := rfl
  simp only [endorserTransaction, hopen, decodeAs_eq_ok hh, decodeAs_eq_ok hpp, decodeAs_eq_ok hi, hspec,
    require, hsigner, haccesses, bind, Except.bind]
  have hevent := hsim.decode_events
  cases event with
  | none =>
    simp only [hevent, List.isEmpty_nil, if_true]
    rfl
  | some e =>
    simp only [List.isEmpty_eq_false_iff.2 hevent.1, Bool.false_eq_true, if_false, decodeAs_eq_ok hevent.2]
    rfl

/-! ## The whole block -/

/-- A block shows at a position what it shows of the entry there. -/
theorem filter_transactions {b : Protocol.Block} {full : Full} (h : decode b = .ok full) (i : Nat) :
    full.transactions.filter (fun t => t.index == i) =
      (b.entries[i]?.bind (shown? (validationCodes b b.entries.length) i)).toList := by
  rw [transactions_of_decode h]
  exact filter_collect_eq (fun _ _ _ => index_of_shown?) i

/-- How the entry of a client's call is shown at a position, with its validation code. -/
def Transaction.ofCall (s : LedgerClient.Signer) (stamp : Stamp) (r : ChaincodeRequest) (envelope : Envelope)
    (index : Nat) (code : UInt8) (body : EndorserTransaction) : Transaction :=
  { index, size := (Wire.encode envelope).length, signature := envelope.signature
    header :=
      { type := HeaderType.endorserTransaction.code, timestamp := some stamp.time, channelId := r.channelId,
        txId := (s.transactionId stamp).id, chaincodeId := some { name := r.name } }
    signer := .of s stamp
    validationCode := code
    validationName := ValidationCode.nameOfByte code
    body := .endorser body }

theorem shown?_envelope {s : LedgerClient.Signer} {stamp : Stamp} {r : ChaincodeRequest}
    {endorsements : List Protocol.Endorsement} {envelope : Envelope} {codes : Bytes} {i : Nat}
    (he : envelope = s.envelope (s.proposeInvocation stamp r) payload endorsements)
    (hs : Wire.size envelope < 2 ^ 64) (hsim : Simulated payload response action event results) :
    shown? codes i (Wire.encode envelope) = some (.ofCall s stamp r envelope i (codes.getD i notValidated)
      (.ofCall s stamp r endorsements response action event results)) := by
  let extension : ChaincodeHeaderExtension := { chaincodeId := some r.invocationId }
  let channelHeader : ChannelHeader :=
    { type := HeaderType.endorserTransaction.code, timestamp := some stamp.time, channelId := r.channelId,
      txId := (s.transactionId stamp).id, extension := Wire.encode extension }
  let header : Header :=
    { channelHeader := Wire.encode channelHeader, signatureHeader := Wire.encode (s.signatureHeader stamp) }
  let tx := (s.proposeInvocation stamp r).transaction payload endorsements
  let p : Payload := { header := some header, data := Wire.encode tx }
  have hp : envelope = s.signPayload p := he
  have hps : Wire.size p ≤ Wire.size envelope :=
    Wire.size_le_of_bytes 1 (by simp [Wire.Typed.toMessage, hp, Signer.signPayload])
  have hhs : Wire.size header ≤ Wire.size p :=
    Wire.size_le_of_mem 1 (by simp [Wire.Typed.toMessage, p, Wire.Message.ofChild?])
  have hcs : Wire.size channelHeader ≤ Wire.size header :=
    Wire.size_le_of_bytes 1 (by simp [Wire.Typed.toMessage, header])
  have hss : Wire.size (s.signatureHeader stamp) ≤ Wire.size header :=
    Wire.size_le_of_bytes 2 (by simp [Wire.Typed.toMessage, header])
  have hes : Wire.size extension ≤ Wire.size channelHeader :=
    Wire.size_le_of_bytes 7 (by simp [Wire.Typed.toMessage, channelHeader])
  have hts : Wire.size tx ≤ Wire.size p := Wire.size_le_of_bytes 2 (by simp [Wire.Typed.toMessage, p])
  have hopen : Entry.ofBytes? (Wire.encode envelope) = .ok ⟨envelope, p, header, channelHeader⟩ :=
    Entry.ofBytes?_encode hs (by rw [hp]; rfl) rfl rfl
  have hext : Wire.decode? ChaincodeHeaderExtension channelHeader.extension = some extension :=
    extension.faithful.decode?_encode (by decide) (by omega)
  have hsig : Wire.decode? SignatureHeader header.signatureHeader = some (s.signatureHeader stamp) :=
    (s.signatureHeader stamp).faithful.decode?_encode (by decide) (by omega)
  have hsigner : Signer.ofHeader (s.signatureHeader stamp) = .of s stamp :=
    Signer.ofHeader_signatureHeader (by omega)
  have hbody : endorserTransaction p.data = .ok (.ofCall s stamp r endorsements response action event results) :=
    endorserTransaction_encode (Nat.lt_of_le_of_lt (Nat.le_trans hts hps) hs) hsim
  have htype : HeaderType.ofCode? channelHeader.type = some .endorserTransaction := rfl
  simp only [shown?, hopen, Except.toOption, transaction, decodeAs_eq_ok hext, decodeAs_eq_ok hsig, body, htype,
    hsigner, hbody, Functor.map, Except.map, bind, Except.bind, Option.bind]
  rfl

/-- Arguments given as text are shown verbatim, in front of the others. -/
theorem args_prefix {r : ChaincodeRequest} (h : r.rawArgs.getD [] = []) :
    r.args <+: r.encodedArgs.map Utf8.decodeLossy := by
  have hargs : (r.args.map Utf8.encode).map Utf8.decodeLossy = r.args := by
    simp [Function.comp_def, Utf8.decodeLossy_encode]
  match hr : r.rawArgs with
  | none | some [] =>
    simp only [ChaincodeRequest.encodedArgs, hr, List.map_append, hargs]
    exact List.prefix_append _ _
  | some (a :: as) => simp [hr] at h

/-- **What is submitted is what a block shows.** Wherever in a block the envelope assembled from a call
and its endorsements stands, the block shows exactly one transaction there: that call, with its
arguments as text, signed by the client, and with what the peers agreed on and their signatures in
the order of their answers. -/
theorem decode_submitted {s : LedgerClient.Signer} {stamp : Stamp} {r : ChaincodeRequest}
    {answers : List (String × ProposalResponse)} {first : String × ProposalResponse} {envelope : Envelope}
    (hassemble : assemble s (s.proposeInvocation stamp r) answers = .ok envelope)
    (hfirst : answers.head? = some first)
    (hsim : Simulated first.2.payload response action event results)
    (hlength : (Wire.encode envelope).length < 2 ^ 64)
    {b : Protocol.Block} (hheader : b.header ≠ none)
    {i : Nat} (hentry : b.entries[i]? = some (Wire.encode envelope)) :
    ∃ full endorsements, decode b = .ok full ∧
      answers.map (·.2.endorsement) = endorsements.map some ∧
      full.transactions.filter (fun t => t.index == i) =
        [.ofCall s stamp r envelope i ((validationCodes b b.entries.length).getD i notValidated)
          (.ofCall s stamp r endorsements response action event results)] ∧
      (r.rawArgs.getD [] = [] → r.args <+: r.encodedArgs.map Utf8.decodeLossy) := by
  obtain ⟨header, hh⟩ := Option.ne_none_iff_exists'.1 hheader
  obtain ⟨first', endorsements, hfirst', -, hendorsements, he⟩ := of_assemble_eq_ok hassemble
  rw [hfirst] at hfirst'
  cases hfirst'
  have hdecode : ∃ full, decode b = .ok full := by
    simp only [decode, hh, require]
    exact ⟨_, rfl⟩
  obtain ⟨full, hfull⟩ := hdecode
  refine ⟨full, endorsements, hfull, hendorsements, ?_, args_prefix⟩
  rw [Wire.length_encode] at hlength
  rw [filter_transactions hfull, hentry, Option.bind_some, shown?_envelope he hlength hsim]
  rfl

/-! A call with two arguments, endorsed by two peers, in the second entry of a block. -/

def sampleSigner : LedgerClient.Signer where
  identity := { certificate := [67, 78], mspId := "Org1MSP", key := ⟨1, by decide, by decide⟩ }

def sampleStamp : Stamp := { nonce := [1, 2], time := { seconds := 7 } }

def sampleCall : ChaincodeRequest := { channelId := "mychannel", name := "basic", args := ["read", "é"] }

def sampleResults : TxReadWriteSet := { namespaces := [{ space := "basic" }] }

def sampleAction : ChaincodeAction :=
  { results := Wire.encode sampleResults, response := some { status := 200, payload := [42] } }

def sampleResponse : ProposalResponsePayload :=
  { proposalHash := [9], extension := Wire.encode sampleAction }

def sampleAnswer (peer : Bytes) : ProposalResponse :=
  { response := some { status := 200 }, payload := Wire.encode sampleResponse
    endorsement := some { endorser := peer, signature := peer } }

def samplePayload : Payload :=
  let request := sampleSigner.proposeInvocation sampleStamp sampleCall
  { header := some request.header
    data := Wire.encode (request.transaction (Wire.encode sampleResponse) [⟨[1], [1]⟩, ⟨[2], [2]⟩]) }

def sampleEnvelope : Envelope := sampleSigner.signPayload samplePayload

def sampleBlock : Protocol.Block :=
  { header := some {}, data := some { entries := [[255], Wire.encode sampleEnvelope] } }

theorem decode_submitted_sample :
    ∃ full, decode sampleBlock = .ok full ∧
      (full.transactions.filter (fun t => t.index == 1)).map (fun t =>
        (t.header.channelId, t.signer.mspId, t.endorser?.map fun e =>
          (e.invocation.args, e.endorsements.map (·.signature), e.response.map (·.payload)))) =
        [("mychannel", "Org1MSP", some (["read", "é"], [[1], [2]], some [42]))] := by
  have hsim : Simulated (Wire.encode sampleResponse) sampleResponse sampleAction none sampleResults :=
    ⟨by decide +kernel, by decide +kernel, by decide +kernel, rfl, by decide +kernel⟩
  have hassemble : assemble sampleSigner (sampleSigner.proposeInvocation sampleStamp sampleCall)
      [("peer0", sampleAnswer [1]), ("peer1", sampleAnswer [2])] = .ok sampleEnvelope := rfl
  have hlength : (Wire.encode sampleEnvelope).length < 2 ^ 64 := by
    have hp : Wire.size samplePayload < 1000 := by decide +kernel
    have := sampleSigner.size_signPayload_le samplePayload
    rw [Wire.length_encode, sampleEnvelope]
    omega
  have hheader : sampleBlock.header ≠ none := by decide
  have hentry : sampleBlock.entries[1]? = some (Wire.encode sampleEnvelope) := rfl
  obtain ⟨full, endorsements, hfull, he, htx, -⟩ := decode_submitted hassemble rfl hsim hlength hheader hentry
  have hes : [⟨[1], [1]⟩, ⟨[2], [2]⟩] = endorsements := (List.map_inj_right fun _ _ => Option.some.inj).1 he
  refine ⟨full, hfull, ?_⟩
  rw [htx, ← hes]
  rfl

end LedgerClient.Block
