/-
A connected client finds all nodes that it looks for.

Its selector and its nodes come from the same tables (`complete_of_connected`),
so every name that is selected is the name of a node. Hence no operation that
selects its own targets fails for a node that is not known, and a subscription
fails for lack of a peer only where no peer serves events
(`Complete.subscribe_lacksPeer_iff`).
-/
import LedgerClient.Client.Query
import LedgerClient.Client.Submission
import LedgerClient.Client.Subscription
import LedgerClient.Proofs.Connection.Checks
import LedgerClient.Proofs.Connection.Finding
import LedgerClient.Proofs.Listener.Calls

namespace LedgerClient

open Protocol

/-! ## Clients -/

namespace Client

variable {c : Client}

/-- Every name that the client may look for is that of a node. -/
structure Complete (c : Client) : Prop where
  peer_mem : ∀ p ∈ c.selector.peers, p.name ∈ c.nodes.peers
  orderer_mem : ∀ name ∈ c.selector.orderers, name ∈ c.nodes.orderers
  orderers_ne_nil : c.selector.orderers ≠ []
  eventPeer_mem : ∀ x ∈ c.settings.eventPeers, x.1 ∈ c.nodes.eventPeers

theorem complete_of_connected {s : Settings} (h : Connected s c) : c.Complete := by
  obtain ⟨hpeers, horderers⟩ := Selector.of_ofSettings_eq_ok h.selector
  obtain ⟨-, hne, -⟩ := Settings.of_validate_eq_ok h.valid
  constructor
  case peer_mem =>
    intro p hp
    rw [h.nodes_eq, ← hpeers]
    exact List.mem_map_of_mem hp
  case orderer_mem =>
    intro name hn
    rwa [h.nodes_eq, ← horderers]
  case orderers_ne_nil =>
    rw [horderers]
    exact fun hnil => hne (List.map_eq_nil_iff.1 hnil)
  case eventPeer_mem =>
    intro x hx
    rw [h.nodes_eq]
    rw [h.settings_eq] at hx
    exact List.mem_map_of_mem hx

theorem peers_eq_ok {names : List String} (h : ∀ name ∈ names, name ∈ c.nodes.peers) :
    c.peers names = .ok (names.map .peer) := by
  refine mapM_eq_ok_iff.2 (List.forall₂_map_right_iff.2 (List.forall₂_same.2 fun name hn => ?_))
  exact if_pos (h name hn)

theorem eventPeer_eq_error (h : c.settings.eventPeers = []) : c.eventPeer = .error .noPeersConfigured := by
  unfold eventPeer
  rw [h]

namespace Complete

variable (hc : c.Complete)

include hc

theorem orderer_eq_ok (draw : Nat → Nat) : ∃ name,
    c.selector.selectOrderer draw = .ok name ∧ c.orderer draw = .ok (.orderer name) := by
  obtain ⟨name, hname⟩ := exists_choose?_eq_some hc.orderers_ne_nil (draw 0)
  have hselect : c.selector.selectOrderer draw = .ok name := by
    unfold Selector.selectOrderer
    rw [hname]
  refine ⟨name, hselect, ?_⟩
  unfold orderer
  rw [hselect]
  exact if_pos (hc.orderer_mem name (mem_of_choose? hname))

theorem peers_of_selectPeers {draw : Nat → Nat} {names : List String}
    (h : c.selector.selectPeers draw = .ok names) : c.peers names = .ok (names.map .peer) := by
  refine peers_eq_ok fun name hn => ?_
  obtain ⟨p, hp, rfl⟩ := Selector.exists_of_mem_selectPeers h hn
  exact hc.peer_mem p hp

theorem peers_of_selectFirstPeer {draw : Nat → Nat} {name : String}
    (h : c.selector.selectFirstPeer draw = .ok name) : c.peers [name] = .ok [.peer name] := by
  refine peers_eq_ok fun name' hn => ?_
  obtain ⟨p, hp, rfl⟩ := Selector.exists_of_selectFirstPeer h
  rw [List.mem_singleton.1 hn]
  exact hc.peer_mem p hp

theorem eventPeer_eq_ok (h : c.settings.eventPeers ≠ []) : ∃ name, c.eventPeer = .ok (.eventPeer name) := by
  unfold eventPeer
  split
  next hnil => exact absurd hnil h
  next name node rest hcons => exact ⟨name, if_pos (hc.eventPeer_mem (name, node) (hcons ▸ List.mem_cons_self))⟩

theorem finds_selectOrderer : c.selectOrderer.Finds := by
  refine .draw_bind fun draw e he => ?_
  obtain ⟨name, -, hok⟩ := hc.orderer_eq_ok draw
  rw [hok] at he
  cases he

end Complete

/-! ## Channels -/

section Channel

variable {channelId : String}

/-- A channel is given, or there is one in the settings. -/
def HasChannel (c : Client) (channelId : String) : Prop :=
  channelId ≠ "" ∨ c.settings.channel.channelId ≠ ""

theorem HasChannel.exists_channelOrDefault (h : c.HasChannel channelId) :
    ∃ id, c.channelOrDefault channelId = .ok id := by
  unfold channelOrDefault
  dsimp only
  by_cases hg : channelId.isEmpty
  · have hs : ¬ c.settings.channel.channelId.isEmpty := by
      rw [String.isEmpty_iff] at hg ⊢
      exact h.resolve_left fun hne => hne hg
    rw [if_pos hg, if_neg hs]
    exact ⟨_, rfl⟩
  · rw [if_neg hg, if_neg hg]
    exact ⟨_, rfl⟩

theorem channelOrDefault_eq_error (h : ¬ c.HasChannel channelId) :
    c.channelOrDefault channelId = .error (.invalidOperation .noChannel) := by
  obtain ⟨hg, hs⟩ := not_or.1 h
  unfold channelOrDefault
  rw [not_not.1 hg, not_not.1 hs]
  rfl

theorem confined_channelOrDefault {P : ClientError → Prop} (hP : P (.invalidOperation .noChannel))
    (channelId : String) : Confined P (c.channelOrDefault channelId) := by
  by_cases h : c.HasChannel channelId
  · obtain ⟨id, hid⟩ := h.exists_channelOrDefault
    rw [hid]
    exact .ok id
  · rw [channelOrDefault_eq_error h]
    exact .error hP

theorem finds_resolve (r : ChaincodeRequest) : Finds (c.resolve r) := by
  refine .bind (confined_channelOrDefault id r.channelId) fun channelId _ => ?_
  by_cases hr : r.name.isEmpty
  · simp only [if_pos hr]
    split
    next => exact .error id
    next => exact .ok _
  · simp only [if_neg hr]
    exact .ok _

end Channel

/-! ## Operations -/

/-- What peers answer over a network is a response or a failure of the network. -/
theorem finds_ask_bind {α : Type} {targets : List Node} {request : SignedRequest}
    {f : List PeerAnswer → Operation α}
    (hf : ∀ answers, (∀ a ∈ answers, ∀ e, a.result = .error e → e.IsNetwork) → (f answers).Finds) :
    (c.ask targets request >>= f).Finds := by
  refine .bind ?_ fun answers log h hlog => hf answers (h.of_propose_overNetwork hlog)
  intro e log h _
  obtain ⟨_, he, -⟩ := h.of_propose
  cases he

theorem finds_evaluate {request : SignedRequest} {name : String} (h : c.peers [name] = .ok [.peer name]) :
    (c.evaluate request name).Finds := by
  unfold evaluate
  rw [h]
  refine .ofExcept_bind (.ok _) fun targets _ => finds_ask_bind fun answers ha => ?_
  exact .ofExcept (PeerAnswer.finds_requireFirst ha)

section

variable (hc : c.Complete)

include hc

/-- What is submitted to the selected peers. -/
theorem Complete.finds_submit (request : SignedRequest) : (c.selectPeers >>= c.submit request).Finds := by
  refine .bind (.draw_bind (Selector.finds_selectPeers c.selector)) fun names log h _ => ?_
  obtain ⟨draw, hselect, -⟩ := h.of_draw_bind
  unfold submit
  rw [hc.peers_of_selectPeers hselect.symm]
  refine .ofExcept_bind (.ok _) fun targets _ => .bind hc.finds_selectOrderer fun orderer _ _ _ => ?_
  refine finds_ask_bind fun answers ha => .ofExcept_bind (PeerAnswer.finds_requireAll ha) fun answers _ => ?_
  refine .ofExcept_bind (finds_assemble c.signer request answers) fun envelope _ => ?_
  exact .bind (Operation.confined_broadcast (fun _ he => he.not_isLookup) fun _ _ => id) fun _ _ _ _ => .pure _

/-- What goes on with the first of the selected peers. -/
theorem Complete.finds_selectFirstPeer_bind {α : Type} {f : String → Operation α}
    (hf : ∀ name, c.peers [name] = .ok [.peer name] → (f name).Finds) : (c.selectFirstPeer >>= f).Finds := by
  refine .bind (.draw_bind (Selector.finds_selectFirstPeer c.selector)) fun name log h _ => ?_
  obtain ⟨draw, hselect, -⟩ := h.of_draw_bind
  exact hf name (hc.peers_of_selectFirstPeer hselect.symm)

theorem Complete.finds_askLedger {α : Type} (channelId : String) (question : Ledger.Question)
    (args : List String) {read : String → ProposalResponse → Except ClientError α}
    (hr : ∀ peer r, Finds (read peer r)) : (c.askLedger channelId question args read).Finds := by
  refine .ofExcept_bind (confined_channelOrDefault id channelId) fun channelId _ => .stamp_bind fun stamp => ?_
  refine hc.finds_selectFirstPeer_bind fun name hname => .bind (finds_evaluate hname) fun answer _ _ _ => ?_
  exact .ofExcept (hr answer.1 answer.2)

theorem Complete.finds_query (r : ChaincodeRequest) : (c.query r).Finds := by
  refine .ofExcept_bind (finds_resolve r) fun r _ => .stamp_bind fun stamp => ?_
  exact hc.finds_selectFirstPeer_bind fun name hname => .bind (finds_evaluate hname) fun _ _ _ _ => .pure _

theorem Complete.finds_checkCommitReadiness (channelId : String) (d : ChaincodeDefinition) :
    (c.checkCommitReadiness channelId d).Finds := by
  refine .ofExcept_bind (confined_channelOrDefault id channelId) fun channelId _ => .stamp_bind fun stamp => ?_
  refine .ofExcept_bind (.bind d.finds_toArgs fun _ _ => .ok _) fun request _ => ?_
  refine hc.finds_selectFirstPeer_bind fun name hname => .bind (finds_evaluate hname) fun answer _ _ _ => ?_
  refine .ofExcept_bind (Ledger.finds_payload answer.1 answer.2) fun payload _ => ?_
  exact .ofExcept_bind (finds_ofDecode _) fun _ _ => .pure _

theorem Complete.finds_eventPeer : Finds c.eventPeer := by
  by_cases h : c.settings.eventPeers = []
  · rw [eventPeer_eq_error h]
    exact .error id
  · obtain ⟨name, hname⟩ := hc.eventPeer_eq_ok h
    rw [hname]
    exact .ok _

theorem Complete.finds_blockHeightByEventPeer (channelId : String) :
    (c.blockHeightByEventPeer channelId).Finds := by
  refine .ofExcept_bind (confined_channelOrDefault id channelId) fun channelId _ => ?_
  refine .ofExcept_bind hc.finds_eventPeer fun target _ => .stamp_bind fun stamp => ?_
  refine finds_ask_bind fun answers ha => .ofExcept_bind (PeerAnswer.finds_requireFirst ha) fun answer _ => ?_
  exact .ofExcept (Ledger.finds_height answer.1 answer.2)

theorem Complete.finds_invoke (r : ChaincodeRequest) : (c.invoke r).Finds :=
  .ofExcept_bind (finds_resolve r) fun _ _ => .stamp_bind fun _ => hc.finds_submit _

theorem Complete.finds_instantiateChaincode (r : ChaincodeRequest) (operation : String) (policy : Option String)
    (collections : Option Bytes) : (c.instantiateChaincode r operation policy collections).Finds := by
  refine .ofExcept_bind (finds_resolve r) fun r _ => .stamp_bind fun stamp => ?_
  refine .ofExcept_bind (c.signer.finds_proposeInstantiation stamp r operation policy collections) fun _ _ => ?_
  exact hc.finds_submit _

theorem Complete.finds_approveForMyOrganization (channelId : String) (d : ChaincodeDefinition)
    (packageId : String) : (c.approveForMyOrganization channelId d packageId).Finds := by
  refine .ofExcept_bind (confined_channelOrDefault id channelId) fun channelId _ => .stamp_bind fun stamp => ?_
  exact .ofExcept_bind (.bind d.finds_toArgs fun _ _ => .ok _) fun _ _ => hc.finds_submit _

theorem Complete.finds_commitChaincodeDefinition (channelId : String) (d : ChaincodeDefinition) :
    (c.commitChaincodeDefinition channelId d).Finds := by
  refine .ofExcept_bind (confined_channelOrDefault id channelId) fun channelId _ => .stamp_bind fun stamp => ?_
  exact .ofExcept_bind (.bind d.finds_toArgs fun _ _ => .ok _) fun _ _ => hc.finds_submit _

end

/-! ## Subscriptions -/

section

variable {channelId : String} {start : Option UInt64} {mode : DecodeMode}

/-- A session that is opened over a network fails as the network does. -/
theorem confined_listen {l : Listener} {result : Except ClientError Unit} {l' : Listener} {log : List Exchange}
    (h : Dialogue.Runs l.listen (result, l') log) (hlog : OverNetwork log) :
    Confined (fun e => ¬ e.LacksPeer) result := by
  cases Listener.listens_of_runs h with
  | refused => exact .error id
  | unsought => exact .error id
  | failed hs request hr e => exact .error (hlog _ List.mem_cons_self e rfl).not_lacksPeer
  | opened => exact .ok ()

/-- Where some peer serves events, a subscription does not fail for lack of one. -/
theorem Complete.confined_subscribe (hc : c.Complete) (hne : c.settings.eventPeers ≠ []) :
    (c.subscribe channelId start mode).Confined fun e => ¬ e.LacksPeer := by
  obtain ⟨name, hname⟩ := hc.eventPeer_eq_ok hne
  unfold subscribe
  rw [hname]
  refine .ofExcept_bind (confined_channelOrDefault id channelId) fun channelId _ => ?_
  refine .ofExcept_bind (.ok _) fun source _ => .stamp_bind fun stamp => .ofExcept_bind ?_ fun listener _ => ?_
  · have hseek : ∀ (l : Listener) begin stop, l.state = .created →
        Confined (fun e => ¬ e.LacksPeer) (l.seek stamp begin stop) := by
      intro l begin stop hl
      rw [Listener.seek_eq_ok hl]
      exact .ok _
    cases start with
    | some number => exact hseek _ _ _ rfl
    | none => exact hseek _ _ _ rfl
  · exact .lift_bind fun _ _ hlisten hlog => .ofExcept_bind (confined_listen hlisten hlog) fun _ _ => .pure _

theorem subscribe_of_not_hasChannel (h : ¬ c.HasChannel channelId) {result : Except ClientError Listener}
    {log : List Exchange} (hruns : (c.subscribe channelId start mode).Runs result log) :
    result = .error (.invalidOperation .noChannel) := by
  rcases hruns.of_ofExcept_bind with ⟨e, he, rfl, -⟩ | ⟨id, hid, -⟩
  · rw [channelOrDefault_eq_error h] at he
    cases he
    rfl
  · rw [channelOrDefault_eq_error h] at hid
    cases hid

theorem subscribe_of_eventPeers_eq_nil (hc : c.HasChannel channelId) (h : c.settings.eventPeers = [])
    {result : Except ClientError Listener} {log : List Exchange}
    (hruns : (c.subscribe channelId start mode).Runs result log) : result = .error .noPeersConfigured := by
  obtain ⟨id, hid⟩ := hc.exists_channelOrDefault
  rcases hruns.of_ofExcept_bind with ⟨e, he, -⟩ | ⟨id, -, hrest⟩
  · rw [hid] at he
    cases he
  rcases hrest.of_ofExcept_bind with ⟨e, he, rfl, -⟩ | ⟨source, hsource, -⟩
  · rw [eventPeer_eq_error h] at he
    cases he
    rfl
  · rw [eventPeer_eq_error h] at hsource
    cases hsource

theorem Complete.subscribe_lacksPeer_iff (hc : c.Complete) {result : Except ClientError Listener}
    {log : List Exchange} (hruns : (c.subscribe channelId start mode).Runs result log) (hlog : OverNetwork log) :
    (∃ e, result = .error e ∧ e.LacksPeer) ↔ c.HasChannel channelId ∧ c.settings.eventPeers = [] := by
  constructor
  · rintro ⟨e, rfl, he⟩
    by_cases hchannel : c.HasChannel channelId
    · refine ⟨hchannel, Decidable.byContradiction fun hne => ?_⟩
      exact hc.confined_subscribe hne e log hruns hlog he
    · cases subscribe_of_not_hasChannel hchannel hruns
      exact he.elim
  · rintro ⟨hchannel, hnil⟩
    exact ⟨_, subscribe_of_eventPeers_eq_nil hchannel hnil hruns, trivial⟩

end

/-! ## Connected clients -/

/-- What a client that has connected with settings can count on. -/
structure SelfContained (s : Settings) (c : Client) : Prop where
  /-- There is an orderer to choose, and it is known. -/
  orderer : ∀ draw, ∃ name, c.selector.selectOrderer draw = .ok name ∧ c.orderer draw = .ok (.orderer name)
  /-- All peers that are selected are known. -/
  peers : ∀ draw names, c.selector.selectPeers draw = .ok names → c.peers names = .ok (names.map .peer)
  invoke : ∀ r, (c.invoke r).Finds
  instantiateChaincode : ∀ r operation policy collections,
    (c.instantiateChaincode r operation policy collections).Finds
  approveForMyOrganization : ∀ channelId d packageId, (c.approveForMyOrganization channelId d packageId).Finds
  commitChaincodeDefinition : ∀ channelId d, (c.commitChaincodeDefinition channelId d).Finds
  query : ∀ r, (c.query r).Finds
  checkCommitReadiness : ∀ channelId d, (c.checkCommitReadiness channelId d).Finds
  blockByNumber : ∀ channelId number, (c.blockByNumber channelId number).Finds
  blockByTxId : ∀ channelId txId, (c.blockByTxId channelId txId).Finds
  blockHeight : ∀ channelId, (c.blockHeight channelId).Finds
  transactionTime : ∀ channelId txId, (c.transactionTime channelId txId).Finds
  blockHeightByEventPeer : ∀ channelId, (c.blockHeightByEventPeer channelId).Finds
  /-- A subscription without a channel fails for that; any other lacks a peer if none serves events. -/
  subscribe : ∀ channelId start mode result log, (c.subscribe channelId start mode).Runs result log →
    OverNetwork log →
      (¬ c.HasChannel channelId → result = .error (.invalidOperation .noChannel)) ∧
      ((∃ e, result = .error e ∧ e.LacksPeer) ↔ c.HasChannel channelId ∧ s.eventPeers = [])

theorem selfContained_of_connected {s : Settings} (h : Connected s c) : c.SelfContained s := by
  have hc := complete_of_connected h
  constructor
  case orderer => exact hc.orderer_eq_ok
  case peers => exact fun draw names => hc.peers_of_selectPeers
  case invoke => exact hc.finds_invoke
  case instantiateChaincode => exact hc.finds_instantiateChaincode
  case approveForMyOrganization => exact hc.finds_approveForMyOrganization
  case commitChaincodeDefinition => exact hc.finds_commitChaincodeDefinition
  case query => exact hc.finds_query
  case checkCommitReadiness => exact hc.finds_checkCommitReadiness
  case blockByNumber => exact fun _ _ => hc.finds_askLedger _ _ _ Ledger.finds_filteredBlock
  case blockByTxId => exact fun _ _ => hc.finds_askLedger _ _ _ Ledger.finds_filteredBlock
  case blockHeight => exact fun _ => hc.finds_askLedger _ _ _ Ledger.finds_height
  case transactionTime =>
    exact fun _ txId => hc.finds_askLedger _ _ _ fun peer r => Ledger.finds_transactionTime peer r txId
  case blockHeightByEventPeer => exact hc.finds_blockHeightByEventPeer
  case subscribe =>
    intro channelId start mode result log hruns hlog
    rw [← h.settings_eq]
    exact ⟨fun hn => subscribe_of_not_hasChannel hn hruns, hc.subscribe_lacksPeer_iff hruns hlog⟩

/-- **Connecting.** A client connects exactly if its crypto suite is known, all endpoints can be
built and the settings are valid; otherwise the first of these to fail says why. Whatever a client
that has connected looks for by itself is found. All this holds whichever texts the TLS library can
read as authorities. -/
theorem connect_selfContained (readable : String → Bool) {s : Settings} (hs : s.Sorted) (identity : Identity) :
    ((∃ c, connect s identity readable = .ok c) ↔ s.Connectable readable) ∧
    (∀ e, connect s identity readable = .error e ↔ s.ConnectFault readable e) ∧
    (s.validate = .ok () → ∃ selector, Selector.ofSettings s = .ok selector) ∧
    (∀ c, connect s identity readable = .ok c → c.SelfContained s) :=
  ⟨exists_connect_eq_ok_iff identity, fun _ => connect_eq_error_iff hs identity, Selector.exists_ofSettings_eq_ok,
    fun _ h => selfContained_of_connected (connected_of_connect h).1⟩

/-- One peer, one orderer over TLS with a text for its authorities, no channel, and no peer that serves events. -/
def sampleSettings (authorities : String) : Settings where
  peers := [("peer0", { url := "peer0:7051", organization := "Org1MSP" })]
  orderers := [("orderer0",
    { url := "orderer0:7050", organization := "OrdererMSP", useTls := true, authorityPem := some authorities })]

def sampleIdentity : Identity := ⟨[1], "Org1MSP", ⟨5, by decide, by decide⟩⟩

theorem sampleSettings_sorted (authorities : String) : (sampleSettings authorities).Sorted :=
  ⟨List.pairwise_singleton _ _, .nil, List.pairwise_singleton _ _⟩

theorem find?_sampleSuite : CryptoSuite.find? "ecdsa" "P256-SHA256" "SHA2-256" = .ok .ecdsaP256Sha256 :=
  if_pos (by decide +kernel)

/-- A text without sections names no authorities. -/
theorem sampleSettings_connectable : (sampleSettings "none").Connectable Authority.isReadable where
  suite := ⟨_, find?_sampleSuite⟩
  reachable := Settings.checkEndpoints_eq_ok_iff.1 rfl
  valid := rfl

/-- A section that does not end cannot be read. -/
theorem sampleSettings_connectFault :
    (sampleSettings "-----BEGIN CERTIFICATE-----").ConnectFault Authority.isReadable
      (.transport "transport error") := by
  refine .endpoint _ _ find?_sampleSuite ((sampleSettings_sorted _).checkEndpoints_eq_error_iff.1 ?_)
  rfl

theorem connect_selfContained_sample :
    (∃ c, connect (sampleSettings "none") sampleIdentity = .ok c ∧
      c.SelfContained (sampleSettings "none")) ∧
    connect (sampleSettings "-----BEGIN CERTIFICATE-----") sampleIdentity = .error (.transport "transport error") := by
  obtain ⟨hiff, -, -, hall⟩ :=
    connect_selfContained Authority.isReadable (sampleSettings_sorted "none") sampleIdentity
  obtain ⟨-, herror, -, -⟩ :=
    connect_selfContained Authority.isReadable (sampleSettings_sorted "-----BEGIN CERTIFICATE-----") sampleIdentity
  obtain ⟨c, hc⟩ := hiff.2 sampleSettings_connectable
  exact ⟨⟨c, hc, hall c hc⟩, (herror _).2 sampleSettings_connectFault⟩

/-- Where no peer serves events, a subscription may still fail for another reason. -/
theorem subscribe_without_channel : ∃ c,
    connect (sampleSettings "none") sampleIdentity = .ok c ∧
      (sampleSettings "none").eventPeers = [] ∧ ∀ result log, (c.subscribe "" none .full).Runs result log →
        result = .error (.invalidOperation .noChannel) ∧ ¬ ∃ e, result = .error e ∧ e.LacksPeer := by
  obtain ⟨c, hc⟩ := (exists_connect_eq_ok_iff sampleIdentity).2 sampleSettings_connectable
  refine ⟨c, hc, rfl, fun result log hruns => ?_⟩
  have hn : ¬ c.HasChannel "" := by
    unfold HasChannel
    rw [(connected_of_connect hc).1.settings_eq]
    decide
  cases subscribe_of_not_hasChannel hn hruns
  refine ⟨rfl, ?_⟩
  rintro ⟨e, he, hlacks⟩
  cases he
  exact hlacks

end Client

end LedgerClient
