/-
What is checked before a client connects, and in which order.

First the crypto suite, then every endpoint, table by table and by name, then
the settings as a whole. A client comes of it exactly if all of these pass
(`exists_connect_eq_ok_iff`), and otherwise the first that fails says why
(`connect_eq_error_iff`).
-/
import LedgerClient.Client.Basic
import LedgerClient.Proofs.Except

namespace LedgerClient

/-! ## One node -/

namespace NodeSettings

variable {readable : String → Bool} {n : NodeSettings} {uri : Uri}

/-- What TLS asks of a node: all its authorities can be read, and its name is one that can be proved. -/
structure Trustable (readable : String → Bool) (n : NodeSettings) (uri : Uri) : Prop where
  authorities : ∀ pem, n.authorityPem = some pem → readable pem = true
  name : ∃ name, (n.serverName <|> uri.host) = some name ∧ ServerName.isValid name = true

theorem checkTls_eq_ok_iff : n.checkTls readable uri = .ok () ↔ n.Trustable readable uri := by
  have hauthorities : (n.authorityPem.any (!readable ·)) = false ↔
      ∀ pem, n.authorityPem = some pem → readable pem = true := by
    cases n.authorityPem <;> simp
  unfold checkTls
  split
  next hname =>
    refine iff_of_false nofun fun h => ?_
    obtain ⟨name, hn, -⟩ := h.name
    rw [hname] at hn
    cases hn
  next name hname =>
    split
    next hunread =>
      refine iff_of_false nofun fun h => ?_
      rw [hauthorities.2 h.authorities] at hunread
      cases hunread
    next hread =>
      have hall := hauthorities.1 (eq_false_of_ne_true hread)
      split
      next hvalid => exact iff_of_true rfl ⟨hall, name, hname, hvalid⟩
      next hvalid =>
        refine iff_of_false nofun fun h => ?_
        obtain ⟨name', hn, hvalid'⟩ := h.name
        obtain rfl : name' = name := Option.some.inj (hn.symm.trans hname)
        exact hvalid hvalid'

/-- A node has an endpoint if its address is one and TLS, where it is used, can be set up. -/
theorem endpoint_eq_ok_iff : n.endpoint readable = .ok uri ↔
    Uri.parse? n.address = some uri ∧ (n.useTls = true → n.Trustable readable uri) := by
  unfold endpoint
  split
  next hnone => exact iff_of_false nofun fun h => by rw [hnone] at h; cases h.1
  next found hfound =>
    rw [hfound, Option.some_inj]
    split
    next htls =>
      rw [map_eq_ok_iff]
      constructor
      · intro h
        obtain ⟨⟨⟩, hcheck, rfl⟩ := h
        exact ⟨rfl, fun _ => checkTls_eq_ok_iff.1 hcheck⟩
      · intro h
        obtain ⟨rfl, hcheck⟩ := h
        exact ⟨(), checkTls_eq_ok_iff.2 (hcheck htls), rfl⟩
    next htls =>
      rw [Except.ok.injEq]
      exact (and_iff_left fun h => absurd h htls).symm

end NodeSettings

/-! ## Tables -/

/-- The order of names: that of their bytes. -/
def NameBefore (a b : String) : Prop := Utf8.encode a < Utf8.encode b

theorem NameBefore.asymm {a b : String} (h : NameBefore a b) : ¬ NameBefore b a := List.lt_asymm h

abbrev NodeTable := List (String × NodeSettings)

namespace NodeTable

variable {readable : String → Bool} {t : NodeTable} {e : ClientError}

/-- Each name stands in the table once, after those before it. -/
def IsSorted (t : NodeTable) : Prop := t.Pairwise fun x y => NameBefore x.1 y.1

/-- Every node of the table has an endpoint. -/
def Reachable (readable : String → Bool) (t : NodeTable) : Prop := ∀ x ∈ t, ∃ uri, x.2.endpoint readable = .ok uri

/-- Why the first node by name has no endpoint, of those that have none. -/
def Fault (readable : String → Bool) (t : NodeTable) (e : ClientError) : Prop :=
  ∃ x ∈ t, x.2.endpoint readable = .error e ∧ ∀ y ∈ t, NameBefore y.1 x.1 → ∃ uri, y.2.endpoint readable = .ok uri

/-- The check of one node. -/
def check (readable : String → Bool) (x : String × NodeSettings) : Except ClientError Unit := do
  let _ ← x.2.endpoint readable

theorem check_eq_ok_iff {x : String × NodeSettings} :
    check readable x = .ok () ↔ ∃ uri, x.2.endpoint readable = .ok uri := by
  unfold check
  cases x.2.endpoint readable with
  | error e => exact iff_of_false nofun nofun
  | ok uri => exact iff_of_true rfl ⟨uri, rfl⟩

theorem check_eq_error_iff {x : String × NodeSettings} :
    check readable x = .error e ↔ x.2.endpoint readable = .error e := by
  unfold check
  cases x.2.endpoint readable with
  | error e' => exact ⟨fun h => congrArg _ (Except.error.inj h), fun h => congrArg _ (Except.error.inj h)⟩
  | ok uri => exact iff_of_false nofun nofun

theorem forM_check_eq_ok_iff : t.forM (check readable) = .ok () ↔ t.Reachable readable := by
  rw [forM_eq_ok_iff]
  exact forall₂_congr fun x _ => check_eq_ok_iff

theorem IsSorted.forM_check_eq_error_iff (ht : t.IsSorted) :
    t.forM (check readable) = .error e ↔ t.Fault readable e := by
  simp only [forM_eq_error_iff, check_eq_ok_iff, check_eq_error_iff]
  constructor
  · rintro ⟨before, x, after, rfl, hbefore, hx⟩
    refine ⟨x, List.mem_append_right before List.mem_cons_self, hx, fun y hy hlt => ?_⟩
    obtain ⟨-, hrest, -⟩ := List.pairwise_append.1 ht
    rcases List.mem_append.1 hy with hy | hy
    · exact hbefore y hy
    -- What stands at `x` or behind it does not come before it.
    rcases List.mem_cons.1 hy with rfl | hy
    · exact absurd hlt hlt.asymm
    · exact absurd hlt ((List.pairwise_cons.1 hrest).1 y hy).asymm
  · rintro ⟨x, hx, he, hall⟩
    obtain ⟨before, after, rfl⟩ := List.append_of_mem hx
    refine ⟨before, x, after, rfl, fun y hy => ?_, he⟩
    exact hall y (List.mem_append_left _ hy) ((List.pairwise_append.1 ht).2.2 y hy x List.mem_cons_self)

end NodeTable

/-! ## Settings -/

namespace Settings

variable {readable : String → Bool} {s : Settings} {e : ClientError}

/-- Each table names its nodes in order. -/
structure Sorted (s : Settings) : Prop where
  peers : NodeTable.IsSorted s.peers
  eventPeers : NodeTable.IsSorted s.eventPeers
  orderers : NodeTable.IsSorted s.orderers

/-- Every node of every table has an endpoint. -/
structure Reachable (readable : String → Bool) (s : Settings) : Prop where
  peers : NodeTable.Reachable readable s.peers
  eventPeers : NodeTable.Reachable readable s.eventPeers
  orderers : NodeTable.Reachable readable s.orderers

/-- Why the first node without an endpoint has none: the tables one after the other, each by name. -/
inductive EndpointFault (readable : String → Bool) (s : Settings) (e : ClientError) : Prop where
  | peer (h : NodeTable.Fault readable s.peers e)
  | eventPeer (hp : NodeTable.Reachable readable s.peers) (h : NodeTable.Fault readable s.eventPeers e)
  | orderer (hp : NodeTable.Reachable readable s.peers) (he : NodeTable.Reachable readable s.eventPeers)
    (h : NodeTable.Fault readable s.orderers e)

theorem checkEndpoints_eq (readable : String → Bool) (s : Settings) : s.checkEndpoints readable =
    (List.forM s.peers (NodeTable.check readable) >>= fun _ => List.forM s.eventPeers (NodeTable.check readable)) >>=
      fun _ => List.forM s.orderers (NodeTable.check readable) := by
  have happend : ∀ t t' : NodeTable, List.forM (t ++ t') (NodeTable.check readable) =
      List.forM t (NodeTable.check readable) >>= fun _ => List.forM t' (NodeTable.check readable) :=
    fun t t' => List.forM_append
  show List.forM (s.peers ++ s.eventPeers ++ s.orderers) (NodeTable.check readable) = _
  rw [happend, happend]

theorem checkEndpoints_eq_ok_iff : s.checkEndpoints readable = .ok () ↔ s.Reachable readable := by
  rw [checkEndpoints_eq]
  constructor
  · intro h
    obtain ⟨⟨⟩, h, ho⟩ := exists_of_bind_eq_ok h
    obtain ⟨⟨⟩, hp, he⟩ := exists_of_bind_eq_ok h
    exact ⟨NodeTable.forM_check_eq_ok_iff.1 hp, NodeTable.forM_check_eq_ok_iff.1 he,
      NodeTable.forM_check_eq_ok_iff.1 ho⟩
  · rintro ⟨hp, he, ho⟩
    rw [NodeTable.forM_check_eq_ok_iff.2 hp, NodeTable.forM_check_eq_ok_iff.2 he]
    exact NodeTable.forM_check_eq_ok_iff.2 ho

theorem Sorted.checkEndpoints_eq_error_iff (hs : s.Sorted) :
    s.checkEndpoints readable = .error e ↔ s.EndpointFault readable e := by
  rw [checkEndpoints_eq]
  constructor
  · intro h
    rcases bind_eq_error_iff.1 h with h | ⟨⟨⟩, h, ho⟩
    · rcases bind_eq_error_iff.1 h with hp | ⟨⟨⟩, hp, he⟩
      · exact .peer (hs.peers.forM_check_eq_error_iff.1 hp)
      · exact .eventPeer (NodeTable.forM_check_eq_ok_iff.1 hp) (hs.eventPeers.forM_check_eq_error_iff.1 he)
    · obtain ⟨⟨⟩, hp, he⟩ := exists_of_bind_eq_ok h
      exact .orderer (NodeTable.forM_check_eq_ok_iff.1 hp) (NodeTable.forM_check_eq_ok_iff.1 he)
        (hs.orderers.forM_check_eq_error_iff.1 ho)
  · rintro (h | ⟨hp, h⟩ | ⟨hp, he, h⟩)
    · rw [hs.peers.forM_check_eq_error_iff.2 h]
      rfl
    · rw [NodeTable.forM_check_eq_ok_iff.2 hp]
      show (List.forM s.eventPeers (NodeTable.check readable) >>= fun _ => _) = _
      rw [hs.eventPeers.forM_check_eq_error_iff.2 h]
      rfl
    · rw [NodeTable.forM_check_eq_ok_iff.2 hp, NodeTable.forM_check_eq_ok_iff.2 he]
      exact hs.orderers.forM_check_eq_error_iff.2 h

/-- Valid settings have a rule that is known, an orderer and a peer. -/
theorem of_validate_eq_ok (h : s.validate = .ok ()) :
    checkRule s.channel.endorsers = .ok () ∧ s.orderers ≠ [] ∧ s.peers ≠ [] := by
  unfold validate at h
  obtain ⟨⟨⟩, hrule, h⟩ := exists_of_bind_eq_ok h
  refine ⟨mapError_eq_ok_iff.1 hrule, ?_, ?_⟩
  · intro ho
    rw [ho] at h
    cases h
  · intro hp
    rw [hp] at h
    dsimp only at h
    split at h
    next => cases h
    next => cases h

end Settings

/-- The rules that pass the check are those that a selector knows. -/
theorem EndorsementRule.exists_ofSettings_eq_ok {r : EndorserSettings} (h : Settings.checkRule r = .ok ()) :
    ∃ rule, ofSettings r = .ok rule := by
  have hr : r.rule = "" ∨ r.rule = "and" ∨ r.rule = "or" := by
    unfold Settings.checkRule at h
    split at h
    next hr => exact .inl hr
    next hr => exact .inr (.inl hr)
    next hr => exact .inr (.inr hr)
    next => cases h
  unfold ofSettings
  rcases hr with hr | hr | hr
  · rw [hr]
    exact ⟨.all, rfl⟩
  · rw [hr]
    exact ⟨.and r.organizations, rfl⟩
  · rw [hr]
    exact ⟨.or r.organizations, rfl⟩

namespace Selector

variable {s : Settings}

/-- There is a selector for all valid settings. -/
theorem exists_ofSettings_eq_ok (h : s.validate = .ok ()) : ∃ selector, ofSettings s = .ok selector := by
  obtain ⟨rule, hrule⟩ := EndorsementRule.exists_ofSettings_eq_ok (Settings.of_validate_eq_ok h).1
  unfold ofSettings
  rw [hrule]
  exact ⟨_, rfl⟩

theorem of_ofSettings_eq_ok {selector : Selector} (h : ofSettings s = .ok selector) :
    selector.peers.map (·.name) = s.peers.map (·.1) ∧ selector.orderers = s.orderers.map (·.1) := by
  obtain ⟨rule, -, h⟩ := exists_of_bind_eq_ok h
  cases h
  exact ⟨by rw [List.map_map]; rfl, rfl⟩

end Selector

/-! ## Connecting -/

/-- All that is checked before a client connects. -/
structure Settings.Connectable (readable : String → Bool) (s : Settings) : Prop where
  suite : ∃ suite, CryptoSuite.find? s.crypto.family s.crypto.algorithm s.crypto.hash = .ok suite
  reachable : s.Reachable readable
  valid : s.validate = .ok ()

/-- The first check that fails, and its error. -/
inductive Settings.ConnectFault (readable : String → Bool) (s : Settings) : ClientError → Prop where
  | suite (e : IdentityError)
    (h : CryptoSuite.find? s.crypto.family s.crypto.algorithm s.crypto.hash = .error e) :
    ConnectFault readable s (.identity e)
  | endpoint (e : ClientError) (suite : CryptoSuite)
    (hs : CryptoSuite.find? s.crypto.family s.crypto.algorithm s.crypto.hash = .ok suite)
    (h : s.EndpointFault readable e) : ConnectFault readable s e
  | invalid (e : ClientError) (suite : CryptoSuite)
    (hs : CryptoSuite.find? s.crypto.family s.crypto.algorithm s.crypto.hash = .ok suite)
    (hr : s.Reachable readable) (h : s.validate = .error e) : ConnectFault readable s e

namespace Client

variable {readable : String → Bool} {s : Settings} {identity : Identity} {c : Client} {e : ClientError}

/-- What a client has from the settings it connected with. -/
structure Connected (s : Settings) (c : Client) : Prop where
  settings_eq : c.settings = s
  nodes_eq : c.nodes = ⟨s.peers.map (·.1), s.eventPeers.map (·.1), s.orderers.map (·.1)⟩
  selector : Selector.ofSettings s = .ok c.selector
  valid : s.validate = .ok ()

theorem exists_create_eq_ok (hv : s.validate = .ok ()) (signer : Signer) (nodes : Nodes) :
    ∃ c, create s signer nodes = .ok c := by
  obtain ⟨selector, hs⟩ := Selector.exists_ofSettings_eq_ok hv
  unfold create
  rw [hv, hs]
  exact ⟨_, rfl⟩

theorem create_eq_error_iff {signer : Signer} {nodes : Nodes} :
    create s signer nodes = .error e ↔ s.validate = .error e := by
  unfold create
  refine bind_eq_error_iff.trans (or_iff_left ?_)
  rintro ⟨⟨⟩, hv, h⟩
  obtain ⟨selector, hs⟩ := Selector.exists_ofSettings_eq_ok hv
  rw [hs] at h
  cases h

theorem connected_of_connect (h : connect s identity readable = .ok c) : Connected s c ∧ s.Connectable readable := by
  obtain ⟨suite, hsuite, h⟩ := exists_of_bind_eq_ok h
  obtain ⟨⟨⟩, hendpoints, h⟩ := exists_of_bind_eq_ok h
  obtain ⟨⟨⟩, hv, h⟩ := exists_of_bind_eq_ok h
  obtain ⟨selector, hs, h⟩ := exists_of_bind_eq_ok h
  cases h
  exact ⟨⟨rfl, rfl, mapError_eq_ok_iff.1 hs, hv⟩,
    ⟨suite, mapError_eq_ok_iff.1 hsuite⟩, Settings.checkEndpoints_eq_ok_iff.1 hendpoints, hv⟩

theorem exists_connect_eq_ok_iff (identity : Identity) :
    (∃ c, connect s identity readable = .ok c) ↔ s.Connectable readable := by
  constructor
  · rintro ⟨c, h⟩
    exact (connected_of_connect h).2
  · rintro ⟨⟨suite, hsuite⟩, hreachable, hv⟩
    obtain ⟨c, hc⟩ := exists_create_eq_ok hv { identity, suite }
      ⟨s.peers.map (·.1), s.eventPeers.map (·.1), s.orderers.map (·.1)⟩
    refine ⟨c, bind_eq_ok_iff.2 ⟨suite, mapError_eq_ok_iff.2 hsuite, ?_⟩⟩
    exact bind_eq_ok_iff.2 ⟨(), Settings.checkEndpoints_eq_ok_iff.2 hreachable, hc⟩

theorem connect_eq_error_iff (hs : s.Sorted) (identity : Identity) :
    connect s identity readable = .error e ↔ s.ConnectFault readable e := by
  constructor
  · intro h
    rcases bind_eq_error_iff.1 h with h | ⟨suite, hsuite, h⟩
    · obtain ⟨e', he, rfl⟩ := mapError_eq_error_iff.1 h
      exact .suite e' he
    have hfind := mapError_eq_ok_iff.1 hsuite
    rcases bind_eq_error_iff.1 h with h | ⟨⟨⟩, hendpoints, h⟩
    · exact .endpoint e suite hfind (hs.checkEndpoints_eq_error_iff.1 h)
    · exact .invalid e suite hfind (Settings.checkEndpoints_eq_ok_iff.1 hendpoints) (create_eq_error_iff.1 h)
  · intro h
    cases h with
    | suite e h => exact bind_eq_error_iff.2 (.inl (mapError_eq_error_iff.2 ⟨e, h, rfl⟩))
    | endpoint e suite hsuite h =>
      refine bind_eq_error_iff.2 (.inr ⟨suite, mapError_eq_ok_iff.2 hsuite, ?_⟩)
      exact bind_eq_error_iff.2 (.inl (hs.checkEndpoints_eq_error_iff.2 h))
    | invalid e suite hsuite hr h =>
      refine bind_eq_error_iff.2 (.inr ⟨suite, mapError_eq_ok_iff.2 hsuite, ?_⟩)
      exact bind_eq_error_iff.2 (.inr ⟨(), Settings.checkEndpoints_eq_ok_iff.2 hr, create_eq_error_iff.2 h⟩)

end Client

end LedgerClient
