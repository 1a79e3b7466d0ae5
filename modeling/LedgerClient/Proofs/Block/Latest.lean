/-
What a full view says of a block as a whole, from the transactions in it.

The view is made entry by entry, and entries that are left out leave no mark. So
with one more transaction the channel is that of the new one, and the
configuration is the new one's if it has one (`Latest.concat`, `Latest.add`);
over all entries both are those of the last transactions that have them
(`latest_gather`). The time of the block is that of its first entry, which only
has to be taken apart as far as its channel header.
-/
import LedgerClient.Proofs.Block.Slots
import LedgerClient.Proofs.Protocol.Codes

namespace LedgerClient.Block

open Protocol

variable {b : Protocol.Block} {full : Full} {ts : List Transaction} {t : Transaction} {channelId : String}
  {config : Option Json} {e : Entry} {i : Nat}

/-! ## Channel and configuration -/

/-- The channel and the configuration are those of the last transactions that have one. -/
structure Latest (ts : List Transaction) (channelId : String) (config : Option Json) : Prop where
  noChannel : ts = [] → channelId = ""
  channel : ∀ t ∈ ts, (∀ u ∈ ts, u.index ≤ t.index) → channelId = t.header.channelId
  config_eq_none_iff : config = none ↔ ∀ t ∈ ts, t.config? = none
  config : ∀ t ∈ ts, ∀ tx, t.config? = some tx → (∀ u ∈ ts, u.config? ≠ none → u.index ≤ t.index) →
    config = some tx.config

theorem Latest.nil : Latest [] "" none := by
  constructor <;> simp

theorem Latest.concat (h : Latest ts channelId config) (hlt : ∀ u ∈ ts, u.index < t.index) :
    Latest (ts ++ [t]) t.header.channelId ((t.config?.map (·.config)).or config) := by
  have hlast : t ∈ ts ++ [t] := List.mem_append_right ts List.mem_cons_self
  have hmem : ∀ u ∈ ts ++ [t], t.index ≤ u.index → u = t := fun u hu hle => by
    rcases List.mem_append.1 hu with hu | hu
    · exact absurd (hlt u hu) (Nat.not_lt.2 hle)
    · exact List.mem_singleton.1 hu
  refine ⟨fun hnil => by simp at hnil, fun u hu hmax => ?_, ?_, fun u hu tx htx hmax => ?_⟩
  · rw [hmem u hu (hmax t hlast)]
  · rw [Option.or_eq_none_iff, Option.map_eq_none_iff, h.config_eq_none_iff, List.forall_mem_append,
      List.forall_mem_singleton, and_comm]
  · cases hconfig : t.config? with
    | some _ =>
      obtain rfl := hmem u hu (hmax t hlast (by simp [hconfig]))
      rw [hconfig] at htx
      cases htx
      rfl
    | none =>
      have hu' : u ∈ ts := by
        rcases List.mem_append.1 hu with hu | hu
        · exact hu
        · rw [List.mem_singleton.1 hu, hconfig] at htx
          cases htx
      exact h.config u hu' tx htx fun v hv => hmax v (List.mem_append_left _ hv)

/-- The loop over the entries keeps to the latest transactions. -/
theorem Latest.add {g : Gathered} (h : Latest g.transactions g.channelId g.config)
    (hlt : ∀ u ∈ g.transactions, u.index < i) (codes : Bytes) (entry : Bytes) :
    Latest (g.add codes i entry).transactions (g.add codes i entry).channelId (g.add codes i entry).config := by
  rw [Gathered.transactions_add, Gathered.channelId_add, Gathered.config_add]
  cases hshown : shown? codes i entry with
  | none => simpa using h
  | some t => exact h.concat (by rwa [index_of_shown? hshown])

theorem latest_gather (codes : Bytes) (entries : List Bytes) :
    Latest (gather codes entries).transactions (gather codes entries).channelId (gather codes entries).config := by
  induction entries using List.reverseRecOn with
  | nil => exact .nil
  | append_singleton entries entry ih =>
    rw [gather_concat]
    refine ih.add (fun u hu => ?_) codes entry
    rw [transactions_gather] at hu
    obtain ⟨i, _, hi, hu⟩ := mem_collect.1 hu
    rw [index_of_shown? hu]
    exact (List.getElem?_eq_some_iff.1 hi).1

/-! ## Kinds -/

/-- The data of an entry hold a configuration and the update that led to it, and the transaction shows both. -/
def ShowsConfiguration (data : Bytes) (signer : Signer) (tx : ConfigTransaction) : Prop :=
  ∃ envelope config update, Wire.decode? ConfigEnvelope data = some envelope ∧ envelope.config = some config ∧
    envelope.lastUpdate = some update ∧ tx.actionSigner = signer ∧ tx.proposalHash = sha256 update.payload ∧
    tx.config = ChannelConfig.toJson config

theorem showsConfiguration_of_configTransaction {data : Bytes} {signer : Signer} {tx : ConfigTransaction}
    (h : configTransaction data signer = .ok tx) : ShowsConfiguration data signer tx := by
  simp only [configTransaction, bind_eq_ok_iff, decodeAs_eq_ok_iff, require_eq_ok_iff] at h
  obtain ⟨envelope, henvelope, config, hconfig, update, hupdate, _, -, _, -, _, -, htx⟩ := h
  cases htx
  exact ⟨envelope, config, update, henvelope, hconfig, hupdate, rfl, rfl, rfl⟩

/-- A transaction is of the kind that its header says, either a configuration or a call. -/
structure HasKind (e : Entry) (t : Transaction) : Prop where
  config : t.header.type = HeaderType.config.code →
    ∃ tx, t.body = .config tx ∧ ShowsConfiguration e.payload.data t.signer tx
  other : t.header.type ≠ HeaderType.config.code →
    t.header.type = HeaderType.endorserTransaction.code ∧ ∃ tx, t.body = .endorser tx

theorem hasKind_of_body (htype : t.header.type = e.channelHeader.type) (h : body e t.signer = .ok (some t.body)) :
    HasKind e t := by
  unfold body at h
  rw [← htype] at h
  split at h
  next hcode =>
    have hcode := HeaderType.ofCode?_eq_some_iff.1 hcode
    obtain ⟨tx, -, hbody⟩ := map_eq_ok_iff.1 h
    exact ⟨fun hconfig => absurd (hcode.symm.trans hconfig) (by decide),
      fun _ => ⟨hcode, tx, Option.some.inj hbody.symm⟩⟩
  next hcode =>
    have hcode := HeaderType.ofCode?_eq_some_iff.1 hcode
    obtain ⟨tx, htx, hbody⟩ := map_eq_ok_iff.1 h
    exact ⟨fun _ => ⟨tx, Option.some.inj hbody.symm, showsConfiguration_of_configTransaction htx⟩,
      fun hne => absurd hcode hne⟩
  next => cases h

/-! ## The whole block -/

/-- What a full view says of the block as a whole follows from its entries. -/
structure Follows (b : Protocol.Block) (full : Full) : Prop extends
    Latest full.transactions full.channelId full.config where
  firstTime : ∀ e, OpensAt b 0 e → full.firstTxTime = e.channelHeader.timestamp
  noFirstTime : (∀ e, ¬ OpensAt b 0 e) → full.firstTxTime = none
  kind : ∀ t ∈ full.transactions, ∃ e x s, OpensAt b t.index e ∧ t.header = .of e.channelHeader x ∧
    Wire.decode? SignatureHeader e.header.signatureHeader = some s ∧ t.signer = .ofHeader s ∧ HasKind e t

theorem latest_of_decode (h : decode b = .ok full) : Latest full.transactions full.channelId full.config := by
  obtain ⟨_, -, h⟩ := exists_of_bind_eq_ok h
  cases h
  exact latest_gather _ _

theorem firstTxTime_of_decode (h : decode b = .ok full) : full.firstTxTime =
    (b.entries[0]?.bind fun entry => (Entry.ofBytes? entry).toOption).bind (·.channelHeader.timestamp) := by
  obtain ⟨_, -, h⟩ := exists_of_bind_eq_ok h
  cases h
  exact firstTxTime_gather _ _

theorem follows_of_decode (h : decode b = .ok full) : Follows b full where
  toLatest := latest_of_decode h
  firstTime e he := by
    rw [firstTxTime_of_decode h, opensAt_iff.1 he, Option.bind_some]
  noFirstTime hnone := by
    have hclosed : (b.entries[0]?.bind fun entry => (Entry.ofBytes? entry).toOption) = none :=
      Option.eq_none_iff_forall_ne_some.2 fun e he => hnone e (opensAt_iff.2 he)
    rw [firstTxTime_of_decode h, hclosed, Option.bind_none]
  kind t ht := by
    obtain ⟨e, x, s, ho, hheader, hs, hsigner, hbody⟩ := exists_opensAt_of_decode h ht
    exact ⟨e, x, s, ho, hheader, hs, hsigner, hasKind_of_body (congrArg (·.type) hheader) hbody⟩

/-- **A block as a whole follows its transactions.** The full view of a block with a header has the channel of its last
transaction and the configuration of its last configuration transaction, and neither where there is none. Its time is that
of the first entry, if this one can be taken apart as far as its channel header, whether or not it is shown and whatever
comes after it. Each transaction is of the kind its header says: a configuration, signed like its envelope and with the
hash of the update that led to it, or a call. -/
theorem summary_follows_transactions (hheader : b.header ≠ none) : ∃ full, decode b = .ok full ∧ Follows b full := by
  obtain ⟨header, hh⟩ := Option.ne_none_iff_exists'.1 hheader
  obtain ⟨full, hfull⟩ := decode_of_header hh
  exact ⟨full, hfull, follows_of_decode hfull⟩

/-! A block with a configuration, between entries of which none is shown: one of another type, a call with an event
that is none, and one that is no envelope. -/

def plainEntry (header : ChannelHeader) (data : Bytes) : Bytes :=
  let payload : Payload := { header := some { channelHeader := Wire.encode header }, data }
  Wire.encode ({ payload := Wire.encode payload } : Envelope)

def updatedBlock : Protocol.Block :=
  let update : Payload := { header := some {} }
  let envelope : ConfigEnvelope := { config := some {}, lastUpdate := some { payload := Wire.encode update } }
  let other := plainEntry { channelId := "a", timestamp := some { seconds := 7 } } []
  let config := plainEntry { type := HeaderType.config.code, channelId := "b" } (Wire.encode envelope)
  { header := some {}, data := some { entries := [other, config, callEntry [255], [255]] } }

theorem summary_follows_transactions_updated : ∃ full, decode updatedBlock = .ok full ∧
    full.channelId = "b" ∧ full.config ≠ none ∧ full.firstTxTime = some { seconds := 7 } := by
  obtain ⟨full, hfull, h⟩ := summary_follows_transactions (b := updatedBlock) (by decide)
  have hshown : (decode updatedBlock).toOption.map (fun f =>
      f.transactions.map fun t => (t.index, t.header.channelId, t.config?.isSome)) = some [(1, "b", true)] := by
    decide +kernel
  rw [hfull] at hshown
  obtain ⟨t, htransactions, hparts⟩ := List.map_eq_singleton_iff.1 (Option.some.inj hshown)
  have ht : t ∈ full.transactions := htransactions ▸ List.mem_singleton_self t
  have hlast : ∀ u ∈ full.transactions, u.index ≤ t.index := by
    rw [htransactions]
    simp
  simp only [Prod.mk.injEq] at hparts
  have hfirst : (updatedBlock.entries[0]?.bind fun entry => (Entry.ofBytes? entry).toOption).map
      (·.channelHeader.timestamp) = some (some { seconds := 7 }) := by decide +kernel
  obtain ⟨e, he, htime⟩ := Option.map_eq_some_iff.1 hfirst
  refine ⟨full, hfull, (h.channel t ht hlast).trans hparts.2.1, fun hnone => ?_, ?_⟩
  · rw [h.config_eq_none_iff.1 hnone t ht] at hparts
    exact absurd hparts.2.2 (by decide)
  · rw [h.firstTime e (opensAt_iff.2 he), htime]

end LedgerClient.Block
