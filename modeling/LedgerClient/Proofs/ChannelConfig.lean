/-
What the document of a channel configuration shows.

The document is read by member names. Along every path of group names it leads
to a group exactly where the configuration has one, and shows that group: its
version, its guard, and its groups, values and policies by name, each under its
own (`showsGroup_group`, `rel_at?_group`). Bytes that are not shown as what
they hold are shown as hexadecimal text that can be read back
(`showsBytes_decoded`). Encodings that differ in the order of map entries have
one document (`document_complete`).
-/
import LedgerClient.ChannelConfig.Json
import LedgerClient.Proofs.Text.Hex
import LedgerClient.Proofs.Wire.Order
import Mathlib.Data.List.Forall2

namespace LedgerClient

open Protocol Wire

/-! ## Finding one's way -/

namespace Json

/-- The member of an object with a name. -/
def member? (name : String) : Json → Option Json
  | object members => members.lookup name
  | _ => none

/-- Where a path of member names leads. -/
def at? : List String → Json → Option Json
  | [], j => some j
  | name :: path, j => (j.member? name).bind (at? path)

theorem at?_append : ∀ (path path' : List String) (j : Json), j.at? (path ++ path') = (j.at? path).bind (at? path')
  | [], _, _ => rfl
  | name :: path, path', j => by
    rw [List.cons_append, at?, at?]
    cases j.member? name with
    | none => rfl
    | some j' => exact at?_append path path' j'

/-- The names of the members of an object. -/
def names? : Json → Option (List String)
  | object members => some (members.map Prod.fst)
  | _ => none

end Json

/-- The group to which a path of names leads. -/
def Protocol.ConfigGroup.at? : List String → ConfigGroup → Option ConfigGroup
  | [], g => some g
  | name :: path, g => (g.groups.lookup name).bind (at? path)

namespace ChannelConfig

/-- The members that lead to the group at a path. -/
def place (path : List String) : List String := path.flatMap fun name => ["groups", name]

/-! ## What is shown -/

/-- Bytes are shown as what they hold, if that is known and can be read, and otherwise as hexadecimal text. -/
def ShowsBytes (type? : Option MessageType) (bytes : Bytes) (j : Json) : Prop :=
  match type?.bind (Message.decode? · bytes) with
  | some _ => ∃ members, j = .object members
  | none => ∃ t, j = .text t ∧ Bytes.ofHex? t = some bytes

/-- The names that say what a value holds. -/
def wellKnownTypes : List (String × MessageType) :=
  [("MSP", .mspConfig), ("AnchorPeers", .anchorPeers), ("OrdererAddresses", .ordererAddresses),
    ("Endpoints", .ordererAddresses), ("Consortium", .consortium), ("HashingAlgorithm", .hashingAlgorithm),
    ("BlockDataHashingStructure", .blockDataHashingStructure), ("Capabilities", .capabilities), ("ACLs", .acls),
    ("BatchSize", .batchSize), ("BatchTimeout", .batchTimeout), ("ChannelRestrictions", .channelRestrictions),
    ("ConsensusType", .consensusType)]

/-- The kinds of policies: by signatures, and by the policies of the groups below. -/
def policyTypes : List (Int32 × MessageType) := [(1, .signaturePolicyEnvelope), (3, .implicitMetaPolicy)]

/-- The document shows a version and who may change what has it. -/
structure ShowsGuard (version : UInt64) (modPolicy : String) (j : Json) : Prop where
  version : j.member? "version" = some (.nat version.toNat)
  modPolicy : j.member? "mod_policy" = some (.text modPolicy)

structure ShowsValue (name : String) (v : ConfigValue) (j : Json) : Prop where
  guard : ShowsGuard v.version v.modPolicy j
  content : ∃ content, j.member? "value" = some content ∧ ShowsBytes (wellKnownTypes.lookup name) v.value content

structure ShowsPolicy (p : ConfigPolicy) (j : Json) : Prop where
  guard : ShowsGuard p.version p.modPolicy j
  absent : p.policy = none → j.member? "policy" = some .null
  content : ∀ q, p.policy = some q → j.at? ["policy", "type"] = some (.int q.type.toInt) ∧
    ∃ content, j.at? ["policy", "value"] = some content ∧ ShowsBytes (policyTypes.lookup q.type) q.value content

/-- An object shows a map: one member for each entry, in their order. -/
def ShowsNamed {α : Type} (shows : String → α → Json → Prop) (xs : Named α) (j : Json) : Prop :=
  ∃ members, j = .object members ∧
    List.Forall₂ (fun x member => member.1 = x.1 ∧ shows x.1 x.2 member.2) xs members

/-- What stands in a group itself. -/
structure ShowsGroup (g : ConfigGroup) (j : Json) : Prop where
  guard : ShowsGuard g.version g.modPolicy j
  groups : (j.member? "groups").bind Json.names? = some (g.groups.map Prod.fst)
  values : ∃ values, j.member? "values" = some values ∧ ShowsNamed ShowsValue g.values values
  policies : ∃ policies, j.member? "policies" = some policies ∧
    ShowsNamed (fun _ => ShowsPolicy) g.policies policies

/-! ## Bytes -/

theorem showsBytes_hex {type? : Option MessageType} {bytes : Bytes}
    (h : type?.bind (Message.decode? · bytes) = none) : ShowsBytes type? bytes (.hex bytes) := by
  rw [ShowsBytes, h]
  exact ⟨_, rfl, Bytes.ofHex?_toHex bytes⟩

/-- What can be read is shown as an object, and the rest as hexadecimal text. -/
theorem showsBytes_decoded {α : Type} [Typed α] {type? : Option MessageType} (ht : type? = some (Typed.type α))
    (render : α → Json) (hr : ∀ x, ∃ members, render x = .object members) (bytes : Bytes) :
    ShowsBytes type? bytes (((decode? α bytes).map render).getD (.hex bytes)) := by
  rw [decode?]
  cases h : Message.decode? (Typed.type α) bytes with
  | none => exact showsBytes_hex (by rw [ht, Option.bind_some, h])
  | some m =>
    rw [ShowsBytes, ht, Option.bind_some, h]
    exact hr _

theorem showsBytes_wellKnown (name : String) (bytes : Bytes) :
    ShowsBytes (wellKnownTypes.lookup name) bytes ((wellKnown? name bytes).getD (.hex bytes)) := by
  unfold wellKnown?
  split
  case h_14 =>
    refine showsBytes_hex ?_
    have hlookup : wellKnownTypes.lookup name = none := by
      simp_all [wellKnownTypes, List.lookup_eq_none_iff]
    rw [hlookup, Option.bind_none]
  all_goals
    refine showsBytes_decoded ?_ _ ?_ bytes
    · rfl
    · exact fun _ => ⟨_, rfl⟩

theorem showsBytes_policyContent (q : Policy) :
    ShowsBytes (policyTypes.lookup q.type) q.value ((policyContent? q).getD (.hex q.value)) := by
  unfold policyContent?
  split
  next ht =>
    refine showsBytes_decoded ?_ _ ?_ q.value
    · rw [ht]
      rfl
    · exact fun _ => ⟨_, rfl⟩
  next ht =>
    split
    next ht =>
      refine showsBytes_decoded ?_ _ ?_ q.value
      · rw [ht]
        rfl
      · exact fun _ => ⟨_, rfl⟩
    next ht' =>
      refine showsBytes_hex ?_
      have hlookup : policyTypes.lookup q.type = none := by
        simp_all [policyTypes, List.lookup_eq_none_iff]
      rw [hlookup, Option.bind_none]

/-! ## Groups -/

theorem showsValue_value (name : String) (v : ConfigValue) : ShowsValue name v (value name v) :=
  ⟨⟨rfl, rfl⟩, _, rfl, showsBytes_wellKnown name v.value⟩

theorem showsPolicy_policy (p : ConfigPolicy) : ShowsPolicy p (policy p) where
  guard := ⟨rfl, rfl⟩
  absent h := by
    rw [policy, h]
    rfl
  content q h := by
    rw [policy, h]
    exact ⟨rfl, _, rfl, showsBytes_policyContent q⟩

theorem showsNamed_map {α : Type} {shows : String → α → Json → Prop} {render : String → α → Json}
    (h : ∀ name x, shows name x (render name x)) (xs : Named α) :
    ShowsNamed shows xs (.object (xs.map fun (name, x) => (name, render name x))) := by
  refine ⟨_, rfl, ?_⟩
  rw [List.forall₂_map_right_iff, List.forall₂_same]
  exact fun x _ => ⟨rfl, h x.1 x.2⟩

theorem map_fst_groups : ∀ gs : List (String × ConfigGroup), (groups gs).map Prod.fst = gs.map Prod.fst
  | [] => rfl
  | (name, _) :: gs => congrArg (name :: ·) (map_fst_groups gs)

theorem lookup_groups (name : String) : ∀ gs : List (String × ConfigGroup),
    (groups gs).lookup name = (gs.lookup name).map group
  | [] => rfl
  | (k, g) :: gs => by
    rw [groups, List.lookup_cons, List.lookup_cons, lookup_groups name gs]
    split <;> rfl

theorem showsGroup_group : ∀ g : ConfigGroup, ShowsGroup g (group g)
  | ⟨version, gs, values, policies, modPolicy⟩ => by
    rw [group]
    exact
      { guard := ⟨rfl, rfl⟩
        groups := congrArg some (map_fst_groups gs)
        values := ⟨_, rfl, showsNamed_map showsValue_value values⟩
        policies := ⟨_, rfl, showsNamed_map (fun _ => showsPolicy_policy) policies⟩ }

theorem member?_groups (g : ConfigGroup) : (group g).member? "groups" = some (.object (groups g.groups)) := by
  cases g
  rw [group]
  rfl

/-- The document leads to a group exactly where the configuration does. -/
theorem at?_group : ∀ (path : List String) (g : ConfigGroup), (group g).at? (place path) = (g.at? path).map group
  | [], _ => rfl
  | name :: path, g => by
    have hplace : place (name :: path) = "groups" :: name :: place path := rfl
    rw [hplace, Json.at?, member?_groups, Option.bind_some, Json.at?, Json.member?, lookup_groups, ConfigGroup.at?]
    cases g.groups.lookup name with
    | none => rfl
    | some g' => exact at?_group path g'

theorem rel_at?_group (path : List String) (g : ConfigGroup) :
    Option.Rel ShowsGroup (g.at? path) ((group g).at? (place path)) := by
  rw [at?_group]
  cases g.at? path with
  | none => exact .none
  | some g' => exact .some (showsGroup_group g')

/-- **A complete document.** The document of a configuration shows its sequence and, at every depth, its groups,
values and policies under their names and nothing else in their places. Encodings in which the entries of maps stand in
other places have the same document, or none of them has one. -/
theorem document_complete :
    (∀ c : Config,
      (toJson c).member? "sequence" = some (.nat c.sequence.toNat) ∧
      (c.channelGroup = none → (toJson c).member? "channel_group" = some .null) ∧
      ∀ g, c.channelGroup = some g → ∀ path,
        Option.Rel ShowsGroup (g.at? path) ((toJson c).at? ("channel_group" :: place path))) ∧
    ∀ bytes bytes', Message.Reordered (.type .config) bytes bytes' →
      (decode? Config bytes).map toJson = (decode? Config bytes').map toJson := by
  refine ⟨fun c => ⟨rfl, fun h => ?_, fun g h path => ?_⟩, fun bytes bytes' h => ?_⟩
  · rw [toJson, h]
    rfl
  · rw [toJson, h]
    exact rel_at?_group path g
  · have hread : Message.decode? (Typed.type Config) bytes = Message.decode? (Typed.type Config) bytes' :=
      Message.decode?_reordered h
    rw [decode?, decode?, hread]

/-! Two groups, of which the second has two values; the entries of both maps stand in one order and in the other. -/

def valuesInOrder : Bytes := [26, 7, 10, 1, 120, 18, 2, 8, 1, 26, 3, 10, 1, 121]

def valuesTurned : Bytes := [26, 3, 10, 1, 121, 26, 7, 10, 1, 120, 18, 2, 8, 1]

def configInOrder : Bytes := [18, 26, 18, 3, 10, 1, 97, 18, 19, 10, 1, 98, 18, 14] ++ valuesInOrder

def configTurned : Bytes := [18, 26, 18, 19, 10, 1, 98, 18, 14] ++ valuesTurned ++ [18, 3, 10, 1, 97]

theorem document_complete_turned :
    (decode? Config configInOrder).isSome = true ∧
      (decode? Config configInOrder).map toJson = (decode? Config configTurned).map toJson := by
  have hvalues : Record.Reordered (.type .configGroup)
      [.chunk 3 [10, 1, 120, 18, 2, 8, 1], .chunk 3 [10, 1, 121]]
      [.chunk 3 [10, 1, 121], .chunk 3 [10, 1, 120, 18, 2, 8, 1]] :=
    .swap [] rfl rfl (Record.passesBy_chunk rfl rfl (by decide))
  have hgroup : Record.Reordered (.messageEntry .configGroup)
      [.chunk 1 [98], .chunk 2 valuesInOrder] [.chunk 1 [98], .chunk 2 valuesTurned] :=
    .cons _ (.inside [] rfl rfl rfl rfl hvalues)
  have hgroups : Record.Reordered (.type .configGroup)
      [.chunk 2 [10, 1, 97], .chunk 2 ([10, 1, 98, 18, 14] ++ valuesInOrder)]
      [.chunk 2 ([10, 1, 98, 18, 14] ++ valuesTurned), .chunk 2 [10, 1, 97]] :=
    .trans (.cons _ (.inside [] rfl rfl rfl rfl hgroup))
      (.swap [] rfl rfl (Record.passesBy_chunk rfl rfl (by decide)))
  exact ⟨by decide, document_complete.2 configInOrder configTurned
    ⟨_, _, rfl, rfl, .inside [] rfl rfl rfl rfl hgroups⟩⟩

end ChannelConfig

end LedgerClient
