/-
A parsed policy in the document of a configuration.

A rule is read back from its document, thresholds, order and indices included
(`readRule?_rule`), and the identities are shown one for each principal of the
expression, as the role it is (`showsPrincipal_principal`). The document keeps
the place of a policy in the tree of groups (`at?_policyPlace`), and a policy
that is not nested too deep is read from where it is stored. So what the
document shows there is the expression, and no other one.
-/
import LedgerClient.Proofs.ChannelConfig
import LedgerClient.Proofs.Policy.Depth

namespace LedgerClient.ChannelConfig

open Protocol Wire

/-! ## Rules -/

mutual
/-- The rule that a document shows. -/
def readRule? : Json → Option SignaturePolicy
  | .null => some .unset
  | .object [("signed_by", .int index)] => some (.signedBy (Int32.ofInt index))
  | .object [("n_out_of", .object [("n", .int n), ("rules", .list js)])] =>
    (readRules? js).map (.nOutOf (Int32.ofInt n))
  | _ => none

def readRules? : List Json → Option (List SignaturePolicy)
  | [] => some []
  | j :: js => (readRule? j).bind fun r => (readRules? js).map (r :: ·)
end

mutual
theorem readRule?_rule : ∀ r : SignaturePolicy, readRule? (rule r) = some r
  | .unset => rfl
  | .signedBy index => by rw [rule, readRule?, Int32.ofInt_toInt]
  | .nOutOf n rs => by rw [rule, readRule?, readRules?_rules rs, Option.map_some, Int32.ofInt_toInt]

theorem readRules?_rules : ∀ rs : List SignaturePolicy, readRules? (rules rs) = some rs
  | [] => rfl
  | r :: rs => by rw [rules, readRules?, readRule?_rule r, Option.bind_some, readRules?_rules rs, Option.map_some]
end

/-! ## Identities -/

/-- The document shows a principal: a role, by its name in capitals, in an organization. -/
structure ShowsPrincipal (p : Policy.Principal) (j : Json) : Prop where
  classification : j.member? "principal_classification" = some (.text "ROLE")
  mspId : j.at? ["principal", "msp_identifier"] = some (.text p.mspId)
  role : j.at? ["principal", "role"] = some (.text p.role.policyName.toUpper)

theorem roleName_code (r : Role) : roleName r.code = r.policyName.toUpper := by
  cases r <;> decide +kernel

theorem policyName_toUpper_inj {r r' : Role} (h : r.policyName.toUpper = r'.policyName.toUpper) : r = r' := by
  rw [← roleName_code, ← roleName_code] at h
  revert h
  cases r <;> cases r' <;> decide

theorem ShowsPrincipal.unique {p p' : Policy.Principal} {j : Json} (h : ShowsPrincipal p j)
    (h' : ShowsPrincipal p' j) : p = p' := by
  have hmsp := Option.some.inj (h.mspId.symm.trans h'.mspId)
  have hrole := Option.some.inj (h.role.symm.trans h'.role)
  rw [Policy.Principal.mk.injEq]
  exact ⟨Json.text.inj hmsp, policyName_toUpper_inj (Json.text.inj hrole)⟩

theorem showsPrincipal_principal {p : Policy.Principal}
    (h : decode? MspRole p.toMsp.principal = some { mspId := p.mspId, role := p.role.code }) :
    ShowsPrincipal p (principal p.toMsp) := by
  have hclass : p.toMsp.classification = 0 := rfl
  simp only [principal, hclass, if_pos, h, Option.map_some, Option.getD_some, roleName_code]
  exact ⟨rfl, rfl, rfl⟩

/-! ## Policies -/

/-- The document shows an expression: the rule of its policy, and its principals in order. -/
structure ShowsExpr (e : Policy.Expr) (j : Json) : Prop where
  rule : (j.member? "rule").bind readRule? = e.toPolicy.rule
  identities : ∃ js, j.member? "identities" = some (.list js) ∧ List.Forall₂ ShowsPrincipal e.principals js

theorem forall₂_showsPrincipal_unique {ps ps' : List Policy.Principal} {js : List Json}
    (h : List.Forall₂ ShowsPrincipal ps js) (h' : List.Forall₂ ShowsPrincipal ps' js) : ps = ps' := by
  induction h generalizing ps' with
  | nil => cases h' with | nil => rfl
  | cons hp _ ih => cases h' with | cons hp' hps' => rw [hp.unique hp', ih hps']

/-- A document shows one policy at most. -/
theorem ShowsExpr.unique {e e' : Policy.Expr} {j : Json} (h : ShowsExpr e j) (h' : ShowsExpr e' j) :
    e.toPolicy = e'.toPolicy ∧ e.principals = e'.principals := by
  obtain ⟨js, hjs, hps⟩ := h.identities
  obtain ⟨js', hjs', hps'⟩ := h'.identities
  obtain rfl : js = js' := Json.list.inj (Option.some.inj (hjs.symm.trans hjs'))
  have hprincipals := forall₂_showsPrincipal_unique hps hps'
  have hrule := h.rule.symm.trans h'.rule
  refine ⟨?_, hprincipals⟩
  rw [SignaturePolicyEnvelope.mk.injEq]
  exact ⟨rfl, hrule, by rw [Policy.Expr.toPolicy, Policy.Expr.toPolicy, hprincipals]⟩

/-- A role is read from inside a policy that has a length. -/
theorem decode?_principal {e : Policy.Expr} (hs : size e.toPolicy < 2 ^ 64) {p : Policy.Principal}
    (hp : p ∈ e.principals) : decode? MspRole p.toMsp.principal = some { mspId := p.mspId, role := p.role.code } := by
  let r : MspRole := { mspId := p.mspId, role := p.role.code }
  have hmem : Field.message 3 (Typed.toMessage p.toMsp) ∈ Typed.toMessage e.toPolicy := by
    refine List.mem_append_right _ ?_
    simp only [Message.ofAllTyped, Message.ofChildren, List.map_map]
    exact List.mem_map.2 ⟨p.toMsp, List.mem_map_of_mem hp, rfl⟩
  exact (r.faithful.decode?_inside (by decide) p.toMsp 2 (by simp [Typed.toMessage, Policy.Principal.toMsp, r])
    (Nat.lt_of_le_of_lt (size_le_of_mem 3 hmem) hs)).1

theorem showsExpr_signaturePolicy {e : Policy.Expr} (hs : size e.toPolicy < 2 ^ 64) :
    ShowsExpr e (signaturePolicy e.toPolicy) where
  rule := readRule?_rule (e.rule 0)
  identities := by
    refine ⟨_, rfl, ?_⟩
    rw [Policy.Expr.toPolicy, List.map_map, List.forall₂_map_right_iff, List.forall₂_same]
    exact fun p hp => showsPrincipal_principal (decode?_principal hs hp)

/-! ## Places -/

/-- The configuration has an encoded policy of the kind by signatures, kind 1, under a name in the group to which a path
leads. -/
def Stores (c : Config) (path : List String) (name : String) (bytes : Bytes) : Prop :=
  ∃ g group stored, c.channelGroup = some g ∧ g.at? path = some group ∧ group.policies.lookup name = some stored ∧
    stored.policy = some { type := 1, value := bytes }

/-- The members that lead to the content of a policy. -/
def policyPlace (path : List String) (name : String) : List String :=
  "channel_group" :: place path ++ ["policies", name, "policy", "value"]

theorem lookup_map {α : Type} (render : String → α → Json) (name : String) : ∀ xs : Named α,
    (xs.map fun (k, x) => (k, render k x)).lookup name = (xs.lookup name).map (render name)
  | [] => rfl
  | (k, x) :: xs => by
    rw [List.map_cons, List.lookup_cons, List.lookup_cons, lookup_map render name xs]
    cases h : name == k with
    | true => rw [eq_of_beq h]; rfl
    | false => rfl

theorem at?_policies (g : ConfigGroup) (name : String) :
    (group g).at? ["policies", name] = (g.policies.lookup name).map policy := by
  obtain ⟨members, hmember, hlookup⟩ : ∃ members, (group g).member? "policies" = some (.object members) ∧
      members.lookup name = (g.policies.lookup name).map policy := by
    cases g
    rw [group]
    exact ⟨_, rfl, lookup_map (fun _ => policy) name _⟩
  rw [Json.at?, hmember, Option.bind_some, Json.at?, Json.member?, hlookup]
  exact Option.bind_fun_some _

/-- A policy is read from where it is stored. -/
theorem at?_policyPlace {c : Config} {path : List String} {name : String} {bytes : Bytes}
    (h : Stores c path name bytes) : (toJson c).at? (policyPlace path name) =
      some ((policyContent? { type := 1, value := bytes }).getD (.hex bytes)) := by
  obtain ⟨g, found, stored, hg, hpath, hname, hstored⟩ := h
  have hgroup : (toJson c).member? "channel_group" = some (group g) := by
    rw [toJson, hg]
    rfl
  have hpolicy : (policy stored).at? ["policy", "value"] =
      some ((policyContent? { type := 1, value := bytes }).getD (.hex bytes)) := by
    rw [policy, hstored]
    rfl
  have hplace : ["policies", name, "policy", "value"] = ["policies", name] ++ ["policy", "value"] := rfl
  rw [policyPlace, List.cons_append, Json.at?, hgroup, Option.bind_some, Json.at?_append, at?_group, hpath,
    Option.map_some, Option.bind_some, hplace, Json.at?_append, at?_policies, hname, Option.map_some,
    Option.bind_some, hpolicy]

/-! ## Accepted expressions -/

/-- The text of an expression in which no principal stands inside more than forty-nine operators, and the encoding of whose
policy has a length. -/
structure Accepted (s : String) (e : Policy.Expr) : Prop where
  parsed : Policy.parseExpr s = .ok e
  shallow : ∀ k, e.Inside k → k ≤ 49
  size_lt : size e.toPolicy < 2 ^ 64

variable {s : String} {e : Policy.Expr}

theorem Accepted.decode?_encode (h : Accepted s e) :
    decode? SignaturePolicyEnvelope (encode e.toPolicy) = some e.toPolicy := by
  obtain ⟨ts, -, hspells⟩ := Policy.parseExpr_eq_ok_iff.1 h.parsed
  have hdepth := h.shallow _ hspells.sound.inside_depth
  obtain ⟨_, hfaithful⟩ := e.faithful_toPolicy
  refine hfaithful.decode?_encode_of_nesting ?_ h.size_lt
  rw [Policy.Expr.nesting_toPolicy hspells.sound, Message.nestingLimit]
  omega

/-- The document shows the expression wherever its policy is stored. -/
theorem Accepted.at?_policyPlace (h : Accepted s e) {c : Config} {path : List String} {name : String}
    (hstored : Stores c path name (encode e.toPolicy)) :
    (toJson c).at? (policyPlace path name) = some (signaturePolicy e.toPolicy) := by
  have hcontent : policyContent? { type := 1, value := encode e.toPolicy } = some (signaturePolicy e.toPolicy) := by
    rw [policyContent?, if_pos rfl, h.decode?_encode, Option.map_some]
  rw [ChannelConfig.at?_policyPlace hstored, hcontent, Option.getD_some]

/-- **Parsed policies are shown as they are.** The policy of an accepted expression that is stored anywhere in a
configuration is shown there: its rule can be read back from the document, and its identities are the principals of the
expression, one by one, as roles with their names in capitals. No other policy is shown like it. -/
theorem parsed_policy_shown (h : Accepted s e) {c : Config} {path : List String} {name : String}
    (hstored : Stores c path name (encode e.toPolicy)) :
    Policy.parse s = .ok e.toPolicy ∧
    ∃ j, (toJson c).at? (policyPlace path name) = some j ∧ ShowsExpr e j ∧
      ∀ s' e', Accepted s' e' → ∀ c' path' name', Stores c' path' name' (encode e'.toPolicy) →
        (toJson c').at? (policyPlace path' name') = some j →
        Policy.parse s' = Policy.parse s ∧ e'.principals = e.principals := by
  have hparse : ∀ {s e}, Accepted s e → Policy.parse s = .ok e.toPolicy := fun h => map_eq_ok_iff.2 ⟨_, h.parsed, rfl⟩
  refine ⟨hparse h, _, h.at?_policyPlace hstored, showsExpr_signaturePolicy h.size_lt,
    fun s' e' h' c' path' name' hstored' hshown => ?_⟩
  have hsame : ShowsExpr e' (signaturePolicy e.toPolicy) :=
    Option.some.inj ((h'.at?_policyPlace hstored').symm.trans hshown) ▸ showsExpr_signaturePolicy h'.size_lt
  obtain ⟨hpolicy, hprincipals⟩ := hsame.unique (showsExpr_signaturePolicy h.size_lt)
  exact ⟨by rw [hparse h', hparse h, hpolicy], hprincipals⟩

/-- A configuration with a policy in a group below, beside one without content. -/
def endorsedConfig : Config :=
  let stored : Policy := { type := 1, value := encode Policy.repeatedExpr.toPolicy }
  { channelGroup := some { groups := [("Application", { policies := [("Admins", {}),
      ("Endorsement", { policy := some stored })] })] } }

theorem parsed_policy_shown_repeated : ∃ j,
    (toJson endorsedConfig).at?
      ["channel_group", "groups", "Application", "policies", "Endorsement", "policy", "value"] = some j ∧
    ShowsExpr Policy.repeatedExpr j := by
  have haccepted : Accepted Policy.repeatedText Policy.repeatedExpr :=
    ⟨Policy.parseExpr_repeatedText, fun k hk => Nat.le_trans hk.le_depth (by decide), by decide +kernel⟩
  have hstored : Stores endorsedConfig ["Application"] "Endorsement" (encode Policy.repeatedExpr.toPolicy) :=
    ⟨_, _, _, rfl, rfl, rfl, rfl⟩
  obtain ⟨-, j, hj, hshows, -⟩ := parsed_policy_shown haccepted hstored
  exact ⟨j, hj, hshows⟩

end LedgerClient.ChannelConfig
