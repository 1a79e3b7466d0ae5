/-
How deep a policy may nest and still be read back.

The parser takes operators nested as deep as a text allows, and a reader of the
encoded policy goes no deeper than a hundred levels. An operator takes two of
them, the threshold and a rule in it (`Expr.nesting_rule`), the rule of a policy
takes one more, and a policy inside another message a further one. So the odd
level is not missed: alone or wrapped up, a policy is read back if no principal
stands inside more than forty-nine operators.
-/
import Mathlib.Order.Bounds.Basic
import LedgerClient.Proofs.Policy.Shape
import LedgerClient.Proofs.Wire.Nesting
import LedgerClient.Proposal.Request

namespace LedgerClient

open Protocol Wire

namespace Policy

namespace Expr

/-- Some principal of the expression stands inside so many operators. -/
inductive Inside : Nat → Expr → Prop
  | principal {p : Principal} : Inside 0 (principal p)
  | outOf {n k : Nat} {e : Expr} {es : List Expr} (he : e ∈ es) (h : Inside k e) : Inside (k + 1) (outOf n es)

mutual
/-- How many operators are nested around a principal at most. -/
def depth : Expr → Nat
  | principal _ => 0
  | outOf _ rules => depthOf rules + 1

def depthOf : List Expr → Nat
  | [] => 0
  | e :: es => max e.depth (depthOf es)
end

theorem depth_le_depthOf {e : Expr} : ∀ {es : List Expr}, e ∈ es → e.depth ≤ depthOf es
  | x :: es, h => by
    rw [depthOf]
    rcases List.mem_cons.1 h with rfl | h
    · exact Nat.le_max_left _ _
    · exact Nat.le_trans (depth_le_depthOf h) (Nat.le_max_right _ _)

theorem Inside.le_depth {k : Nat} {e : Expr} (h : Inside k e) : k ≤ e.depth := by
  induction h with
  | principal => exact Nat.zero_le _
  | outOf he _ ih =>
    rw [depth]
    exact Nat.succ_le_succ (Nat.le_trans ih (depth_le_depthOf he))

theorem exists_depth_eq_depthOf : ∀ {es : List Expr}, es ≠ [] → ∃ e ∈ es, e.depth = depthOf es
  | [e], _ => ⟨e, List.mem_singleton_self e, (Nat.max_zero _).symm⟩
  | e :: x :: es, _ => by
    obtain ⟨y, hy, hdepth⟩ := exists_depth_eq_depthOf (List.cons_ne_nil x es)
    rw [depthOf, ← hdepth]
    rcases Nat.le_total e.depth y.depth with hle | hle
    · exact ⟨y, List.mem_cons_of_mem e hy, (Nat.max_eq_right hle).symm⟩
    · exact ⟨e, List.mem_cons_self, (Nat.max_eq_left hle).symm⟩

theorem Sound.inside_depth {e : Expr} (h : e.Sound) : Inside e.depth e := by
  induction h with
  | principal => exact .principal
  | @outOf n es hpos hle _ ih =>
    obtain ⟨e, he, hdepth⟩ := exists_depth_eq_depthOf (List.ne_nil_of_length_pos (Nat.le_trans hpos hle))
    rw [depth, ← hdepth]
    exact .outOf he (ih e he)

/-- The depth of an expression is the largest number of operators around a principal. -/
theorem Sound.isGreatest_depth {e : Expr} (h : e.Sound) : IsGreatest {k | Inside k e} e.depth :=
  ⟨h.inside_depth, fun _ hk => hk.le_depth⟩

/-! ## Levels of messages -/

mutual
/-- An operator takes two levels. -/
theorem nesting_rule : ∀ {e : Expr} (start : Nat), e.Sound →
    Field.nestingAll (e.rule start).toFields = 2 * e.depth
  | .principal _, _, _ => rfl
  | .outOf n es, start, h => by
    cases h with
    | outOf hpos hle hes =>
      have hrules := nesting_rulesFrom start hes
      have hone : 1 ≤ Field.nestingAll (SignaturePolicy.rulesToFields (rulesFrom start es)) := by
        cases es with
        | nil => exact absurd (Nat.le_trans hpos hle) (by decide)
        | cons e es =>
          rw [rulesFrom, SignaturePolicy.rulesToFields, Field.nestingAll, Field.nesting]
          omega
      rw [rule, SignaturePolicy.toFields, Field.nestingAll_singleton, Field.nesting, Field.nestingAll_append,
        Message.ofInt32, Field.nestingAll_ofScalar, depth]
      omega

/-- The rules of an operator take one level more than the deepest of them, if there are any. -/
theorem nesting_rulesFrom : ∀ {es : List Expr} (start : Nat), (∀ e ∈ es, e.Sound) →
    max 1 (Field.nestingAll (SignaturePolicy.rulesToFields (rulesFrom start es))) = 2 * depthOf es + 1
  | [], _, _ => rfl
  | e :: es, start, h => by
    have he := nesting_rule start (h e List.mem_cons_self)
    have hes := nesting_rulesFrom (start + e.principals.length) fun x hx => h x (List.mem_cons_of_mem e hx)
    rw [rulesFrom, SignaturePolicy.rulesToFields, Field.nestingAll, Field.nesting, he, depthOf]
    omega
end

theorem nesting_toPolicy {e : Expr} (h : e.Sound) : (Typed.toMessage e.toPolicy).nesting = 2 * e.depth + 1 := by
  have hrule : Field.nestingAll (Message.ofTyped? 2 e.toPolicy.rule) = 1 + 2 * e.depth :=
    (Field.nestingAll_singleton _).trans (congrArg (1 + ·) (nesting_rule 0 h))
  have hids : Field.nestingAll (Message.ofAllTyped 3 e.toPolicy.identities) ≤ 1 := by
    refine Field.nestingAll_le_iff.2 fun f hf => ?_
    simp only [Message.ofAllTyped, Message.ofChildren, List.map_map, List.mem_map, Function.comp_apply] at hf
    obtain ⟨m, -, rfl⟩ := hf
    have hm := m.faithful.nesting
    rw [Message.nesting] at hm
    rw [Field.nesting]
    omega
  simp only [Typed.toMessage, Message.nesting, Field.nestingAll_append, hrule, Message.ofInt32,
    Field.nestingAll_ofScalar] at *
  omega

theorem faithful_toPolicy (e : Expr) : ∃ depth, Faithful depth e.toPolicy :=
  ⟨_, SignaturePolicyEnvelope.faithful fun r hr => by
    cases hr
    exact (e.rule 0).faithful⟩

end Expr

/-- A policy as it is sent with the definition of a chaincode. -/
abbrev wrapped (policy : SignaturePolicyEnvelope) : ApplicationPolicy := .signaturePolicy policy

theorem nesting_wrapped (policy : SignaturePolicyEnvelope) :
    (Typed.toMessage (wrapped policy)).nesting = 1 + (Typed.toMessage policy).nesting :=
  Field.nestingAll_singleton _

/-- The definition of a chaincode carries its policy encoded like this. -/
theorem validationParameter_eq_ok {d : ChaincodeDefinition} {e : Expr} (h : parseExpr d.policy = .ok e) :
    d.validationParameter = .ok (encode (wrapped e.toPolicy)) := by
  have hne : ¬ d.policy.isEmpty = true := by
    rw [String.isEmpty_iff]
    intro hempty
    rw [hempty] at h
    cases h
  have hparse : ClientError.ofPolicy (parse d.policy) = .ok e.toPolicy :=
    ofPolicy_eq_ok_iff.2 (map_eq_ok_iff.2 ⟨e, h, rfl⟩)
  rw [ChaincodeDefinition.validationParameter, if_neg hne, hparse]
  rfl

/-- **The depth of policies.** With principals inside forty-nine operators at most a policy is read back, alone and as
the definition of a chaincode carries it; with one inside fifty or more neither is. -/
theorem policies_read_back_to_depth {s : String} {e : Expr} (h : parseExpr s = .ok e)
    (hsize : size (wrapped e.toPolicy) < 2 ^ 63) :
    parse s = .ok e.toPolicy ∧
    (∀ d : ChaincodeDefinition, d.policy = s → d.validationParameter = .ok (encode (wrapped e.toPolicy))) ∧
    ∃ depth, IsGreatest {k | e.Inside k} depth ∧
      (depth ≤ 49 → decode? SignaturePolicyEnvelope (encode e.toPolicy) = some e.toPolicy ∧
        decode? ApplicationPolicy (encode (wrapped e.toPolicy)) = some (wrapped e.toPolicy)) ∧
      (50 ≤ depth → decode? SignaturePolicyEnvelope (encode e.toPolicy) = none ∧
        decode? ApplicationPolicy (encode (wrapped e.toPolicy)) = none) := by
  obtain ⟨ts, -, hspells⟩ := parseExpr_eq_ok_iff.1 h
  obtain ⟨levels, hpolicy⟩ := e.faithful_toPolicy
  have hlimit : Message.nestingLimit = 100 := rfl
  have hn := Expr.nesting_toPolicy hspells.sound
  have hinner : size e.toPolicy < 2 ^ 63 := Nat.lt_of_le_of_lt (size_le_of_mem 1 List.mem_cons_self) hsize
  have halone := hpolicy.decode?_encode_eq hinner
  have hcarried := (ApplicationPolicy.faithful_signaturePolicy hpolicy).decode?_encode_eq hsize
  rw [nesting_wrapped, hn, hlimit] at hcarried
  rw [hn, hlimit] at halone
  refine ⟨map_eq_ok_iff.2 ⟨e, h, rfl⟩, fun d hd => validationParameter_eq_ok (hd ▸ h), e.depth,
    hspells.sound.isGreatest_depth, fun hd => ⟨?_, ?_⟩, fun hd => ⟨?_, ?_⟩⟩
  · rw [halone, if_pos (by omega)]
  · rw [hcarried, if_pos (by omega)]
  · rw [halone, if_neg (by omega)]
  · rw [hcarried, if_neg (by omega)]

/-- A principal inside `n` operators. -/
def nestedExpr : Nat → Expr
  | 0 => .principal ⟨"A", .member⟩
  | n + 1 => .outOf 1 [nestedExpr n]

def nestedTokens : Nat → List Token
  | 0 => [.quoted "A.member"]
  | n + 1 => [.ident "AND", .openParen] ++ nestedTokens n ++ [.closeParen]

def nestedText (n : Nat) : List Char :=
  (List.replicate n "AND(".toList).flatten ++ "'A.member'".toList ++ List.replicate n ')'

theorem spells_nestedExpr (n : Nat) : Spells (nestedExpr n) (nestedTokens n) := by
  induction n with
  | zero => exact .principal ⟨by decide, by decide⟩
  | succ n ih => exact .outOf (.and (by decide +kernel)) (.one ih)

theorem isGreatest_nestedExpr (n : Nat) : IsGreatest {k | (nestedExpr n).Inside k} n := by
  have hdepth : (nestedExpr n).depth = n := by
    induction n with
    | zero => rfl
    | succ n ih => rw [nestedExpr, Expr.depth, Expr.depthOf, Expr.depthOf, ih, Nat.max_zero]
  have hgreatest := (spells_nestedExpr n).sound.isGreatest_depth
  rwa [hdepth] at hgreatest

theorem parseExpr_nestedText {n : Nat} (h : tokens (String.ofList (nestedText n)) = .ok (nestedTokens n)) :
    parseExpr (String.ofList (nestedText n)) = .ok (nestedExpr n) :=
  parseExpr_eq_ok_iff.2 ⟨_, tokens_eq_ok_iff.1 h, spells_nestedExpr n⟩

/-- The deepest policy that is read back, and one with an operator more. -/
theorem policies_read_back_to_depth_nested :
    decode? ApplicationPolicy (encode (wrapped (nestedExpr 49).toPolicy)) = some (wrapped (nestedExpr 49).toPolicy) ∧
      decode? ApplicationPolicy (encode (wrapped (nestedExpr 50).toPolicy)) = none := by
  have htokens : tokens (String.ofList (nestedText 49)) = .ok (nestedTokens 49) := by
    rw [tokens, String.toList_ofList]
    decide +kernel
  have htokens' : tokens (String.ofList (nestedText 50)) = .ok (nestedTokens 50) := by
    rw [tokens, String.toList_ofList]
    decide +kernel
  obtain ⟨-, -, depth, hdepth, hread, -⟩ := policies_read_back_to_depth (parseExpr_nestedText htokens)
    (by decide +kernel)
  obtain ⟨-, -, depth', hdepth', -, hdeep⟩ := policies_read_back_to_depth (parseExpr_nestedText htokens')
    (by decide +kernel)
  obtain rfl := hdepth.unique (isGreatest_nestedExpr 49)
  obtain rfl := hdepth'.unique (isGreatest_nestedExpr 50)
  exact ⟨(hread (Nat.le_refl _)).2, (hdeep (Nat.le_refl _)).2⟩

end Policy

end LedgerClient
