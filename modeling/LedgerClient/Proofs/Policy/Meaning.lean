/-
What a policy asks for.

A rule is evaluated as a tree of thresholds, of which a leaf is true when the
principal at its place in the list of identities is (`SignaturePolicyEnvelope.satisfied`).
An expression has a truth value of its own, apart from any such list
(`Expr.holds`). The two agree (`Expr.satisfied_toPolicy`): each expression inside
a policy finds its principals from its own start on (`Agrees`), and every
threshold and every place fits a 31-bit number.
-/
import Mathlib.Data.List.Basic
import LedgerClient.Policy.Expr
import LedgerClient.Proofs.Protocol
import LedgerClient.Proofs.Protocol.Codes

namespace LedgerClient

open Protocol Policy

/-! ## Rules as thresholds -/

namespace Protocol.SignaturePolicy

variable (truth : Int32 → Bool)

mutual
/-- Whether a rule is satisfied, from the truth of each place in the list of identities. -/
def satisfied : SignaturePolicy → Bool
  | unset => false
  | signedBy index => truth index
  | nOutOf n rules => n.toInt ≤ (satisfiedOf rules).count true

def satisfiedOf : List SignaturePolicy → List Bool
  | [] => []
  | r :: rs => r.satisfied :: satisfiedOf rs
end

end Protocol.SignaturePolicy

/-- The principal that an identity stands for: a role in an organization. -/
def Protocol.MspPrincipal.principal? (m : MspPrincipal) : Option Principal :=
  if m.classification = 0 then
    (Wire.decode? MspRole m.principal).bind fun r => (Role.ofCode? r.role).map fun role => ⟨r.mspId, role⟩
  else none

namespace Protocol.SignaturePolicyEnvelope

variable (e : SignaturePolicyEnvelope)

/-- The principal at a place in the list of identities. -/
def principalAt? (index : Int32) : Option Principal :=
  if index.toInt < 0 then none else e.identities[index.toInt.toNat]?.bind (·.principal?)

/-- Whether a policy is satisfied when the principals of which `v` is true have signed. -/
def satisfied (v : Principal → Bool) : Bool :=
  e.rule.any (·.satisfied fun index => (e.principalAt? index).any v)

end Protocol.SignaturePolicyEnvelope

namespace Policy

/-- A principal whose organization's name has a length that an encoding can say. -/
def Principal.IsStorable (p : Principal) : Prop := (Utf8.encode p.mspId).length < 2 ^ 63

instance (p : Principal) : Decidable p.IsStorable := inferInstanceAs (Decidable (_ < _))

theorem Principal.decode_toMsp {p : Principal} (h : p.IsStorable) :
    Wire.decode? MspRole p.toMsp.principal = some { mspId := p.mspId, role := p.role.code } := by
  let r : MspRole := { mspId := p.mspId, role := p.role.code }
  have hsize : Wire.size r < 2 ^ 64 := by
    have hle := r.size_le
    simp only [Principal.IsStorable, r] at h hle ⊢
    omega
  exact r.faithful.decode?_encode (by decide) hsize

theorem Principal.principal?_toMsp {p : Principal} (h : p.IsStorable) : p.toMsp.principal? = some p := by
  have hcode : Role.ofCode? p.role.code = some p.role := Role.ofCode?_eq_some_iff.2 rfl
  have hclass : p.toMsp.classification = 0 := rfl
  rw [MspPrincipal.principal?, if_pos hclass, decode_toMsp h, Option.bind_some, hcode]
  rfl

/-! ## Expressions -/

namespace Expr

mutual
/-- The truth of an expression, from that of the principals. -/
def holds (v : Principal → Bool) : Expr → Bool
  | principal p => v p
  | outOf n rules => n ≤ (holdsOf v rules).count true

def holdsOf (v : Principal → Bool) : List Expr → List Bool
  | [] => []
  | e :: es => e.holds v :: holdsOf v es
end

/-- Every threshold in the expression asks for one operand at least, and for no more than it has. -/
inductive Sound : Expr → Prop
  | principal {p : Principal} : Sound (principal p)
  | outOf {n : Nat} {es : List Expr} (hpos : 1 ≤ n) (hle : n ≤ es.length) (h : ∀ e ∈ es, Sound e) :
      Sound (outOf n es)

mutual
/-- In an expression whose thresholds can be met there is a principal. -/
theorem Sound.principals_pos : ∀ {e : Expr}, e.Sound → 1 ≤ e.principals.length
  | .principal p, _ => Nat.le_refl 1
  | .outOf n es, h => by
    cases h with
    | outOf hpos hle h =>
      rw [principals]
      exact Nat.le_trans hpos (Nat.le_trans hle (length_le_principals h))

theorem length_le_principals : ∀ {es : List Expr}, (∀ e ∈ es, e.Sound) → es.length ≤ (principalsOfAll es).length
  | [], _ => Nat.le_refl 0
  | e :: es, h => by
    have he := (h e List.mem_cons_self).principals_pos
    have hes := length_le_principals fun x hx => h x (List.mem_cons_of_mem e hx)
    simp only [principalsOfAll, List.length_append, List.length_cons]
    omega
end

end Expr

/-! ## The rule of an expression -/

/-- The places from `start` on have the truth of these principals, one by one. -/
def Agrees (truth : Int32 → Bool) (v : Principal → Bool) (start : Nat) (ps : List Principal) : Prop :=
  ∀ i p, ps[i]? = some p → truth (Int32.ofNat (start + i)) = v p

section Rule

variable {truth : Int32 → Bool} {v : Principal → Bool} {start : Nat}

theorem agrees_append {ps qs : List Principal} (h : Agrees truth v start (ps ++ qs)) :
    Agrees truth v start ps ∧ Agrees truth v (start + ps.length) qs := by
  constructor
  · intro i p hp
    refine h i p ?_
    rw [List.getElem?_append_left (List.getElem?_eq_some_iff.1 hp).1, hp]
  · intro i p hp
    rw [Nat.add_assoc]
    refine h (ps.length + i) p ?_
    rw [List.getElem?_append_right (Nat.le_add_right _ _), Nat.add_sub_cancel_left, hp]

mutual
/-- The rule is satisfied exactly if the expression holds: where it starts, its own principals stand. -/
theorem satisfied_rule : ∀ {e : Expr} {start : Nat}, e.Sound → e.principals.length < 2 ^ 31 →
    Agrees truth v start e.principals → (e.rule start).satisfied truth = e.holds v
  | .principal p, start, _, _, h => h 0 p rfl
  | .outOf n es, start, hsound, hlength, h => by
    cases hsound with
    | outOf hpos hle hes =>
      rw [Expr.principals] at hlength h
      -- a threshold that can be met is no larger than the number of principals
      have hn : n < 2 ^ 31 := by
        have := Expr.length_le_principals hes
        omega
      simp only [Expr.rule, SignaturePolicy.satisfied, Expr.holds, satisfiedOf_rulesFrom hes hlength h,
        Int32.toInt_ofNat_of_lt hn, Int.ofNat_le]

theorem satisfiedOf_rulesFrom : ∀ {es : List Expr} {start : Nat}, (∀ e ∈ es, e.Sound) →
    (Expr.principalsOfAll es).length < 2 ^ 31 → Agrees truth v start (Expr.principalsOfAll es) →
      SignaturePolicy.satisfiedOf truth (Expr.rulesFrom start es) = Expr.holdsOf v es
  | [], _, _, _, _ => rfl
  | e :: es, start, hsound, hlength, h => by
    rw [Expr.principalsOfAll] at hlength h
    rw [List.length_append] at hlength
    obtain ⟨he, hes⟩ := agrees_append h
    have hhead := satisfied_rule (hsound e List.mem_cons_self) (by omega) he
    have htail := satisfiedOf_rulesFrom (fun x hx => hsound x (List.mem_cons_of_mem e hx)) (by omega) hes
    simp only [Expr.rulesFrom, SignaturePolicy.satisfiedOf, Expr.holdsOf, hhead, htail]
end

end Rule

/-- A policy is satisfied by exactly those who make its expression true. -/
theorem Expr.satisfied_toPolicy {e : Expr} (hsound : e.Sound) (hlength : e.principals.length < 2 ^ 31)
    (hstorable : ∀ p ∈ e.principals, p.IsStorable) (v : Principal → Bool) :
    e.toPolicy.satisfied v = e.holds v := by
  have hagrees : Agrees (fun index => (e.toPolicy.principalAt? index).any v) v 0 e.principals := by
    intro i p hp
    have hi : i < e.principals.length := (List.getElem?_eq_some_iff.1 hp).1
    have hindex : (Int32.ofNat (0 + i)).toInt = i := by
      rw [Nat.zero_add, Int32.toInt_ofNat_of_lt (Nat.lt_trans hi hlength)]
    have hat : e.toPolicy.principalAt? (Int32.ofNat (0 + i)) = some p := by
      rw [SignaturePolicyEnvelope.principalAt?, hindex, if_neg (by omega), Int.toNat_natCast]
      simp only [Expr.toPolicy, List.getElem?_map, hp, Option.map_some, Option.bind_some]
      exact Principal.principal?_toMsp (hstorable p (List.mem_of_getElem? hp))
    simp only [hat, Option.any_some]
  exact satisfied_rule hsound hlength hagrees

end Policy

end LedgerClient
