/-
Policy expressions and the policies they stand for.

An expression is a principal or a threshold over expressions. In a policy each
occurrence of a principal has an entry of its own in the list of identities, in
reading order, and the rule names it by its place there.
-/
import LedgerClient.Protocol.Codes
import LedgerClient.Protocol.SignaturePolicy

namespace LedgerClient.Policy

open Protocol

/-- A role in an organization. -/
structure Principal where
  mspId : String
  role : Role
  deriving DecidableEq, Repr

/-- How a principal travels. -/
def Principal.toMsp (p : Principal) : MspPrincipal :=
  { classification := 0
    principal := Wire.encode ({ mspId := p.mspId, role := p.role.code } : MspRole) }

inductive Expr where
  | principal (p : Principal)
  /-- At least `n` of the rules. -/
  | outOf (n : Nat) (rules : List Expr)

namespace Expr

mutual
/-- The principals in reading order. -/
def principals : Expr → List Principal
  | principal p => [p]
  | outOf _ rules => principalsOfAll rules

def principalsOfAll : List Expr → List Principal
  | [] => []
  | e :: es => e.principals ++ principalsOfAll es
end

mutual
/-- The rule of an expression whose first principal has the place `start`. -/
def rule (start : Nat) : Expr → SignaturePolicy
  | principal _ => .signedBy (Int32.ofNat start)
  | outOf n rules => .nOutOf (Int32.ofNat n) (rulesFrom start rules)

def rulesFrom (start : Nat) : List Expr → List SignaturePolicy
  | [] => []
  | e :: es => e.rule start :: rulesFrom (start + e.principals.length) es
end

/-- The policy that an expression stands for. -/
def toPolicy (e : Expr) : SignaturePolicyEnvelope :=
  { version := 0, rule := some (e.rule 0), identities := e.principals.map (·.toMsp) }

/-- Any member of an organization. -/
def anyMember (mspId : String) : Expr := outOf 1 [principal ⟨mspId, .member⟩]

end Expr

end LedgerClient.Policy
