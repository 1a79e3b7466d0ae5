/-
Reading policy expressions.

An expression is a quoted principal or an operator with its operands in
parentheses: `AND` of all, `OR` of one, `OutOf` of as many as its first operand
says. A principal is an organization and a role with a dot between them, the
last dot in it.
-/
import LedgerClient.Policy.Expr
import LedgerClient.Policy.Token

namespace LedgerClient.Policy

open Protocol

/-- What precedes and what follows the last dot. -/
def splitAtLastDot? (cs : List Char) : Option (List Char × List Char) :=
  match cs.reverse.dropWhile (· != '.') with
  | [] => none
  | _ :: before => some (before.reverse, (cs.reverse.takeWhile (· != '.')).reverse)

def principalOf (text : String) : Except Fault Principal :=
  match splitAtLastDot? text.toList with
  | none => .error (.noRole text)
  | some (msp, role) =>
    if msp.isEmpty then .error (.noOrganization text)
    else
      match Role.ofPolicyName? (String.ofList role) with
      | none => .error (.unknownRole (String.ofList role) text)
      | some r => .ok ⟨String.ofList msp, r⟩

inductive Operator where
  | and | or | outOf
  deriving DecidableEq, Repr

/-- The operator of a name, in any case. -/
def Operator.ofName? (name : String) : Option Operator :=
  match name.map Char.toLower with
  | "and" => some .and
  | "or" => some .or
  | "outof" => some .outOf
  | _ => none

def next : List Token → Except Fault (Token × List Token)
  | [] => .error .unexpectedEnd
  | t :: ts => .ok (t, ts)

def expect (expected : Token) (ts : List Token) : Except Fault (List Token) := do
  let (t, ts) ← next ts
  if t = expected then .ok ts else .error (.expectedToken expected t)

/-- What precedes an operator's first operand: its count, if it has one of its own. -/
def readCount (op : Operator) (ts : List Token) : Except Fault (Option Nat × List Token) :=
  match op with
  | .and => .ok (none, ts)
  | .or => .ok (some 1, ts)
  | .outOf => do
    let (t, ts) ← next ts
    match t with
    | .number n =>
      if n = 0 then .error (.expectedCount t)
      else
        let ts ← expect .comma ts
        .ok (some n, ts)
    | t => .error (.expectedCount t)

/-- A threshold over operands; without a count it takes all of them. -/
def threshold (count : Option Nat) (rules : List Expr) : Except Fault Expr :=
  let n := count.getD rules.length
  if n ≤ rules.length then .ok (.outOf n rules) else .error (.thresholdTooLarge n rules.length)

mutual
/-- An expression at the front; `fuel` bounds the tokens it takes. -/
def readExpr : (fuel : Nat) → List Token → Except Fault (Expr × List Token)
  | 0, _ => .error .unexpectedEnd
  | fuel + 1, ts => do
    let (t, ts) ← next ts
    match t with
    | .quoted text =>
      let p ← principalOf text
      .ok (.principal p, ts)
    | .ident name => do
      let ts ← expect .openParen ts
      match Operator.ofName? name with
      | none => .error (.unknownOperator name)
      | some op =>
        let (count, ts) ← readCount op ts
        let (first, ts) ← readExpr fuel ts
        let (others, ts) ← readOthers fuel ts
        let e ← threshold count (first :: others)
        .ok (e, ts)
    | t => .error (.unexpectedToken t)

/-- The operands after the first, up to the closing parenthesis. -/
def readOthers : (fuel : Nat) → List Token → Except Fault (List Expr × List Token)
  | 0, _ => .error .unexpectedEnd
  | fuel + 1, ts => do
    let (t, ts) ← next ts
    match t with
    | .comma =>
      let (e, ts) ← readExpr fuel ts
      let (es, ts) ← readOthers fuel ts
      .ok (e :: es, ts)
    | .closeParen => .ok ([], ts)
    | t => .error (.expectedSeparator t)
end

/-- The expression that a text spells. -/
def parseExpr (s : String) : Except Fault Expr := do
  let ts ← tokens s
  let (e, rest) ← readExpr (ts.length + 1) ts
  match rest with
  | [] => .ok e
  | t :: _ => .error (.trailingToken t)

/-- The policy that a text spells. -/
def parse (s : String) : Except Fault SignaturePolicyEnvelope := (·.toPolicy) <$> parseExpr s

/-- The policy that any member of an organization satisfies. -/
def signedByMember (mspId : String) : SignaturePolicyEnvelope := (Expr.anyMember mspId).toPolicy

end LedgerClient.Policy
