/-
The tokens of a policy expression.

A token is a parenthesis, a comma, a quoted text closed by the quote that
opened it, a run of digits, or a letter followed by letters and digits. White
space separates tokens and is dropped; anything else is no token.
-/
import LedgerClient.Text.Blank
import LedgerClient.Text.Quoted

namespace LedgerClient.Policy

inductive Token where
  | openParen
  | closeParen
  | comma
  | number (n : Nat)
  | ident (name : String)
  | quoted (text : String)
  deriving DecidableEq, Repr

/-- A token as messages show it. -/
def Token.describe : Token → String
  | openParen => "Open"
  | closeParen => "Close"
  | comma => "Comma"
  | number n => s!"Number({n})"
  | ident name => s!"Ident({Text.quoted name})"
  | quoted text => s!"Quoted({Text.quoted text})"

/-- Why a text is no policy. Positions count bytes from the start of the text. -/
inductive Fault where
  | unterminatedQuote (position : Nat)
  | numberOutOfRange (digits : String)
  | unexpectedCharacter (c : Char) (position : Nat)
  | unexpectedEnd
  | unexpectedToken (found : Token)
  | trailingToken (found : Token)
  | expectedToken (expected found : Token)
  | expectedCount (found : Token)
  | expectedSeparator (found : Token)
  | unknownOperator (name : String)
  | thresholdTooLarge (n count : Nat)
  | noRole (principal : String)
  | noOrganization (principal : String)
  | unknownRole (role principal : String)
  deriving DecidableEq, Repr

def Fault.message : Fault → String
  | unterminatedQuote position => s!"unterminated quote at {position}"
  | numberOutOfRange digits => s!"number out of range: {digits}"
  | unexpectedCharacter c position => s!"unexpected character {Text.quotedChar c} at {position}"
  | unexpectedEnd => "unexpected end of expression"
  | unexpectedToken found => s!"unexpected {found.describe}"
  | trailingToken found => s!"unexpected {found.describe} after expression"
  | expectedToken expected found => s!"expected {expected.describe}, found {found.describe}"
  | expectedCount found => s!"OutOf needs a positive count, found {found.describe}"
  | expectedSeparator found => s!"expected ',' or ')', found {found.describe}"
  | unknownOperator name => s!"unknown function {name}"
  | thresholdTooLarge n count => s!"threshold {n} exceeds {count} rules"
  | noRole principal => s!"principal {Text.quoted principal} is not MSP.role"
  | noOrganization principal => s!"principal {Text.quoted principal} has no MSP"
  | unknownRole role principal => s!"unknown role {Text.quoted role} in {Text.quoted principal}"

/-- The largest count. -/
def maxNumber : Nat := 0x7FFFFFFF

/-- The number that decimal digits spell. -/
def numberOf (digits : List Char) : Nat :=
  digits.foldl (fun n c => 10 * n + (c.toNat - '0'.toNat)) 0

/-- The bytes that characters take. -/
def byteLength (cs : List Char) : Nat := cs.foldl (fun n c => n + c.utf8Size) 0

/-- The tokens of a text whose first character stands at `position`; `fuel` bounds their number. -/
def scan : (fuel : Nat) → (position : Nat) → List Char → Except Fault (List Token)
  | 0, _, _ => .ok []
  | _ + 1, _, [] => .ok []
  | fuel + 1, position, c :: cs =>
    if Text.isBlank c then scan fuel (position + c.utf8Size) cs
    else if c = '(' then (.openParen :: ·) <$> scan fuel (position + 1) cs
    else if c = ')' then (.closeParen :: ·) <$> scan fuel (position + 1) cs
    else if c = ',' then (.comma :: ·) <$> scan fuel (position + 1) cs
    else if c = '\'' ∨ c = '"' then
      let text := cs.takeWhile (· != c)
      match cs.dropWhile (· != c) with
      | [] => .error (.unterminatedQuote position)
      | _ :: rest =>
        (.quoted (String.ofList text) :: ·) <$> scan fuel (position + byteLength text + 2) rest
    else if c.isDigit then
      let digits := c :: cs.takeWhile Char.isDigit
      if numberOf digits ≤ maxNumber then
        (.number (numberOf digits) :: ·) <$>
          scan fuel (position + digits.length) (cs.dropWhile Char.isDigit)
      else .error (.numberOutOfRange (String.ofList digits))
    else if c.isAlpha then
      let name := c :: cs.takeWhile Char.isAlphanum
      (.ident (String.ofList name) :: ·) <$>
        scan fuel (position + name.length) (cs.dropWhile Char.isAlphanum)
    else .error (.unexpectedCharacter c position)

/-- The tokens of a text. Each takes a character at least. -/
def tokens (s : String) : Except Fault (List Token) := scan (s.toList.length + 1) 0 s.toList

end LedgerClient.Policy
