/-
Addresses: a scheme, an authority, and a path that no one looks at.

Only what is taken apart here is kept: the scheme, the host and the port.
-/

namespace LedgerClient

structure Uri where
  /-- Absent in an address that is a path alone, as is the host. -/
  scheme : Option String
  host : Option String
  port : Option UInt16
  deriving DecidableEq, Repr

namespace Uri

/-! ## Authorities -/

/-- The characters of a host, a port and what precedes them. -/
def isAuthorityChar (c : Char) : Bool :=
  c.isAlphanum || c ∈ ['!', '$', '&', '\'', '(', ')', '*', '+', ',', '-', '.', ';', '=', '_', '~']

/-- What has been seen of an authority: colons, brackets and percent signs. An at sign ends the
user's name, in which the first and the last may stand freely. -/
structure Seen where
  colons : Nat := 0
  opened : Bool := false
  closed : Bool := false
  percent : Bool := false
  endsInAt : Bool := false
  deriving DecidableEq, Repr

/-- The most colons before a bracket or an at sign. -/
def maxColons : Nat := 8

def Seen.next (s : Seen) (c : Char) : Option Seen :=
  let s := { s with endsInAt := false }
  match c with
  | ':' => if s.colons < maxColons then some { s with colons := s.colons + 1 } else none
  | '[' => if s.percent ∨ s.opened then none else some { s with opened := true }
  | ']' =>
    if !s.opened ∨ s.closed then none
    else some { s with closed := true, colons := 0, percent := false }
  | '@' => some { s with colons := 0, percent := false, endsInAt := true }
  | '%' => some { s with percent := true }
  | c => if isAuthorityChar c then some s else none

/-- An authority is well formed: nothing but a port follows its host. -/
def isAuthority (cs : List Char) : Bool :=
  match cs.foldlM Seen.next {} with
  | none => false
  | some s => s.opened = s.closed && s.colons ≤ 1 && !s.endsInAt && !s.percent

/-- The host of an authority: what follows the user's name, up to the port. The brackets around a
host belong to it. -/
def hostOf (authority : List Char) : List Char :=
  let host := (authority.reverse.takeWhile (· ≠ '@')).reverse
  match host with
  | '[' :: _ => host.takeWhile (· ≠ ']') ++ [']']
  | _ => host.takeWhile (· ≠ ':')

/-- A port as it is written: a number, which may have a plus sign. -/
def portOfDigits? (cs : List Char) : Option UInt16 :=
  let digits := match cs with
    | '+' :: cs => cs
    | cs => cs
  if digits.isEmpty ∨ !digits.all Char.isDigit then none
  else
    let n : Nat := digits.foldl (fun n d => 10 * n + (d.toNat - 48)) 0
    if n < UInt16.size then some n.toUInt16 else none

/-- The port, which follows the last colon. -/
def portOf? (authority : List Char) : Option UInt16 :=
  if ':' ∈ authority then portOfDigits? (authority.reverse.takeWhile (· ≠ ':')).reverse else none

/-! ## Paths -/

def isPathChar (c : Char) : Bool :=
  let n := c.toNat
  n = 0x21 || n = 0x22 || (0x24 ≤ n && n ≤ 0x3B) || n = 0x3D || (0x40 ≤ n && n ≤ 0x5F) ||
    (0x61 ≤ n && n ≤ 0x7E) || 0x7F ≤ n

def isQueryChar (c : Char) : Bool :=
  let n := c.toNat
  n = 0x21 || (0x24 ≤ n && n ≤ 0x3B) || n = 0x3D || 0x3F ≤ n

/-- The part after the authority is well formed: a path and a query, whatever fragment follows. -/
def isPath (cs : List Char) : Bool :=
  let path := cs.takeWhile fun c => c ≠ '?' ∧ c ≠ '#'
  let query := ((cs.dropWhile fun c => c ≠ '?' ∧ c ≠ '#').takeWhile (· ≠ '#')).drop 1
  path.all isPathChar && query.all isQueryChar

/-! ## Whole addresses -/

def isSchemeChar (c : Char) : Bool := c.isAlphanum || c ∈ ['+', '-', '.', '~']

/-- The scheme and what follows the slashes after it. The two common schemes are known in any case
and written in lower case. -/
def splitScheme? (cs : List Char) : Option (List Char × List Char) :=
  let scheme := cs.takeWhile isSchemeChar
  match cs.dropWhile isSchemeChar with
  | ':' :: '/' :: '/' :: rest =>
    let lower := scheme.map Char.toLower
    if lower = ['h', 't', 't', 'p'] ∨ lower = ['h', 't', 't', 'p', 's'] then some (lower, rest)
    else if scheme.length ≤ 64 then some (scheme, rest)
    else none
  | _ => none

/-- The most bytes in an address. -/
def maxSize : Nat := 65534

/-- Reads an address with a scheme, or a path. -/
def parse? (s : String) : Option Uri :=
  if maxSize < s.utf8ByteSize then none
  else
    match s.toList with
    | '/' :: cs => if isPath ('/' :: cs) then some ⟨none, none, none⟩ else none
    | cs =>
      match splitScheme? cs with
      | none => none
      | some (scheme, rest) =>
        let endsAuthority := fun c => c ≠ '/' ∧ c ≠ '?' ∧ c ≠ '#'
        let authority := rest.takeWhile endsAuthority
        if authority.isEmpty ∨ !isAuthority authority ∨ !isPath (rest.dropWhile endsAuthority) then
          none
        else
          some {
            scheme := some (String.ofList scheme)
            host := some (String.ofList (hostOf authority))
            port := portOf? authority }

end Uri

end LedgerClient
