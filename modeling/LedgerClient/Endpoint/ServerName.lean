/-
The names that a server can prove to have: domain names and network addresses.
-/
import LedgerClient.Bytes

namespace LedgerClient.ServerName

/-- Parts of a text between separators. -/
def splitOn (separator : Char) : List Char → List (List Char)
  | [] => [[]]
  | c :: cs =>
    if c = separator then [] :: splitOn separator cs
    else
      match splitOn separator cs with
      | [] => [[c]]
      | part :: parts => (c :: part) :: parts

/-! ## Domain names -/

/-- A label: letters, digits, underscores, and hyphens inside. -/
def isLabel (cs : List Char) : Bool :=
  !cs.isEmpty && cs.length ≤ 63 && cs.all (fun c => c.isAlphanum || c = '_' || c = '-') &&
    cs.head? ≠ some '-' && cs.getLast? ≠ some '-'

/-- A domain name: labels between dots, the last of which is no number. A final dot may follow. -/
def isDomainName (cs : List Char) : Bool :=
  let labels := splitOn '.' cs
  let labels := if labels.length ≠ 1 ∧ labels.getLast? = some [] then labels.dropLast else labels
  cs.length ≤ 253 && labels.all isLabel &&
    match labels.getLast? with
    | some label => !label.all Char.isDigit
    | none => false

/-! ## Network addresses -/

/-- A byte in decimal, without leading zeros. -/
def isByte (cs : List Char) : Bool :=
  !cs.isEmpty && cs.length ≤ 3 && cs.all Char.isDigit && (cs.length = 1 || cs.head? ≠ some '0') &&
    cs.foldl (fun n d => 10 * n + (d.toNat - 48)) 0 < 256

/-- Four bytes between dots. -/
def isAddress4 (cs : List Char) : Bool :=
  let parts := splitOn '.' cs
  parts.length = 4 && parts.all isByte

/-- A group of up to four hexadecimal digits. -/
def isGroup (cs : List Char) : Bool :=
  !cs.isEmpty && cs.length ≤ 4 && cs.all fun c => (Bytes.hexValue? c).isSome

/-- How many groups a text between colons has; the last part may be four bytes, which count as two
groups. -/
def groups? (lastMayBeBytes : Bool) (cs : List Char) : Option Nat :=
  if cs.isEmpty then some 0
  else
    let parts := splitOn ':' cs
    if parts.all isGroup then some parts.length
    else if lastMayBeBytes && parts.dropLast.all isGroup && (parts.getLast?.any isAddress4) then
      some (parts.length + 1)
    else none

/-- What precedes and what follows the first double colon. -/
def splitDoubleColon? : List Char → Option (List Char × List Char)
  | [] => none
  | ':' :: ':' :: cs => some ([], cs)
  | c :: cs => (splitDoubleColon? cs).map fun (before, after) => (c :: before, after)

/-- Eight groups, of which a double colon may stand for one or more. -/
def isAddress6 (cs : List Char) : Bool :=
  match splitDoubleColon? cs with
  | none => groups? true cs = some 8
  | some (before, after) =>
    match groups? false before, groups? true after with
    | some m, some n => m + n ≤ 7
    | _, _ => false

def isValid (name : String) : Bool :=
  isDomainName name.toList || isAddress4 name.toList || isAddress6 name.toList

end LedgerClient.ServerName
