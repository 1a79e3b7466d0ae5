/-
Places in a YAML text, and what surrounds nodes there: white space, comments
and document markers.

Where a key or a block entry may begin, a tab is no white space: it would make
the indentation unclear.
-/
import LedgerClient.Yaml.Tree

namespace LedgerClient.Yaml

/-- A place in a text. -/
structure Cursor where
  rest : List Char
  line : Nat := 0
  column : Nat := 0
  /-- A key or an entry of a block may begin here. -/
  fresh : Bool := true
  /-- The nodes that have been given a name, the latest first. -/
  anchors : List (String × Tree) := []

/-- What reads a text from a place on. -/
abbrev Reader := StateT Cursor Option

namespace Cursor

/-- The place after one more character. -/
def next (c : Cursor) : Cursor :=
  match c.rest with
  | [] => c
  | '\n' :: cs => { c with rest := cs, line := c.line + 1, column := 0 }
  | _ :: cs => { c with rest := cs, column := c.column + 1 }

/-- The place after `taken`, which has no line break in it; what follows is `rest`. -/
def after (c : Cursor) (taken rest : List Char) : Cursor :=
  { c with rest, column := c.column + taken.length }

end Cursor

def isSpaceOrTab (c : Char) : Bool := c = ' ' || c = '\t'

/-- White space, a line break or the end of the text follows. -/
def atBlank : List Char → Bool
  | [] => true
  | c :: _ => isSpaceOrTab c || c = '\n'

/-- A line that separates documents begins here. -/
def atMarker (c : Cursor) : Bool :=
  c.column = 0 &&
    match c.rest with
    | '-' :: '-' :: '-' :: cs => atBlank cs
    | '.' :: '.' :: '.' :: cs => atBlank cs
    | _ => false

/-- Skips white space, comments and line breaks. -/
def skipFrom (flow : Bool) : List Char → Cursor → Cursor
  | [], c => { c with rest := [] }
  | '\n' :: cs, c =>
    skipFrom flow cs { c with line := c.line + 1, column := 0, fresh := c.fresh || !flow }
  | '#' :: cs, c => skipComment flow cs c
  | ' ' :: cs, c => skipFrom flow cs { c with column := c.column + 1 }
  | '\t' :: cs, c =>
    if flow || !c.fresh then skipFrom flow cs { c with column := c.column + 1 }
    else { c with rest := '\t' :: cs }
  | ch :: cs, c => { c with rest := ch :: cs }
where
  skipComment (flow : Bool) : List Char → Cursor → Cursor
    | [], c => { c with rest := [] }
    | '\n' :: cs, c =>
      skipFrom flow cs { c with line := c.line + 1, column := 0, fresh := c.fresh || !flow }
    | _ :: cs, c => skipComment flow cs { c with column := c.column + 1 }

/-- Goes on to the next node. Inside brackets, lines do not matter. -/
def skip (flow : Bool) : Reader Unit := modify fun c => skipFrom flow c.rest c

/-- Goes on to the next node or the end of the line. -/
def skipInLine : Reader Unit := modify fun c =>
  c.after (c.rest.takeWhile isSpaceOrTab) (c.rest.dropWhile isSpaceOrTab)

/-- Takes one character. -/
def advance : Reader Unit := modify Cursor.next

/-- No key may begin here. -/
def notFresh : Reader Unit := modify ({ · with fresh := false })

/-- Nothing of this document follows. -/
def atEnd : Reader Bool := return (← get).rest.isEmpty || atMarker (← get)

/-- The character here. -/
def here? : Reader (Option Char) := return (← get).rest.head?

/-- Takes the given character, or fails. -/
def expectChar (ch : Char) : Reader Unit := do
  guard ((← here?) = some ch)
  advance

/-- Has the node at the front of the text gone over to another line since `line`? -/
def sameLine (line : Nat) : Reader Bool := return (← get).line = line

end LedgerClient.Yaml
