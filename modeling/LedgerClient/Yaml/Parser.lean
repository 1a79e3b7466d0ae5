/-
Reading YAML documents.

A block is known by its indentation: its entries begin in one column, further
to the right than the block around it. Inside brackets indentation does not
matter. A node may be named by an anchor, and an alias stands for the node last
named so.
-/
import LedgerClient.Yaml.Scalar

namespace LedgerClient.Yaml

/-! ## What precedes a node -/

def isAnchorChar (c : Char) : Bool := c.isAlphanum || c = '_' || c = '-'

/-- A name after an ampersand or an asterisk. -/
def anchorName : Reader String := do
  advance
  let c ← get
  let name := c.rest.takeWhile isAnchorChar
  let rest := c.rest.dropWhile isAnchorChar
  guard (!name.isEmpty)
  guard (atBlank rest || rest.head?.any (· ∈ ['?', ':', ',', ']', '}', '%', '@', '\x60']))
  set (c.after name rest)
  return String.ofList name

/-- An anchor and a tag, in any order, each at most once. Tags are passed over. -/
def properties (flow : Bool) : (fuel : Nat) → (anchor : Option String) → (tagged : Bool) →
    Reader (Option String × Bool)
  | 0, _, _ => failure
  | fuel + 1, anchor, tagged => do
    match ← here? with
    | some '&' =>
      guard anchor.isNone
      let name ← anchorName
      skipInLine
      properties flow fuel (some name) tagged
    | some '!' =>
      guard !tagged
      let c ← get
      let isTagChar := fun ch => !(isSpaceOrTab ch || ch = '\n' || (flow && isFlowIndicator ch))
      set (c.after (c.rest.takeWhile isTagChar) (c.rest.dropWhile isTagChar))
      skipInLine
      properties flow fuel anchor true
    | _ => return (anchor, anchor.isSome || tagged)

/-- Gives a node its name. -/
def bindAnchor (anchor : Option String) (n : Tree) : Reader Tree := do
  if let some name := anchor then
    modify fun c => { c with anchors := (name, n) :: c.anchors }
  return n

/-- The node an alias stands for. -/
def aliased : Reader Tree := do
  let name ← anchorName
  ((← get).anchors.lookup name : Option Tree)

/-! ## Nodes -/

/-- Plain or quoted text. -/
def text (flow : Bool) (indent fuel : Nat) : Reader Tree := do
  match ← here? with
  | some '"' =>
    advance
    return .scalar false (String.ofList (← quotedText '"' fuel))
  | some '\'' =>
    advance
    return .scalar false (String.ofList (← quotedText '\'' fuel))
  | _ =>
    guard (startsPlain flow (← get).rest)
    return .scalar true (String.ofList (← plainText flow indent fuel))

mutual
/-- A node inside brackets; nothing written is a node too. -/
def flowNode : (fuel : Nat) → Reader Tree
  | 0 => failure
  | fuel + 1 => do
    let (anchor, _) ← properties true fuel none false
    skip true
    let n ← match ← here? with
      | some '*' => do guard anchor.isNone; aliased
      | some ':' | some ',' | some ']' | some '}' => pure .absent
      | some '[' | some '{' => flowCollection fuel
      | _ => text true 0 fuel
    bindAnchor anchor n

/-- A list or a map in brackets. -/
def flowCollection : (fuel : Nat) → Reader Tree
  | 0 => failure
  | fuel + 1 => do
    match ← here? with
    | some '[' =>
      advance
      return .list (← flowItems fuel)
    | some '{' =>
      advance
      return .map (← flowEntries fuel)
    | _ => failure

/-- The items of a list up to its closing bracket. -/
def flowItems : (fuel : Nat) → Reader (List Tree)
  | 0 => failure
  | fuel + 1 => do
    skip true
    guard !(← atEnd)
    if (← here?) = some ']' then
      advance
      return []
    guard ((← here?) ≠ some ',')
    let line := (← get).line
    let first ← flowNode fuel
    skip true
    let item ← if (← here?) = some ':' then do
        guard (← sameLine line)
        pure (Tree.map [(first, ← flowValue fuel)])
      else pure first
    if (← here?) = some ',' then
      advance
      return item :: (← flowItems fuel)
    expectChar ']'
    return [item]

/-- The entries of a map up to its closing brace. -/
def flowEntries : (fuel : Nat) → Reader (List (Tree × Tree))
  | 0 => failure
  | fuel + 1 => do
    skip true
    guard !(← atEnd)
    if (← here?) = some '}' then
      advance
      return []
    guard ((← here?) ≠ some ',')
    let line := (← get).line
    let key ← flowNode fuel
    skip true
    let value ← if (← here?) = some ':' then do
        guard (← sameLine line)
        flowValue fuel
      else pure .absent
    if (← here?) = some ',' then
      advance
      return (key, value) :: (← flowEntries fuel)
    expectChar '}'
    return [(key, value)]

/-- What follows a colon inside brackets. -/
def flowValue : (fuel : Nat) → Reader Tree
  | 0 => failure
  | fuel + 1 => do
    advance
    skip true
    let n ← flowNode fuel
    skip true
    return n
end

/-- A node that can be a key: it is not a block. -/
def inlineNode (indent fuel : Nat) : Reader Tree := do
  match ← here? with
  | some '*' => aliased
  | some '[' | some '{' => flowCollection fuel
  | _ => text false indent fuel

/-- A colon follows that makes what precedes it a key. -/
def atColon : Reader Bool := do
  match (← get).rest with
  | ':' :: cs => return atBlank cs
  | _ => return false

/-- An entry of a block list begins here. -/
def atDash : Reader Bool := do
  match (← get).rest with
  | '-' :: cs => return atBlank cs
  | _ => return false

/-- The next entry of a block in a column begins here. Otherwise the block is over, and what
follows may not be indented further. -/
def atEntry (column : Nat) : Reader Bool := do
  skip false
  if ← atEnd then return false
  let c ← get
  guard (c.fresh && c.column ≤ column)
  return c.column = column

mutual
/-- A node of a block whose entries begin at `indent - 1`, so that the node is indented by
`indent` at least; as the value of a key, a block list may begin in the column of the key. -/
def blockNode (indent : Nat) (ofKey : Bool) : (fuel : Nat) → Reader Tree
  | 0 => failure
  | fuel + 1 => do
    skip false
    let c ← get
    if ← atEnd then return .absent
    if c.fresh ∧ c.column < indent then
      if ofKey ∧ c.column + 1 = indent then
        if ← atDash then return .list (← blockItems c.column fuel)
      return .absent
    let (anchor, named) ← properties false fuel none false
    if named then skip false
    let d ← get
    if named ∧ d.line ≠ c.line then
      if (← atEnd) ∨ d.column < indent then
        if ofKey ∧ d.column + 1 = indent then
          if ← atDash then return ← bindAnchor anchor (.list (← blockItems d.column fuel))
        return ← bindAnchor anchor .absent
    if ← atEnd then return ← bindAnchor anchor .absent
    let own := if d.line = c.line then c else d
    if ← atDash then
      guard (own.fresh && (!named || d.line ≠ c.line))
      return ← bindAnchor anchor (.list (← blockItems own.column fuel))
    match ← here? with
    | some '|' | some '>' =>
      bindAnchor anchor (.scalar false (String.ofList (← block indent)))
    | _ =>
      let start ← get
      let n ← inlineNode indent fuel
      if ← sameLine start.line then skipInLine
      if ← (return (← atColon) && (← sameLine start.line)) then
        guard own.fresh
        if named ∧ d.line = c.line then
          let key ← bindAnchor anchor n
          return .map (← blockEntries own.column key fuel)
        else
          let entries ← blockEntries own.column n fuel
          bindAnchor anchor (.map entries)
      else bindAnchor anchor n

/-- The items of a block list, from a dash in the given column on. -/
def blockItems (column : Nat) : (fuel : Nat) → Reader (List Tree)
  | 0 => failure
  | fuel + 1 => do
    advance
    modify ({ · with fresh := true })
    let item ← blockNode (column + 1) false fuel
    if ← atEntry column then
      if ← atDash then return item :: (← blockItems column fuel)
    return [item]

/-- The entries of a block map, from the colon after the first key on. -/
def blockEntries (column : Nat) (key : Tree) : (fuel : Nat) → Reader (List (Tree × Tree))
  | 0 => failure
  | fuel + 1 => do
    advance
    notFresh
    let value ← blockNode (column + 1) true fuel
    if ← atEntry column then
      let line := (← get).line
      let (anchor, _) ← properties false fuel none false
      let next ← bindAnchor anchor (← inlineNode (column + 1) fuel)
      skipInLine
      guard ((← sameLine line) && (← atColon))
      return (key, value) :: (← blockEntries column next fuel)
    return [(key, value)]
end

/-! ## Documents -/

/-- The one document of a text. -/
def document (fuel : Nat) : Reader Tree := do
  skip false
  if ← (return atMarker (← get)) then
    guard ((← here?) = some '-')
    modify fun c => c.after ['-', '-', '-'] (c.rest.drop 3)
    notFresh
  let n ← blockNode 0 false fuel
  skip false
  if ← (return atMarker (← get)) then
    guard ((← here?) = some '.')
    modify fun c => c.after ['.', '.', '.'] (c.rest.drop 3)
    skip false
  guard (← get).rest.isEmpty
  return n

/-- A character that a text may hold. -/
def isAllowed (c : Char) : Bool :=
  let n := c.toNat
  n = 0x09 || n = 0x0A || (0x20 ≤ n && n ≤ 0x7E) || n = 0x85 || (0xA0 ≤ n && n ≤ 0xD7FF) ||
    (0xE000 ≤ n && n ≤ 0xFFFD && n ≠ 0xFEFF) || 0x10000 ≤ n

/-- A text with all its line breaks written as one character. -/
def normalBreaks : List Char → List Char
  | [] => []
  | '\r' :: '\n' :: cs => '\n' :: normalBreaks cs
  | '\r' :: cs => '\n' :: normalBreaks cs
  | c :: cs => c :: normalBreaks cs

/-- The document that a text holds, if it holds just one. -/
def parse? (s : String) : Option Tree := do
  let cs := normalBreaks (if s.startsWith "\uFEFF" then s.toList.drop 1 else s.toList)
  guard (cs.all isAllowed)
  let (n, _) ← (document (4 * cs.length + 16)).run { rest := cs }
  return n

end LedgerClient.Yaml
