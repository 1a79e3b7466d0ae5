/-
The text of YAML scalars: plain, quoted, and as a block of lines.

Where a plain or quoted text runs over several lines, white space around a
line break does not count; one line break stands for a space, and of several
the first is dropped.
-/
import LedgerClient.Bytes
import LedgerClient.Yaml.Cursor

namespace LedgerClient.Yaml

/-- What `breaks` line breaks in a row stand for. -/
def fold (breaks : Nat) : List Char :=
  if breaks ≤ 1 then [' '] else List.replicate (breaks - 1) '\n'

def trimEnd (cs : List Char) : List Char := (cs.reverse.dropWhile isSpaceOrTab).reverse

/-! ## Plain text -/

/-- The characters with a meaning inside brackets. -/
def isFlowIndicator (c : Char) : Bool := c ∈ [',', '[', ']', '{', '}']

def isIndicator (c : Char) : Bool :=
  isFlowIndicator c || c ∈ ['-', '?', ':', '#', '&', '*', '!', '|', '>', '\'', '"', '%', '@', '\x60']

/-- Plain text may begin here. -/
def startsPlain (flow : Bool) : List Char → Bool
  | [] => false
  | '-' :: cs => !atBlank cs
  | '?' :: cs | ':' :: cs => !flow && !atBlank cs
  | c :: _ => !isSpaceOrTab c && c ≠ '\n' && !isIndicator c

/-- The plain text at the front of a line, and what follows it. A colon ends it only before white
space, a number sign only after. -/
def plainSegment (flow : Bool) (afterBlank : Bool) : List Char → Option (List Char × List Char)
  | [] => some ([], [])
  | '\n' :: cs => some ([], '\n' :: cs)
  | c :: cs =>
    if c = '#' ∧ afterBlank then some ([], c :: cs)
    else if c = ':' ∧ atBlank cs then some ([], c :: cs)
    else if flow ∧ c = ':' ∧ (cs.head?.any fun d => d = '?' || isFlowIndicator d) then none
    else if flow ∧ isFlowIndicator c then some ([], c :: cs)
    else (plainSegment flow (isSpaceOrTab c) cs).map fun (seg, rest) => (c :: seg, rest)

/-- The line breaks before the next text, and the place of that; a tab may not stand where the
indentation has to be. -/
def lineBreaks (indent : Nat) (flow : Bool) : List Char → (breaks : Nat) → Cursor →
    Option (Nat × Cursor)
  | '\n' :: cs, n, c => lineBreaks indent flow cs (n + 1) { c with line := c.line + 1, column := 0 }
  | ' ' :: cs, n, c => lineBreaks indent flow cs n { c with column := c.column + 1 }
  | '\t' :: cs, n, c =>
    if n ≠ 0 ∧ c.column < indent then none
    else lineBreaks indent flow cs n { c with column := c.column + 1 }
  | cs, n, c => some (n, { c with rest := cs })

/-- Plain text, in which all lines but the first have to be indented by `indent`. -/
def plainText (flow : Bool) (indent : Nat) : (fuel : Nat) → Reader (List Char)
  | 0 => failure
  | fuel + 1 => do
    let c ← get
    let (segment, rest) ← (plainSegment flow true c.rest : Option _)
    let text := trimEnd segment
    let (breaks, c') ← (lineBreaks indent flow rest 0 (c.after segment rest) : Option _)
    set (if breaks = 0 then c' else { c' with fresh := c.fresh || !flow })
    if breaks = 0 ∨ c'.rest.head?.all (· = '#') ∨ atMarker c' ∨ (!flow ∧ c'.column < indent) then
      return text
    let more ← plainText flow indent fuel
    return if more.isEmpty then text else text ++ fold breaks ++ more

/-! ## Quoted text -/

/-- What a character after a backslash stands for. -/
def escape? : Char → Option Char
  | '0' => some '\x00'
  | 'a' => some '\x07'
  | 'b' => some '\x08'
  | 't' | '\t' => some '\t'
  | 'n' => some '\n'
  | 'v' => some '\x0b'
  | 'f' => some '\x0c'
  | 'r' => some '\r'
  | 'e' => some '\x1b'
  | ' ' => some ' '
  | '"' => some '"'
  | '/' => some '/'
  | '\\' => some '\\'
  | 'N' => some '\u0085'
  | '_' => some '\u00a0'
  | 'L' => some '\u2028'
  | 'P' => some '\u2029'
  | _ => none

/-- The number of hexadecimal digits after a backslash and the given letter. -/
def escapeDigits? : Char → Option Nat
  | 'x' => some 2
  | 'u' => some 4
  | 'U' => some 8
  | _ => none

/-- The character of a code point written as hexadecimal digits. -/
def charOfHex? (digits : List Char) : Option Char := do
  let values ← digits.mapM Bytes.hexValue?
  let n := values.foldl (fun n d => 16 * n + d) 0
  if n < 0xD800 ∨ (0xDFFF < n ∧ n < 0x110000) then some (Char.ofNat n) else none

/-- The rest of a quoted text, after the opening quote. -/
def quotedText (quote : Char) : (fuel : Nat) → Reader (List Char)
  | 0 => failure
  | fuel + 1 => do
    let c ← get
    if atMarker c then failure
    match c.rest with
    | [] => failure
    | ch :: cs =>
      if ch = quote then
        advance
        if quote = '\'' ∧ cs.head? = some '\'' then
          advance
          return '\'' :: (← quotedText quote fuel)
        return []
      else if ch = '\\' ∧ quote = '"' then
        advance
        escaped fuel cs
      else if isSpaceOrTab ch ∨ ch = '\n' then
        let (breaks, c') ← (lineBreaks 0 true c.rest 0 c : Option _)
        set c'
        let joined := if breaks = 0 then c.rest.takeWhile isSpaceOrTab else fold breaks
        return joined ++ (← quotedText quote fuel)
      else
        advance
        return ch :: (← quotedText quote fuel)
where
  /-- The text from an escape on, after its backslash. A line break is taken out with the white
  space after it. -/
  escaped (fuel : Nat) (cs : List Char) : Reader (List Char) := do
    match cs with
    | [] => failure
    | '\n' :: _ =>
      let c ← get
      let (breaks, c') ← (lineBreaks 0 true c.rest 0 c : Option _)
      set c'
      return List.replicate (breaks - 1) '\n' ++ (← quotedText quote fuel)
    | ch :: digits =>
      match escapeDigits? ch with
      | some n =>
        if (digits.take n).length < n then failure
        let code ← (charOfHex? (digits.take n) : Option Char)
        modify fun c => c.after (ch :: digits.take n) (digits.drop n)
        return code :: (← quotedText quote fuel)
      | none =>
        let code ← (escape? ch : Option Char)
        advance
        return code :: (← quotedText quote fuel)

/-! ## Blocks of lines -/

/-- What becomes of the line breaks at the end of a block. -/
inductive Chomping where
  | strip | clip | keep
  deriving DecidableEq, Repr

/-- The signs after the bar of a block: how it ends and how far it is indented. -/
def blockHeader : List Char → Option (Chomping × Option Nat × List Char)
  | '-' :: cs => withIndent .strip cs
  | '+' :: cs => withIndent .keep cs
  | d :: cs =>
    if '1' ≤ d ∧ d ≤ '9' then
      let width := some (d.toNat - 48)
      match cs with
      | '-' :: cs => some (.strip, width, cs)
      | '+' :: cs => some (.keep, width, cs)
      | cs => some (.clip, width, cs)
    else if d = '0' then none
    else some (.clip, none, d :: cs)
  | [] => some (.clip, none, [])
where
  withIndent (ch : Chomping) : List Char → Option (Chomping × Option Nat × List Char)
    | d :: cs =>
      if '1' ≤ d ∧ d ≤ '9' then some (ch, some (d.toNat - 48), cs)
      else if d = '0' then none
      else some (ch, none, d :: cs)
    | [] => some (ch, none, [])

/-- The lines of a text, each with whether a line break ends it. -/
def splitLines (cs : List Char) : List (List Char × Bool) :=
  match cs with
  | [] => []
  | '\n' :: cs => ([], true) :: splitLines cs
  | c :: cs =>
    match splitLines cs with
    | [] => [([c], false)]
    | (line, ended) :: lines => ((c :: line, ended) :: lines)

/-- The indentation of a block without one of its own: that of its first line with text, or the
longest line of spaces before that. -/
def detectIndent : List (List Char × Bool) → (longest : Nat) → Nat
  | [], longest => longest
  | (line, ended) :: lines, longest =>
    let width := (line.takeWhile (· = ' ')).length
    if width = line.length ∧ ended then detectIndent lines (max longest width)
    else max longest width

/-- The lines of a block without their indentation, and the lines after it. A line without text
belongs to the block. -/
def blockLines (indent : Nat) : List (List Char × Bool) →
    Option (List (List Char × Bool) × List (List Char × Bool))
  | [] => some ([], [])
  | (line, ended) :: lines =>
    let width := min indent (line.takeWhile (· = ' ')).length
    let text := line.drop width
    if text.isEmpty then
      if ended then (blockLines indent lines).map fun (block, rest) => (([], true) :: block, rest)
      else some ([], [])
    else if width < indent then
      if text.head? = some '\t' then none else some ([], (line, ended) :: lines)
    else (blockLines indent lines).map fun (block, rest) => ((text, ended) :: block, rest)

/-- The text of a block. Where lines are folded, a single line break between two lines that begin
with text is a space. `pending` is the break of the line before and `blank` the number of lines
without text since; `indented` says that the line before begins with white space. -/
def blockText (folded : Bool) (ch : Chomping) : List (List Char × Bool) →
    (pending : Bool) → (blank : Nat) → (indented : Bool) → List Char
  | [], pending, blank, _ =>
    (if pending ∧ ch ≠ .strip then ['\n'] else []) ++
      (if ch = .keep then List.replicate blank '\n' else [])
  | (line, ended) :: lines, pending, blank, indented =>
    match line with
    | [] => blockText folded ch lines pending (blank + 1) indented
    | c :: _ =>
      let lead :=
        if folded ∧ pending ∧ !indented ∧ !isSpaceOrTab c then
          if blank = 0 then [' '] else []
        else if pending then ['\n'] else []
      lead ++ List.replicate blank '\n' ++ line ++
        blockText folded ch lines ended 0 (isSpaceOrTab c)

/-- A block of lines, from the bar on; its lines are indented further than `parent` columns. -/
def block (parent : Nat) : Reader (List Char) := do
  let folded := (← here?) = some '>'
  advance
  let c ← get
  let (ch, width, rest) ← (blockHeader c.rest : Option _)
  let rest := rest.dropWhile isSpaceOrTab
  guard (rest.head?.all fun d => d = '#' || d = '\n')
  let lines := splitLines ((rest.dropWhile (· ≠ '\n')).drop 1)
  let indent := match width with
    | some w => parent - 1 + w
    | none => max (detectIndent lines 0) (max parent 1)
  let (block, after) ← (blockLines indent lines : Option _)
  let rest := after.flatMap fun (line, ended) => line ++ if ended then ['\n'] else []
  set { c with
    rest := rest.dropWhile (· = ' ')
    line := c.line + 1 + block.length
    column := (rest.takeWhile (· = ' ')).length
    fresh := true }
  return blockText folded ch block false 0 false

end LedgerClient.Yaml
