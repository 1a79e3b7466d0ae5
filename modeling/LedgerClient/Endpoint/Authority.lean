/-
The authorities that a node trusts, as text.

A text holds sections of base 64, each between a line that begins it and a line
that ends it, both with its label. Other text may stand around them, and there
need not be any. A line ends with a line feed or a carriage return.
-/
import LedgerClient.Key.Pem

namespace LedgerClient.Authority

/-- The lines of a text, without their ends. -/
def lines : Bytes → List Bytes
  | [] => [[]]
  | b :: bs =>
    if b = Pem.lf ∨ b = Pem.cr then [] :: lines bs
    else
      match lines bs with
      | [] => [[b]]
      | line :: rest => (b :: line) :: rest

/-- Where a reader is: outside of the sections, or inside one, with what it has read there. -/
inductive Place where
  | outside
  | inside (label content : Bytes)

def blank : UInt8 := 32
def dash : UInt8 := 45

def beginning : Bytes := Utf8.encode "-----BEGIN "

/-- The label in a line that begins a section; five dashes follow it. -/
def label? (line : Bytes) : Option Bytes :=
  let dashed := line.reverse.dropWhile (· = blank)
  let rest := dashed.dropWhile (· = dash)
  if dashed.length = rest.length + 5 then some (rest.reverse.drop beginning.length) else none

def ending (label : Bytes) : Bytes := Utf8.encode "-----END " ++ label ++ Utf8.encode "-----"

/-- The sections that are taken apart, whether or not there is a certificate in them. -/
def labels : List Bytes :=
  ["CERTIFICATE", "CERTIFICATE REQUEST", "X509 CRL", "PUBLIC KEY", "PRIVATE KEY", "RSA PRIVATE KEY",
    "EC PRIVATE KEY", "ECHCONFIG"].map Utf8.encode

/-- Where a reader is behind one more line, unless the line is malformed. -/
def step (place : Place) (line : Bytes) : Option Place :=
  if beginning.isPrefixOf line then (label? line).map fun label => .inside label []
  else
    match place with
    | .outside => some .outside
    | .inside label content =>
      if (ending label).isPrefixOf line then
        if label ∈ labels ∧ Pem.decodeBase64? content = none then none else some .outside
      else some (.inside label (content ++ line.filter (· ≠ blank)))

/-- Every section in the text ends, and those that are known are in base 64. -/
def isReadable (text : String) : Bool :=
  match (lines (Utf8.encode text)).foldlM step .outside with
  | some .outside => true
  | some (.inside ..) | none => false

end LedgerClient.Authority
