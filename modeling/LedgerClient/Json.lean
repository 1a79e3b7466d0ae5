/-
JSON documents, as values. There are no fractions: all numbers that this
library shows are whole.
-/
import LedgerClient.Bytes

namespace LedgerClient

inductive Json where
  | null
  | bool (b : Bool)
  | int (n : Int)
  | text (s : String)
  | list (xs : List Json)
  | object (members : List (String × Json))

namespace Json

/-- Bytes are shown as hexadecimal text. -/
def hex (b : Bytes) : Json := text b.toHex

def nat (n : Nat) : Json := int n

/-- What may be absent is shown as null. -/
def optional {α : Type} (render : α → Json) : Option α → Json
  | none => null
  | some x => render x

def listOf {α : Type} (render : α → Json) (xs : List α) : Json := list (xs.map render)

def texts (ss : List String) : Json := listOf text ss

end Json

end LedgerClient
