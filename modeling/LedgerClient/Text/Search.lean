/-
Finding a text in another.
-/

namespace LedgerClient.Text

/-- `part` stands somewhere in `cs`. -/
def occursIn (part : List Char) : List Char → Bool
  | [] => part.isEmpty
  | c :: cs => part.isPrefixOf (c :: cs) || occursIn part cs

def occurs (part s : String) : Bool := occursIn part.toList s.toList

end LedgerClient.Text
