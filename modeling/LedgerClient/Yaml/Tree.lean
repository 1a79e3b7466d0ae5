/-
YAML documents, as values.
-/

namespace LedgerClient.Yaml

inductive Tree where
  /-- A text, and whether it stands there without quotes. Only then may it be read as a number, a
  truth value or nothing. -/
  | scalar (plain : Bool) (text : String)
  | list (items : List Tree)
  /-- Keys and values as they stand in the document. -/
  | map (entries : List (Tree × Tree))
  deriving Inhabited

/-- What stands where nothing is written. -/
def Tree.absent : Tree := .scalar true ""

end LedgerClient.Yaml
