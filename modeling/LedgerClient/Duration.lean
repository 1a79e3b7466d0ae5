/-
Spans of time and how messages show them.

A span is shown in the largest unit of which it has at least one, with as many
decimals as it needs.
-/

namespace LedgerClient

structure Duration where
  nanos : Nat
  deriving DecidableEq, Repr

namespace Duration

instance : LE Duration := ⟨fun a b => a.nanos ≤ b.nanos⟩

instance (a b : Duration) : Decidable (a ≤ b) := inferInstanceAs (Decidable (a.nanos ≤ b.nanos))

/-- What is left of a span after another; nothing once that is the longer one. -/
instance : Sub Duration := ⟨fun a b => ⟨a.nanos - b.nanos⟩⟩

instance : Add Duration := ⟨fun a b => ⟨a.nanos + b.nanos⟩⟩

/-- No time at all. -/
def zero : Duration := ⟨0⟩

def ofMillis (n : Nat) : Duration := ⟨n * 1000000⟩

def ofSecs (n : Nat) : Duration := ⟨n * 1000000000⟩

/-- A number as a decimal whose last `places` digits stand behind the point, without trailing
zeros there. -/
def decimal (places n : Nat) : String :=
  let parts := Nat.pow 10 places
  let whole := n / parts
  let part := toString (n % parts)
  let digits := List.replicate (places - part.length) '0' ++ part.toList
  let digits := (digits.reverse.dropWhile (· = '0')).reverse
  if places = 0 ∨ digits.isEmpty then toString whole
  else toString whole ++ "." ++ String.ofList digits

/-- A span as messages show it. -/
def describe (d : Duration) : String :=
  if 1000000000 ≤ d.nanos then decimal 9 d.nanos ++ "s"
  else if 1000000 ≤ d.nanos then decimal 6 d.nanos ++ "ms"
  else if 1000 ≤ d.nanos then decimal 3 d.nanos ++ "µs"
  else decimal 0 d.nanos ++ "ns"

end Duration

end LedgerClient
