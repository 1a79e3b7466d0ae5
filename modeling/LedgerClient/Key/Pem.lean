/-
Armoured text: bytes in base 64 between a line that begins and a line that ends
them.

Both lines name the same label. Every line between them but the last has
sixty-four characters. Lines end with a line feed, a carriage return or both,
and only the very last end may be left out. Other text may stand before the
first line.
-/
import LedgerClient.Text.Utf8

namespace LedgerClient.Pem

/-! ## Base 64 -/

def base64Value? (b : UInt8) : Option Nat :=
  let c := b.toNat
  if 65 ≤ c ∧ c ≤ 90 then some (c - 65)
  else if 97 ≤ c ∧ c ≤ 122 then some (c - 71)
  else if 48 ≤ c ∧ c ≤ 57 then some (c + 4)
  else if c = 43 then some 62
  else if c = 47 then some 63
  else none

def padding : UInt8 := 61

/-- Four characters give three bytes; the last four may end in one or two signs of padding, and
then the bits that are not used must be zero. -/
def decodeBase64? : Bytes → Option Bytes
  | [] => some []
  | [a, b, c, d] => do
    let va ← base64Value? a
    let vb ← base64Value? b
    let first := (va * 4 + vb / 16).toUInt8
    if c = padding then
      if d = padding ∧ vb % 16 = 0 then some [first] else none
    else
      let vc ← base64Value? c
      let second := (vb % 16 * 16 + vc / 4).toUInt8
      if d = padding then
        if vc % 4 = 0 then some [first, second] else none
      else
        let vd ← base64Value? d
        some [first, second, (vc % 4 * 64 + vd).toUInt8]
  | a :: b :: c :: d :: rest => do
    let va ← base64Value? a
    let vb ← base64Value? b
    let vc ← base64Value? c
    let vd ← base64Value? d
    let bytes ← decodeBase64? rest
    some ((va * 4 + vb / 16).toUInt8 :: (vb % 16 * 16 + vc / 4).toUInt8
      :: (vc % 4 * 64 + vd).toUInt8 :: bytes)
  | _ => none

/-! ## Lines -/

def lf : UInt8 := 10
def cr : UInt8 := 13

/-- What follows the end of a line at the front. -/
def dropLineEnd? : Bytes → Option Bytes
  | 13 :: 10 :: rest => some rest
  | 13 :: rest | 10 :: rest => some rest
  | _ => none

/-- What precedes the end of a line at the back. -/
def dropLastLineEnd? (bs : Bytes) : Option Bytes :=
  match bs.reverse with
  | 10 :: 13 :: rest => some rest.reverse
  | 10 :: rest | 13 :: rest => some rest.reverse
  | _ => none

/-- Joins lines of sixty-four characters and a shorter last one; `fuel` bounds their number. -/
def unwrap : (fuel : Nat) → Bytes → Option Bytes
  | 0, _ => none
  | fuel + 1, bs =>
    match bs.drop 64 with
    | [] => some bs
    | rest => do
      let rest ← dropLineEnd? rest
      let joined ← unwrap fuel rest
      some (bs.take 64 ++ joined)

/-! ## The whole -/

/-- What follows `front` at the front of `bs`. -/
def dropFront? (front bs : Bytes) : Option Bytes :=
  if front.isPrefixOf bs then some (bs.drop front.length) else none

/-- What precedes `back` at the back of `bs`. -/
def dropBack? (back bs : Bytes) : Option Bytes :=
  if back.isSuffixOf bs then some (bs.take (bs.length - back.length)) else none

/-- The input from the first line on that begins with `mark`. Text before it has no zero byte. -/
def dropPreamble? (mark : Bytes) : Bytes → Option Bytes
  | [] => none
  | b :: bs =>
    if mark.isPrefixOf bs ∧ b = lf then some bs
    else if b = 0 then none
    else dropPreamble? mark bs

/-- The bytes armoured under a label. -/
def decode? (label : String) (text : String) : Option Bytes := do
  let dashes := Utf8.encode "-----"
  let begin := Utf8.encode "-----BEGIN "
  let name := Utf8.encode label
  let bs := Utf8.encode text
  let bs ← if begin.isPrefixOf bs then some bs else dropPreamble? begin bs
  let bs ← dropFront? (begin ++ name ++ dashes) bs
  let bs ← dropLineEnd? bs
  let bs ← dropBack? (Utf8.encode "-----END " ++ name ++ dashes) ((dropLastLineEnd? bs).getD bs)
  let bs ← dropLastLineEnd? bs
  let bs ← unwrap (bs.length + 1) bs
  decodeBase64? bs

end LedgerClient.Pem
