/-
Private keys from their standard files.

A key file is a sequence with the key's number and, if its maker liked, the
curve and the public key. It may stand by itself or be wrapped in a sequence
that names the kind of key, and either may be armoured as text.
-/
import LedgerClient.Key.Pem
import LedgerClient.Key.Private
import LedgerClient.Text.Search

namespace LedgerClient.PrivateKey

open Der

/-! ## Optional elements -/

/-- Whether a tag is context-specific with a number below `n`. -/
def isContextBelow (n : Nat) (tag : UInt8) : Bool :=
  tag.toNat / 64 == 2 && tag.toNat % 32 < n

/-- The first element, whatever its tag, and what follows. -/
def readAny : Bytes → Option (Bytes × Bytes)
  | [] => none
  | tag :: rest => Der.read tag (tag :: rest)

/-- Passes over context-specific elements with numbers below `n`; `fuel` bounds how many. -/
def skipContextBelow (n : Nat) : (fuel : Nat) → Bytes → Option Bytes
  | 0, _ => none
  | _ + 1, [] => some []
  | fuel + 1, tag :: rest =>
    if isContextBelow n tag then (readAny (tag :: rest)).bind fun (_, rest) => skipContextBelow n fuel rest
    else some (tag :: rest)

/-- The content of the optional constructed element `n`, and what follows it. An element of that
number that is not constructed is an error. -/
def readContext (n : Nat) (bs : Bytes) : Option (Option Bytes × Bytes) := do
  let bs ← skipContextBelow n (bs.length + 1) bs
  match bs with
  | [] => some (none, [])
  | tag :: _ =>
    if isContextBelow (n + 1) tag then
      let (content, rest) ← Der.read (contextTag n) bs
      some (some content, rest)
    else some (none, bs)

/-! ## Elements -/

/-- The form of an object identifier: at least three bytes, the first below 120 and the last below
128, and no number in it longer than five bytes. -/
def isObjectId (content : Bytes) : Bool :=
  3 ≤ content.length && content.length ≤ 39 && (content.headD 0) < 120
    && (content.getLastD 0x80) < 0x80
    && (List.range content.length).all fun i =>
      !(((content.drop i).take 5).length == 5 && ((content.drop i).take 5).all (0x80 ≤ ·))

/-- The bytes of a bit string without unused bits. -/
def wholeBits? : Bytes → Option Bytes
  | 0 :: bytes => some bytes
  | _ => none

/-! ## Key files -/

/-- The fields of a key file: its version, the key's number, the curve if it is named, and the
public key if it is there. -/
def ofSec1Der? (bs : Bytes) : Option PrivateKey := do
  let body ← readOnly sequenceTag bs
  let (version, rest) ← readNat body
  let (number, rest) ← Der.read octetStringTag rest
  let (parameters, rest) ← readContext 0 rest
  let (publicKey, rest) ← readContext 1 rest
  if version ≠ 1 ∨ rest ≠ [] then none
  if let some content := parameters then
    let curve ← readOnly objectIdTag content
    if !isObjectId curve then none
  let key ← ofBytes? number
  match publicKey with
  | none => some key
  | some content =>
    let bits ← readOnly bitStringTag content
    let point ← wholeBits? bits
    let own := key.publicPoint
    if point = own.toBytes ∨ point = own.toCompressedBytes then some key else none

/-- The kind of the keys: elliptic-curve keys over P-256, as two object identifiers. -/
def algorithm : Bytes :=
  element objectIdTag [0x2a, 0x86, 0x48, 0xce, 0x3d, 0x02, 0x01]
    ++ element objectIdTag [0x2a, 0x86, 0x48, 0xce, 0x3d, 0x03, 0x01, 0x07]

/-- Passes over constructed context-specific elements to the end, each with one element in it. -/
def areExtensions : (fuel : Nat) → Bytes → Bool
  | 0, _ => false
  | _ + 1, [] => true
  | fuel + 1, tag :: rest =>
    tag.toNat / 32 == 5 &&
      match readAny (tag :: rest) with
      | none => false
      | some (content, rest) =>
        (match readAny content with
          | some (_, []) => true
          | _ => false) && areExtensions fuel rest

/-- A key wrapped in a sequence that names its kind. Version 1 of the wrapping, and only that, has
a public key of its own, which is not looked at. -/
def ofPkcs8Der? (bs : Bytes) : Option PrivateKey := do
  let body ← readOnly sequenceTag bs
  let (version, rest) ← readNat body
  let (kind, rest) ← Der.read sequenceTag rest
  let (inner, rest) ← Der.read octetStringTag rest
  let rest ← skipContextBelow 1 (rest.length + 1) rest
  if kind ≠ algorithm then none
  if version = 0 then
    if rest.head?.any (isContextBelow 2) then none
    if !areExtensions (rest.length + 1) rest then none
  else if version = 1 then
    let (bits, rest) ← Der.read 0x81 rest
    if (wholeBits? bits).isNone ∨ !areExtensions (rest.length + 1) rest then none
  else none
  ofSec1Der? inner

/-- A key from armoured text. Text that speaks of an `EC PRIVATE KEY` has the key by itself, other
text the wrapped form. -/
def ofPem? (text : String) : Option PrivateKey :=
  if Text.occurs "BEGIN EC PRIVATE KEY" text then
    (Pem.decode? "EC PRIVATE KEY" text).bind ofSec1Der?
  else (Pem.decode? "PRIVATE KEY" text).bind ofPkcs8Der?

end LedgerClient.PrivateKey
