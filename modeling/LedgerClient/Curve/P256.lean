/-
The curve P-256: points, their addition and their byte forms.

A point is infinity or a pair of coordinates below the field's prime. Addition
is the textbook chord and tangent rule; a multiple is found by doubling.
-/
import LedgerClient.Bytes

namespace LedgerClient.P256

/-- The prime of the field. -/
def p : Nat := 0xffffffff00000001000000000000000000000000ffffffffffffffffffffffff

/-- The prime order of the base point. -/
def n : Nat := 0xffffffff00000000ffffffffffffffffbce6faada7179e84f3b9cac2fc632551

/-- The curve is `y² = x³ - 3 x + b`. -/
def b : Nat := 0x5ac635d8aa3a93e7b3ebbd55769886bc651d06b0cc53b0f63bce3c3e27d2604b

/-! ## Arithmetic modulo a prime -/

/-- Euclid's algorithm on `r` and `s`, carrying the factors `t` and `u` that make them out of the
number to be inverted. -/
def euclid (r s : Nat) (t u : Int) : Int :=
  if _ : s = 0 then t else euclid s (r % s) u (t - (r / s : Nat) * u)
termination_by s
decreasing_by exact Nat.mod_lt _ (Nat.pos_of_ne_zero ‹_›)

/-- The inverse of `a` modulo `m`, if they have no common factor. -/
def inverse (m a : Nat) : Nat := (euclid m (a % m) 0 1 % m).toNat

/-- A power modulo `m`. -/
def powMod (m a e : Nat) : Nat :=
  if h : e = 0 then 1 % m
  else
    let half := powMod m (a * a % m) (e / 2)
    if e % 2 = 1 then half * a % m else half
termination_by e
decreasing_by exact Nat.div_lt_self (Nat.pos_of_ne_zero h) (by decide)

/-- Subtraction in the field, of numbers below the prime. -/
def sub (x y : Nat) : Nat := (x + (p - y)) % p

/-! ## Points -/

inductive Point where
  | infinity
  | affine (x y : Nat)
  deriving DecidableEq, Repr

/-- The right-hand side of the curve's equation. -/
def cubic (x : Nat) : Nat := (x * x * x + (p - 3) * x + b) % p

/-- Whether a pair of coordinates is a point of the curve. -/
def isOnCurve (x y : Nat) : Bool := x < p && y < p && y * y % p == cubic x

def basePoint : Point :=
  .affine 0x6b17d1f2e12c4247f8bce6e563a440f277037d812deb33a0f4a13945d898c296
    0x4fe342e2fe1a7f9b8ee7eb4a7c0f9e162bce33576b315ececbb6406837bf51f5

namespace Point

/-- The third point, negated, on the line of a given slope through a first point and one with
coordinate `x₂`. -/
def onLine (slope x₁ y₁ x₂ : Nat) : Point :=
  let x := sub (sub (slope * slope % p) x₁) x₂
  .affine x (sub (slope * sub x₁ x % p) y₁)

def add : Point → Point → Point
  | infinity, q => q
  | q, infinity => q
  | affine x₁ y₁, affine x₂ y₂ =>
    if x₁ = x₂ then
      if (y₁ + y₂) % p = 0 then infinity
      else onLine ((3 * x₁ * x₁ + (p - 3)) * inverse p (2 * y₁ % p) % p) x₁ y₁ x₂
    else onLine (sub y₂ y₁ * inverse p (sub x₂ x₁) % p) x₁ y₁ x₂

/-- The sum of `k` copies of a point. -/
def mul (k : Nat) (q : Point) : Point :=
  if h : k = 0 then infinity
  else
    let even := mul (k / 2) (q.add q)
    if k % 2 = 1 then q.add even else even
termination_by k
decreasing_by exact Nat.div_lt_self (Nat.pos_of_ne_zero h) (by decide)

/-! ## Byte forms -/

/-- Both coordinates behind a byte 4; infinity is one zero byte. -/
def toBytes : Point → Bytes
  | infinity => [0]
  | affine x y => 4 :: Bytes.ofNat 32 x ++ Bytes.ofNat 32 y

/-- The first coordinate behind a byte that tells whether the second is even or odd. -/
def toCompressedBytes : Point → Bytes
  | infinity => [0]
  | affine x y => (2 + y % 2).toUInt8 :: Bytes.ofNat 32 x

/-- The even one of the two second coordinates that go with `x`, if there are any. The prime is
three modulo four, so a root, if there is one, is a power. -/
def evenRoot? (x : Nat) : Option Nat :=
  let y := powMod p (cubic x) ((p + 1) / 4)
  let y := if y % 2 = 0 then y else p - y
  if isOnCurve x y then some y else none

/-- The point that a byte form stands for; infinity is not accepted. Beside the two usual forms
there is one, behind a byte 5, that stands for the smaller second coordinate. -/
def ofBytes? : Bytes → Option Point
  | [] => none
  | tag :: rest =>
    let x := Bytes.toNat (rest.take 32)
    if tag = 4 then
      let y := Bytes.toNat (rest.drop 32)
      if rest.length = 64 ∧ isOnCurve x y then some (affine x y) else none
    else if rest.length ≠ 32 then none
    else
      (evenRoot? x).bind fun y =>
        if tag = 2 then some (affine x y)
        else if tag = 3 then some (affine x (p - y))
        else if tag = 5 then some (affine x (min y (p - y)))
        else none

end Point

end LedgerClient.P256
