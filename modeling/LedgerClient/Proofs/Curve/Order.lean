/-
The order of the base point.

Its multiple by `n` is infinity (`smul_basePoint`). That is a computation, and
it is done without a single division: a point is given by three numbers of
which the last is a common denominator, and a multiple is found from the half
of it. If the last number at the end is not zero, none was on the way, and then
no special case of the addition was met.
-/
import LedgerClient.Proofs.Curve.Group

namespace LedgerClient.P256

open WeierstrassCurve Affine

/-! ## Points with a denominator -/

/-- The point `(x / z², y / z³)`, for `z` other than zero. -/
structure Jacobian (F : Type) where
  x : F
  y : F
  z : F

namespace Jacobian

section Field

variable {F : Type} [Field F] {c : F}

def double (q : Jacobian F) : Jacobian F :=
  let t := (q.x - q.z * q.z) * (q.x + q.z * q.z)
  let m := t + t + t
  let yy := q.y * q.y
  let s := 4 * q.x * yy
  let x := m * m - 2 * s
  ⟨x, m * (s - x) - 8 * (yy * yy), 2 * q.y * q.z⟩

/-- The sum with a point that has no denominator. -/
def add (q : Jacobian F) (x y : F) : Jacobian F :=
  let zz := q.z * q.z
  let d := x * zz - q.x
  let e := y * (zz * q.z) - q.y
  let dd := d * d
  let v := q.x * dd
  let x' := e * e - dd * d - 2 * v
  ⟨x', e * (v - x') - q.y * (dd * d), d * q.z⟩

/-- The point is the one given, unless the denominator is zero. -/
def Denotes (q : Jacobian F) (P : (shortCurve c).Point) : Prop :=
  q.z ≠ 0 → ∃ h, P = .some (q.x / q.z ^ 2) (q.y / q.z ^ 3) h

theorem some_congr {P : (shortCurve c).Point} {x y x' y' : F} {h : (shortCurve c).Nonsingular x y}
    (hP : P = .some x y h) (hx : x = x') (hy : y = y') : ∃ h', P = .some x' y' h' := by
  subst hx hy
  exact ⟨h, hP⟩

variable [DecidableEq F] {q : Jacobian F} {P : (shortCurve c).Point}

theorem Denotes.double (h : q.Denotes P) : q.double.Denotes (P + P) := by
  intro hz
  have h2 : (2 : F) ≠ 0 := left_ne_zero_of_mul (left_ne_zero_of_mul hz)
  have hy : q.y ≠ 0 := right_ne_zero_of_mul (left_ne_zero_of_mul hz)
  have hqz : q.z ≠ 0 := right_ne_zero_of_mul hz
  obtain ⟨hn, rfl⟩ := h hqz
  have hne : q.y / q.z ^ 3 ≠ (shortCurve c).negY (q.x / q.z ^ 2) (q.y / q.z ^ 3) := by
    intro he
    simp only [negY, shortCurve, zero_mul, sub_zero] at he
    have hzero : 2 * (q.y / q.z ^ 3) = 0 := by linear_combination he
    exact mul_ne_zero h2 (div_ne_zero hy (pow_ne_zero 3 hqz)) hzero
  have hslope : (shortCurve c).slope (q.x / q.z ^ 2) (q.x / q.z ^ 2) (q.y / q.z ^ 3) (q.y / q.z ^ 3) =
      3 * (q.x - q.z * q.z) * (q.x + q.z * q.z) / (2 * q.y * q.z) := by
    have hdown : q.y / q.z ^ 3 - (-(q.y / q.z ^ 3) - 0 * (q.x / q.z ^ 2) - 0) = 2 * q.y / q.z ^ 3 := by ring
    rw [slope_of_Y_ne rfl hne]
    simp only [negY, shortCurve]
    rw [hdown]
    field_simp
    ring
  refine some_congr (Point.add_self_of_Y_ne hne) ?_ ?_
  · rw [hslope]
    simp only [addX, shortCurve, Jacobian.double]
    field_simp
    ring
  · rw [hslope]
    simp only [addY, negAddY, negY, addX, shortCurve, Jacobian.double]
    field_simp
    ring

theorem Denotes.add (h : q.Denotes P) {x y : F} (hxy : (shortCurve c).Nonsingular x y) :
    (q.add x y).Denotes (P + .some x y hxy) := by
  intro hz
  obtain ⟨X, Y, Z⟩ := q
  -- the difference of the first coordinates over one denominator
  obtain ⟨d, rfl⟩ : ∃ d, X = x * Z ^ 2 - d := ⟨x * Z ^ 2 - X, by ring⟩
  have hdiff : x * (Z * Z) - (x * Z ^ 2 - d) = d := by ring
  have hZ : Z ≠ 0 := right_ne_zero_of_mul hz
  have hd : d ≠ 0 := by
    rw [← hdiff]
    exact left_ne_zero_of_mul hz
  obtain ⟨hn, rfl⟩ := h hZ
  have hne : (x * Z ^ 2 - d) / Z ^ 2 ≠ x := by
    rw [ne_eq, div_eq_iff (pow_ne_zero 2 hZ), sub_eq_self]
    exact hd
  have hslope : (shortCurve c).slope ((x * Z ^ 2 - d) / Z ^ 2) x (Y / Z ^ 3) y = (y * Z ^ 3 - Y) / (d * Z) := by
    rw [slope_of_X_ne hne, div_eq_div_iff (sub_ne_zero.2 hne) (mul_ne_zero hd hZ)]
    field_simp
    ring
  refine some_congr (Point.add_of_X_ne hne) ?_ ?_
  · rw [hslope]
    simp only [addX, shortCurve, Jacobian.add, hdiff]
    field_simp
    ring
  · rw [hslope]
    simp only [addY, negAddY, negY, addX, shortCurve, Jacobian.add, hdiff]
    field_simp
    ring

/-- The multiple by `k` of a point, of which `fuel` bounds the number of bits. -/
def smul (x y : F) : (fuel k : Nat) → Jacobian F
  | 0, _ => ⟨x, y, 1⟩
  | fuel + 1, k =>
    if k ≤ 1 then ⟨x, y, 1⟩
    else
      let even := (smul x y fuel (k / 2)).double
      if k % 2 = 1 then even.add x y else even

theorem denotes_smul {x y : F} (hxy : (shortCurve c).Nonsingular x y) {fuel k : Nat} (hk : 0 < k)
    (hfuel : k < 2 ^ (fuel + 1)) : (smul x y fuel k).Denotes (k • Point.some x y hxy) := by
  have hone : (⟨x, y, 1⟩ : Jacobian F).Denotes (1 • Point.some x y hxy) := by
    intro _
    rw [one_nsmul]
    exact some_congr rfl (by simp) (by simp)
  induction fuel generalizing k with
  | zero =>
    obtain rfl : k = 1 := by omega
    exact hone
  | succ fuel ih =>
    rw [smul]
    split
    next h =>
      obtain rfl : k = 1 := by omega
      exact hone
    next h =>
      have heven := (ih (k := k / 2) (by omega) (by omega)).double
      rw [← two_nsmul, smul_smul] at heven
      split
      next hodd =>
        have hsum : 2 * (k / 2) + 1 = k := by omega
        have h := heven.add hxy
        rwa [← succ_nsmul, hsum] at h
      next hev =>
        have hsum : 2 * (k / 2) = k := by omega
        rwa [hsum] at heven

end Field

end Jacobian

/-! ## The base point -/

/-- Whether the multiple by `n - 1` of a point is the opposite point. -/
def hasOrder (x y : ZMod p) : Bool :=
  let q := Jacobian.smul x y 255 (n - 1)
  q.z != 0 && q.x == x * q.z ^ 2 && q.y == -y * q.z ^ 3

theorem smul_of_hasOrder {x y : ZMod p} (hxy : curve.Nonsingular x y) (h : hasOrder x y = true) :
    n • Point.some x y hxy = 0 := by
  simp only [hasOrder, Bool.and_eq_true, bne_iff_ne, beq_iff_eq] at h
  obtain ⟨⟨hz, hx⟩, hy⟩ := h
  have hdenotes : (Jacobian.smul x y 255 (n - 1)).Denotes ((n - 1) • Point.some x y hxy) :=
    Jacobian.denotes_smul hxy (by decide) (by decide)
  obtain ⟨hn, hP⟩ := hdenotes hz
  have hneg : (n - 1) • Point.some x y hxy = -Point.some x y hxy := by
    rw [hP, Point.neg_some, Point.some.injEq]
    constructor
    · rw [hx, mul_div_cancel_right₀ _ (pow_ne_zero 2 hz)]
    · rw [hy, mul_div_cancel_right₀ _ (pow_ne_zero 3 hz)]
      simp only [negY, curve, shortCurve, zero_mul, sub_zero]
  rw [show n = n - 1 + 1 from rfl, succ_nsmul, hneg, neg_add_cancel]

theorem exists_stands_basePoint : ∃ G, Stands basePoint G := by
  have h : isOnCurve 0x6b17d1f2e12c4247f8bce6e563a440f277037d812deb33a0f4a13945d898c296
      0x4fe342e2fe1a7f9b8ee7eb4a7c0f9e162bce33576b315ececbb6406837bf51f5 = true := by decide
  obtain ⟨hx, hy, hn⟩ := isOnCurve_iff.1 h
  exact ⟨_, .affine hx hy rfl rfl hn⟩

theorem smul_basePoint {G : curve.Point} (hG : Stands basePoint G) : n • G = 0 := by
  rw [basePoint] at hG
  cases hG with
  | affine hx hy hu hv hn =>
    subst hu hv
    exact smul_of_hasOrder hn (by decide +kernel)

end LedgerClient.P256
