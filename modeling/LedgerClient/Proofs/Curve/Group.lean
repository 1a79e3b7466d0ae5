/-
The points of the curve are a group.

`Stands q P` says that the coordinates `q` are those of the point `P` of the
curve, whose points Mathlib shows to be a group. Adding coordinates stands for
adding points, and so does taking a multiple.
-/
import LedgerClient.Proofs.Curve.Primes
import Mathlib.AlgebraicGeometry.EllipticCurve.Affine.Point
import Mathlib.Tactic.FieldSimp

namespace LedgerClient.P256

open WeierstrassCurve

/-! ## Numbers below the prime -/

theorem cast_prime_sub {k : Nat} (hk : k ≤ p) : ((p - k : Nat) : ZMod p) = -k := by
  rw [Nat.cast_sub hk, ZMod.natCast_self, zero_sub]

theorem cast_sub {x y : Nat} (hy : y ≤ p) : (sub x y : ZMod p) = x - y := by
  rw [sub, ZMod.natCast_mod, Nat.cast_add, cast_prime_sub hy, ← sub_eq_add_neg]

theorem sub_lt (x y : Nat) : sub x y < p := Nat.mod_lt _ (by decide)

theorem cast_cubic (x : Nat) : (cubic x : ZMod p) = x ^ 3 - 3 * x + b := by
  rw [cubic, ZMod.natCast_mod, Nat.cast_add, Nat.cast_add, Nat.cast_mul (p - 3), cast_prime_sub (by decide)]
  simp only [Nat.cast_mul, Nat.cast_ofNat]
  ring

theorem cast_inj {x y : Nat} (hx : x < p) (hy : y < p) : (x : ZMod p) = y ↔ x = y := by
  rw [ZMod.natCast_eq_natCast_iff', Nat.mod_eq_of_lt hx, Nat.mod_eq_of_lt hy]

/-! ## The curve -/

/-- The curve `y² = x³ - 3 x + c`. -/
def shortCurve {F : Type} [Field F] (c : F) : Affine F where
  a₁ := 0
  a₂ := 0
  a₃ := 0
  a₄ := -3
  a₆ := c

abbrev curve : Affine (ZMod p) := shortCurve (b : ZMod p)

theorem discriminant_ne_zero : curve.Δ ≠ 0 := by
  have h : curve.Δ = 1728 - 432 * (b : ZMod p) ^ 2 := by
    simp only [curve, shortCurve, Δ, b₂, b₄, b₆, b₈]
    ring
  rw [h]
  decide +kernel

/-- A pair of numbers passes the check for the curve if it is a point of it. -/
theorem isOnCurve_iff {x y : Nat} :
    isOnCurve x y = true ↔ x < p ∧ y < p ∧ curve.Nonsingular (x : ZMod p) (y : ZMod p) := by
  rw [← Affine.equation_iff_nonsingular_of_Δ_ne_zero discriminant_ne_zero, Affine.equation_iff]
  have hcubic : cubic x % p = cubic x := Nat.mod_eq_of_lt (Nat.mod_lt _ (by decide))
  have heq : y * y % p = cubic x ↔ (y : ZMod p) ^ 2 = x ^ 3 - 3 * x + b := by
    rw [sq, ← cast_cubic, ← Nat.cast_mul, ZMod.natCast_eq_natCast_iff', hcubic]
  simp only [isOnCurve, Bool.and_eq_true, decide_eq_true_eq, beq_iff_eq, heq, and_assoc, curve, shortCurve,
    zero_mul, add_zero, neg_mul, ← sub_eq_add_neg]

/-! ## What coordinates stand for -/

/-- The coordinates are those of the point. -/
inductive Stands : Point → curve.Point → Prop where
  | infinity : Stands .infinity 0
  | affine {x y : Nat} {u v : ZMod p} (hx : x < p) (hy : y < p) (hu : (x : ZMod p) = u) (hv : (y : ZMod p) = v)
      (h : curve.Nonsingular u v) : Stands (.affine x y) (.some u v h)

namespace Stands

variable {q r : Point} {P Q : curve.Point}

/-- A point has one pair of coordinates. -/
theorem unique (hq : Stands q P) (hr : Stands r P) : q = r := by
  cases hq with
  | infinity => cases hr; rfl
  | affine hx hy hu hv h =>
    cases hr with
    | affine hx' hy' hu' hv' _ =>
      rw [(cast_inj hx hx').1 (hu.trans hu'.symm), (cast_inj hy hy').1 (hv.trans hv'.symm)]

theorem onLine {slope x₁ y₁ x₂ : Nat} (hx₁ : x₁ < p) (hy₁ : y₁ < p) (hx₂ : x₂ < p) {l : ZMod p}
    (hl : (slope : ZMod p) = l)
    (h : curve.Nonsingular (curve.addX x₁ x₂ l) (curve.addY x₁ x₂ y₁ l)) :
    Stands (Point.onLine slope x₁ y₁ x₂) (.some _ _ h) := by
  have hx : ((sub (sub (slope * slope % p) x₁) x₂ : Nat) : ZMod p) = curve.addX x₁ x₂ l := by
    rw [cast_sub hx₂.le, cast_sub hx₁.le, ZMod.natCast_mod, Nat.cast_mul, hl]
    simp only [Affine.addX, curve, shortCurve]
    ring
  refine .affine (sub_lt _ _) (sub_lt _ _) hx ?_ h
  rw [cast_sub hy₁.le, ZMod.natCast_mod, Nat.cast_mul, cast_sub (sub_lt _ _).le, hx, hl]
  simp only [Affine.addY, Affine.negAddY, Affine.negY, curve, shortCurve]
  ring

/-- The slope of the tangent. -/
theorem cast_tangent {x y : Nat} (hy : curve.negY x y ≠ y) :
    (((3 * x * x + (p - 3)) * inverse p (2 * y % p) % p : Nat) : ZMod p) = curve.slope x x y y := by
  have hy2 : ((2 * y % p : Nat) : ZMod p) = 2 * y := by rw [ZMod.natCast_mod, Nat.cast_mul, Nat.cast_ofNat]
  have hne : (2 * y : ZMod p) ≠ 0 := by
    intro h
    refine hy ?_
    simp only [Affine.negY, curve, shortCurve]
    linear_combination -h
  have hdown : (2 * y : ZMod p) = y - curve.negY x y := by
    simp only [Affine.negY, curve, shortCurve]
    ring
  have hup : ((3 * x * x + (p - 3) : Nat) : ZMod p) = 3 * x ^ 2 + 2 * curve.a₂ * x + curve.a₄ - curve.a₁ * y := by
    rw [Nat.cast_add, cast_prime_sub (by decide)]
    simp only [curve, shortCurve, Nat.cast_mul, Nat.cast_ofNat]
    ring
  rw [Affine.slope_of_Y_ne rfl hy.symm, ZMod.natCast_mod, Nat.cast_mul, cast_inverse_of_prime (by rwa [hy2]), hy2,
    hup, hdown, div_eq_mul_inv]

/-- The slope of the line through two points. -/
theorem cast_chord {x₁ y₁ x₂ y₂ : Nat} (hx₁ : x₁ < p) (hy₁ : y₁ < p) (hx : (x₁ : ZMod p) ≠ x₂) :
    ((sub y₂ y₁ * inverse p (sub x₂ x₁) % p : Nat) : ZMod p) = curve.slope x₁ x₂ y₁ y₂ := by
  have hne : (sub x₂ x₁ : ZMod p) ≠ 0 := by
    rw [cast_sub hx₁.le]
    exact sub_ne_zero.2 hx.symm
  rw [Affine.slope_of_X_ne hx, ZMod.natCast_mod, Nat.cast_mul, cast_inverse_of_prime hne, cast_sub hx₁.le,
    cast_sub hy₁.le, ← div_eq_mul_inv, ← neg_sub, ← neg_sub (x₁ : ZMod p), neg_div_neg_eq]

theorem add (hq : Stands q P) (hr : Stands r Q) : Stands (q.add r) (P + Q) := by
  cases hq with
  | infinity =>
    rw [zero_add]
    exact hr
  | @affine x₁ y₁ u₁ v₁ hx₁ hy₁ hu₁ hv₁ h₁ =>
  cases hr with
  | infinity =>
    rw [add_zero]
    exact .affine hx₁ hy₁ hu₁ hv₁ h₁
  | @affine x₂ y₂ u₂ v₂ hx₂ hy₂ hu₂ hv₂ h₂ =>
  subst hu₁ hv₁ hu₂ hv₂
  rw [Point.add]
  split
  next hx =>
    subst hx
    have hneg : (y₁ + y₂) % p = 0 ↔ (y₁ : ZMod p) = curve.negY x₁ y₂ := by
      rw [← Nat.dvd_iff_mod_eq_zero, ← ZMod.natCast_eq_zero_iff, Nat.cast_add, add_eq_zero_iff_eq_neg]
      simp only [Affine.negY, curve, shortCurve, zero_mul, sub_zero]
    split
    next hy =>
      rw [Affine.Point.add_of_Y_eq rfl (hneg.1 hy)]
      exact .infinity
    next hy =>
      -- two points with one first coordinate that are not opposite are equal
      have hne : (y₁ : ZMod p) ≠ curve.negY x₁ y₂ := fun he => hy (hneg.2 he)
      have hyy : y₁ = y₂ := (cast_inj hy₁ hy₂).1 (Affine.Y_eq_of_Y_ne h₁.1 h₂.1 rfl hne)
      subst hyy
      rw [Affine.Point.add_self_of_Y_ne hne]
      exact onLine hx₁ hy₁ hx₁ (cast_tangent hne.symm) _
  next hx =>
    have hne : (x₁ : ZMod p) ≠ x₂ := fun he => hx ((cast_inj hx₁ hx₂).1 he)
    rw [Affine.Point.add_of_X_ne hne]
    exact onLine hx₁ hy₁ hx₂ (cast_chord hx₁ hy₁ hne) _

theorem mul (hq : Stands q P) (k : Nat) : Stands (Point.mul k q) (k • P) := by
  induction k, q using Point.mul.induct generalizing P with
  | case1 q =>
    rw [Point.mul, dif_pos rfl, zero_nsmul]
    exact .infinity
  | case2 k q hk hodd ih =>
    have hsum : k • P = P + (k / 2) • (P + P) := by
      rw [← two_nsmul, smul_smul, ← succ_nsmul']
      congr 1
      omega
    rw [Point.mul, dif_neg hk, if_pos hodd, hsum]
    exact hq.add (ih (hq.add hq))
  | case3 k q hk heven ih =>
    have hsum : k • P = (k / 2) • (P + P) := by
      rw [← two_nsmul, smul_smul]
      congr 1
      omega
    rw [Point.mul, dif_neg hk, if_neg heven, hsum]
    exact ih (hq.add hq)

end Stands

end LedgerClient.P256
