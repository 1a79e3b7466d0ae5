/-
Arithmetic modulo a number, as it is done on numbers, means what it says: the
inverse found by Euclid's algorithm is one (`inverse_mul`), and a power by
squaring is the power (`cast_powMod`).
-/
import LedgerClient.Curve.P256
import Mathlib.Algebra.Field.ZMod
import Mathlib.Tactic.LinearCombination

namespace LedgerClient.P256

/-! ## Inverses -/

/-- Euclid's algorithm ends with the factor that makes the greatest common divisor out of `a`, if
the factors it began with made `r` and `s`. -/
theorem euclid_mul {m a : Nat} (r s : Nat) (t u : Int) (ht : (t : ZMod m) * a = r) (hu : (u : ZMod m) * a = s) :
    (euclid r s t u : ZMod m) * a = Nat.gcd r s := by
  fun_induction euclid r s t u with
  | case1 r t u =>
    rw [Nat.gcd_zero_right]
    exact ht
  | case2 r s t u hs ih =>
    have hstep : ((t - (r / s : Nat) * u : Int) : ZMod m) * a = (r % s : Nat) := by
      have hdiv : ((s * (r / s) + r % s : Nat) : ZMod m) = r := by rw [Nat.div_add_mod]
      simp only [Nat.cast_add, Nat.cast_mul] at hdiv
      simp only [Int.cast_sub, Int.cast_mul, Int.cast_natCast]
      linear_combination ht - (↑(r / s) : ZMod m) * hu - hdiv
    rw [ih hu hstep, Nat.gcd_comm r s, Nat.gcd_rec s r, Nat.gcd_comm s]

theorem cast_inverse {m : Nat} (hm : 0 < m) (a : Nat) : (inverse m a : ZMod m) = (euclid m (a % m) 0 1 : Int) := by
  have hpos : 0 ≤ euclid m (a % m) 0 1 % (m : Int) := Int.emod_nonneg _ (by omega)
  rw [inverse, ← Int.cast_natCast, Int.toNat_of_nonneg hpos]
  exact (ZMod.intCast_eq_intCast_iff _ _ m).2 (Int.mod_modEq _ _)

theorem inverse_mul {m a : Nat} (hm : 0 < m) (h : Nat.Coprime m a) : (inverse m a : ZMod m) * a = 1 := by
  have ha : ((a % m : Nat) : ZMod m) = a := ZMod.natCast_mod a m
  have hgcd : Nat.gcd m (a % m) = 1 := by
    rw [Nat.gcd_comm, ← Nat.gcd_rec]
    exact h
  rw [cast_inverse hm, euclid_mul m (a % m) 0 1 (by simp) (by simp [ha]), hgcd, Nat.cast_one]

/-- Modulo a prime every number but zero has its inverse. -/
theorem cast_inverse_of_prime {m : Nat} [Fact m.Prime] {a : Nat} (ha : (a : ZMod m) ≠ 0) :
    (inverse m a : ZMod m) = (a : ZMod m)⁻¹ := by
  have hm : m.Prime := Fact.out
  have hco : Nat.Coprime m a := (Nat.Prime.coprime_iff_not_dvd hm).2 fun h => ha ((ZMod.natCast_eq_zero_iff a m).2 h)
  exact eq_inv_of_mul_eq_one_left (inverse_mul hm.pos hco)

/-! ## Powers -/

theorem cast_powMod (m a e : Nat) : (powMod m a e : ZMod m) = (a : ZMod m) ^ e := by
  fun_induction powMod m a e with
  | case1 a => simp
  | case2 a e h half hodd ih =>
    have he : e = 2 * (e / 2) + 1 := by omega
    rw [ZMod.natCast_mod, Nat.cast_mul, ih, ZMod.natCast_mod, Nat.cast_mul]
    conv_rhs => rw [he, pow_succ, pow_mul, sq]
  | case3 a e h half heven ih =>
    have he : e = 2 * (e / 2) := by omega
    rw [ih, ZMod.natCast_mod, Nat.cast_mul]
    conv_rhs => rw [he, pow_mul, sq]

end LedgerClient.P256
