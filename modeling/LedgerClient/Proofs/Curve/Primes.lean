/-
The two numbers of the curve are primes.

A number `m` is prime if the powers of some `a` modulo `m` come to one at the
exponent `m - 1` and not before, and the prime factors of `m - 1` are enough to
see that. The larger ones of those are shown to be prime in the same way, so
that the whole is a table in which every number rests on earlier ones.
-/
import LedgerClient.Proofs.Curve.Modular
import Mathlib.Data.List.Prime
import Mathlib.NumberTheory.LucasPrimality
import Mathlib.Tactic.NormNum.Prime

namespace LedgerClient.P256

/-- A number said to be prime, a number of full order modulo it, and the factors of the number
before it. -/
structure Certificate where
  number : Nat
  generator : Nat
  factors : List Nat

namespace Certificate

/-- Whether the generator has full order, the factors being primes. -/
def hasFullOrder (c : Certificate) : Bool :=
  c.factors.prod == c.number - 1
    && powMod c.number c.generator (c.number - 1) % c.number == 1 % c.number
    && c.factors.all fun q => powMod c.number c.generator ((c.number - 1) / q) % c.number != 1 % c.number

/-- Whether every certificate rests on `known` numbers and on those before it. -/
def areValid : (known : List Nat) → List Certificate → Bool
  | _, [] => true
  | known, c :: cs => c.factors.all (known.contains ·) && c.hasFullOrder && areValid (c.number :: known) cs

theorem cast_eq_one_iff {m k : Nat} : (k : ZMod m) = 1 ↔ k % m = 1 % m := by
  rw [← Nat.cast_one, ZMod.natCast_eq_natCast_iff']

theorem prime {c : Certificate} (hfactors : ∀ q ∈ c.factors, q.Prime) (h : c.hasFullOrder = true) :
    c.number.Prime := by
  simp only [hasFullOrder, Bool.and_eq_true, beq_iff_eq, List.all_eq_true, bne_iff_ne] at h
  obtain ⟨⟨hprod, hone⟩, hne⟩ := h
  refine lucas_primality c.number (c.generator : ZMod c.number) ?_ fun q hq hdvd => ?_
  · rw [← cast_powMod, cast_eq_one_iff]
    exact hone
  · -- a prime that divides the product is one of the factors
    have hmem : q ∈ c.factors := by
      rw [← hprod] at hdvd
      obtain ⟨q', hq', hdvd'⟩ := (Prime.dvd_prod_iff hq.prime).1 hdvd
      rwa [(Nat.prime_dvd_prime_iff_eq hq (hfactors q' hq')).1 hdvd']
    rw [← cast_powMod, ne_eq, cast_eq_one_iff]
    exact hne q hmem

theorem prime_of_areValid {known : List Nat} {cs : List Certificate} (hknown : ∀ q ∈ known, q.Prime)
    (h : areValid known cs = true) : ∀ c ∈ cs, c.number.Prime := by
  induction cs generalizing known with
  | nil => simp
  | cons c cs ih =>
    simp only [areValid, Bool.and_eq_true, List.all_eq_true, List.contains_eq_mem, decide_eq_true_eq] at h
    obtain ⟨⟨hfactors, hfull⟩, hrest⟩ := h
    have hc : c.number.Prime := prime (fun q hq => hknown q (hfactors q hq)) hfull
    exact List.forall_mem_cons.2 ⟨hc, ih (List.forall_mem_cons.2 ⟨hc, hknown⟩) hrest⟩

end Certificate

/-- The primes at the bottom of the table. -/
def smallPrimes : List Nat :=
  [2, 3, 5, 7, 11, 17, 23, 29, 41, 43, 53, 71, 107, 127, 131, 173, 197, 257, 311, 373, 641, 1297, 1531, 2411,
    3023, 3407, 3677, 3769, 16879, 17449, 18169, 38189, 65537, 78283, 126241, 155317, 490463, 704251, 3969899,
    6700417, 9350987]

theorem prime_of_mem_smallPrimes : ∀ q ∈ smallPrimes, q.Prime := by
  simp only [smallPrimes, List.forall_mem_cons, List.not_mem_nil, false_imp_iff, implies_true, and_true]
  norm_num

/-- The numbers of the curve and the larger primes that they rest on. -/
def certificates : List Certificate :=
  [⟨204061199, 11, [2, 11, 23, 107, 3769]⟩,
    ⟨34282281433, 17, [2, 2, 2, 3, 7, 204061199]⟩,
    ⟨66417393611, 6, [2, 5, 53, 173, 197, 3677]⟩,
    ⟨11290956913871, 13, [2, 5, 17, 66417393611]⟩,
    ⟨46076956964474543, 5, [2, 23, 18169, 78283, 704251]⟩,
    ⟨774023187263532362759620327192479577272145303, 3,
      [2, 3, 3, 2411, 34282281433, 11290956913871, 46076956964474543]⟩,
    ⟨835945042244614951780389953367877943453916927241, 11,
      [2, 2, 2, 3, 3, 3, 5, 774023187263532362759620327192479577272145303]⟩,
    ⟨p, 6, [2, 3, 5, 5, 17, 257, 641, 1531, 65537, 490463, 6700417,
      835945042244614951780389953367877943453916927241]⟩,
    ⟨187019741, 2, [2, 2, 5, 9350987]⟩,
    ⟨311245691, 2, [2, 5, 7, 17, 29, 29, 311]⟩,
    ⟨622491383, 5, [2, 311245691]⟩,
    ⟨1002328039319, 19, [2, 126241, 3969899]⟩,
    ⟨191039911, 3, [2, 3, 5, 41, 155317]⟩,
    ⟨208150935158385979, 2, [2, 3, 11, 43, 127, 3023, 191039911]⟩,
    ⟨2624747550333869278416773953, 7, [2, 2, 2, 2, 2, 2, 3, 3, 1297, 16879, 208150935158385979]⟩,
    ⟨n, 7, [2, 2, 2, 2, 3, 71, 131, 373, 3407, 17449, 38189, 187019741, 622491383, 1002328039319,
      2624747550333869278416773953]⟩]

theorem prime_of_mem_certificates {q : Nat} (h : q ∈ certificates.map (·.number)) : q.Prime := by
  obtain ⟨c, hc, rfl⟩ := List.mem_map.1 h
  exact Certificate.prime_of_areValid prime_of_mem_smallPrimes (by decide +kernel) c hc

theorem prime_p : p.Prime := prime_of_mem_certificates (by decide)

theorem prime_n : n.Prime := prime_of_mem_certificates (by decide)

instance : Fact p.Prime := ⟨prime_p⟩

instance : Fact n.Prime := ⟨prime_n⟩

end LedgerClient.P256
