/-
What is signed verifies.

A signature with the nonce `k` holds the first coordinate of the multiple by `k`
of the base point. Who verifies it comes to that multiple again, and to the
opposite point if the second number was negated, which has the same first
coordinate. What is written of it is what is read, and so is the public key.
-/
import LedgerClient.Proofs.Curve.Order
import LedgerClient.Proofs.Signature

namespace LedgerClient

open WeierstrassCurve P256

/-! ## Multiples of the base point -/

namespace P256

variable {G P : curve.Point} {q : Point} {d k x y : Nat}

theorem smul_congr (hG : n • G = 0) {i j : Nat} (h : (i : ZMod n) = j) : i • G = j • G := by
  rw [nsmul_eq_mod_nsmul i hG, nsmul_eq_mod_nsmul j hG, (ZMod.natCast_eq_natCast_iff' i j n).1 h]

theorem smul_eq_neg (hG : n • G = 0) {i j : Nat} (h : (i : ZMod n) = -j) : i • G = -(j • G) := by
  have hsum : (i + j) • G = 0 • G := by
    refine smul_congr hG ?_
    rw [Nat.cast_add, h, neg_add_cancel, Nat.cast_zero]
  rw [add_nsmul, zero_nsmul] at hsum
  exact eq_neg_of_add_eq_zero_left hsum

theorem smul_ne_zero_of_lt (hG : n • G = 0) (hne : G ≠ 0) (hd : 0 < d) (hlt : d < n) : d • G ≠ 0 := by
  intro h
  have hdvd := addOrderOf_dvd_of_nsmul_eq_zero h
  rw [addOrderOf_eq_prime hG hne] at hdvd
  exact absurd (Nat.le_of_dvd hd hdvd) (Nat.not_le.2 hlt)

namespace Stands

theorem ne_zero (h : Stands (.affine x y) P) : P ≠ 0 := by
  rintro rfl
  cases h.unique .infinity

theorem exists_eq_affine (h : Stands q P) (hP : P ≠ 0) : ∃ x y, q = .affine x y ∧ isOnCurve x y = true := by
  cases h with
  | infinity => exact absurd rfl hP
  | affine hx hy hu hv hn =>
    subst hu hv
    exact ⟨_, _, rfl, isOnCurve_iff.2 ⟨hx, hy, hn⟩⟩

/-- Opposite points have the first coordinate in common. -/
theorem neg (h : Stands (.affine x y) P) (hq : Stands q (-P)) : ∃ y', q = .affine x y' := by
  cases h with
  | affine hx hy hu hv hn =>
    rw [Affine.Point.neg_some] at hq
    cases hq with
    | @affine x' y' _ _ hx' hy' hu' hv' hn' =>
      rw [(cast_inj hx' hx).1 (hu'.trans hu.symm)]
      exact ⟨y', rfl⟩

/-- A nonce that leads to a point is none that counts as zero. -/
theorem cast_ne_zero (hG : n • G = 0) (h : Stands (.affine x y) (k • G)) : (k : ZMod n) ≠ 0 := by
  intro hk
  refine h.ne_zero ?_
  rw [smul_congr hG (j := 0) (by rw [hk, Nat.cast_zero]), zero_nsmul]

end Stands

theorem Point.ofBytes?_toBytes (h : isOnCurve x y = true) :
    Point.ofBytes? (Point.toBytes (.affine x y)) = some (.affine x y) := by
  have hp : p < 256 ^ 32 := by decide
  obtain ⟨hx, hy, -⟩ := isOnCurve_iff.1 h
  have htake : (Bytes.ofNat 32 x ++ Bytes.ofNat 32 y).take 32 = Bytes.ofNat 32 x := List.take_left' (by simp)
  have hdrop : (Bytes.ofNat 32 x ++ Bytes.ofNat 32 y).drop 32 = Bytes.ofNat 32 y := List.drop_left' (by simp)
  simp only [toBytes, List.cons_append, ofBytes?, htake, hdrop, Bytes.toNat_ofNat (hx.trans hp),
    Bytes.toNat_ofNat (hy.trans hp), List.length_append, Bytes.length_ofNat, h, and_self, if_true]

end P256

/-! ## The two signatures of a nonce -/

namespace Ecdsa

variable {G : curve.Point} {q : Point} {d k z : Nat} {sig : Signature} {message : Bytes}

/-- A signature over the number `z` with the nonce `k`, or the one with the second number negated. -/
structure Made (d k z : Nat) (sig : Signature) : Prop where
  r_pos : 0 < sig.r
  r_lt : sig.r < n
  s_pos : 0 < sig.s
  s_lt : sig.s < n
  point : ∃ x y, Point.mul k basePoint = .affine x y ∧ sig.r = x % n
  product : (sig.s * k : ZMod n) = z + sig.r * d ∨ (sig.s * k : ZMod n) = -(z + sig.r * d)

theorem made_of_signWithNonce (hG : Stands basePoint G) (h : signWithNonce d k z = some sig) : Made d k z sig := by
  obtain ⟨hr0, hr, hs0, hs⟩ := inRange_of_signWithNonce h
  obtain ⟨x, y, hpoint, -, -, hrx, hsx⟩ := signWithNonce_eq_some_iff.1 h
  have hk : (k : ZMod n) ≠ 0 := Stands.cast_ne_zero (smul_basePoint hG) (hpoint ▸ hG.mul k)
  refine ⟨hr0, hr, hs0, hs, ⟨x, y, hpoint, hrx⟩, .inl ?_⟩
  rw [hsx, ZMod.natCast_mod, Nat.cast_mul, cast_inverse_of_prime hk, Nat.cast_add, Nat.cast_mul]
  field_simp

namespace Made

theorem negated (h : Made d k z sig) : Made d k z { sig with s := n - sig.s } := by
  refine ⟨h.r_pos, h.r_lt, Nat.sub_pos_of_lt h.s_lt, Nat.sub_lt (by decide) h.s_pos, h.point, ?_⟩
  rw [Nat.cast_sub h.s_lt.le, ZMod.natCast_self, zero_sub, neg_mul, neg_inj, neg_eq_iff_eq_neg]
  exact h.product.symm

theorem low (h : Made d k z sig) : Made d k z sig.low := by
  rw [Signature.low]
  split
  · exact h.negated
  · exact h

/-- The multiple that is formed to verify is the one by the nonce or the opposite one. -/
theorem verify (h : Made d k (messageNumber message) sig) (hG : Stands basePoint G) (hq : Stands q (d • G)) :
    Ecdsa.verify q message sig = true := by
  obtain ⟨x, y, hpoint, hr⟩ := h.point
  have hnonce : Stands (.affine x y) (k • G) := hpoint ▸ hG.mul k
  have hs : (sig.s : ZMod n) ≠ 0 := by
    rw [ne_eq, ZMod.natCast_eq_zero_iff]
    exact Nat.not_dvd_of_pos_of_lt h.s_pos h.s_lt
  rw [Ecdsa.verify]
  generalize hu : messageNumber message * inverse n sig.s % n = u
  generalize hv : sig.r * inverse n sig.s % n = v
  have hsum : Stands ((Point.mul u basePoint).add (Point.mul v q)) ((u + v * d) • G) := by
    rw [add_nsmul, mul_nsmul']
    exact (hG.mul u).add (hq.mul v)
  have hcast : ((u + v * d : Nat) : ZMod n) = (messageNumber message + sig.r * d) / sig.s := by
    rw [← hu, ← hv, Nat.cast_add, Nat.cast_mul, ZMod.natCast_mod, ZMod.natCast_mod, Nat.cast_mul, Nat.cast_mul,
      cast_inverse_of_prime hs]
    field_simp
  have hfound : ∃ y', (Point.mul u basePoint).add (Point.mul v q) = .affine x y' := by
    obtain hproduct | hproduct := h.product
    · rw [smul_congr (smul_basePoint hG) (j := k) (by rw [hcast, ← hproduct]; field_simp)] at hsum
      exact ⟨y, hsum.unique hnonce⟩
    · have hneg : ((u + v * d : Nat) : ZMod n) = -k := by
        rw [hcast, ← neg_eq_iff_eq_neg.2 hproduct]
        field_simp
      rw [smul_eq_neg (smul_basePoint hG) hneg] at hsum
      exact hnonce.neg hsum
  obtain ⟨y', hy'⟩ := hfound
  simp only [hy', Bool.and_eq_true, decide_eq_true_eq, beq_iff_eq]
  exact ⟨⟨⟨⟨h.r_pos, h.r_lt⟩, h.s_pos⟩, h.s_lt⟩, hr.symm⟩

end Made

theorem exists_made_of_sign (hG : Stands basePoint G) (h : sign d message = some sig) :
    ∃ k, Made d k (messageNumber message) sig := by
  obtain ⟨k, raw, -, hraw, rfl⟩ := sign_eq_some_iff.1 h
  exact ⟨k, (made_of_signWithNonce hG hraw).low⟩

end Ecdsa

/-! ## Keys -/

namespace PrivateKey

variable {G : curve.Point}

theorem stands_publicPoint (key : PrivateKey) (hG : Stands basePoint G) : Stands key.publicPoint (key.d • G) :=
  hG.mul key.d

theorem ofBytes?_publicKey (key : PrivateKey) (hG : Stands basePoint G) :
    Point.ofBytes? key.publicKey = some key.publicPoint := by
  have hne : key.d • G ≠ 0 := smul_ne_zero_of_lt (smul_basePoint hG) hG.ne_zero key.pos key.lt
  obtain ⟨x, y, hq, hon⟩ := (key.stands_publicPoint hG).exists_eq_affine hne
  rw [publicKey, hq, Point.ofBytes?_toBytes hon]

end PrivateKey

theorem Ecdsa.Made.verifySignature {key : PrivateKey} {k : Nat} {message : Bytes} {sig : Signature}
    (h : Made key.d k (messageNumber message) sig) :
    LedgerClient.verifySignature message sig.toDer key.publicKey = true := by
  obtain ⟨G, hG⟩ := exists_stands_basePoint
  have hrange : sig.InRange := ⟨h.r_pos, h.r_lt, h.s_pos, h.s_lt⟩
  rw [LedgerClient.verifySignature, key.ofBytes?_publicKey hG, hrange.ofDer?_eq_some_iff.2 rfl]
  exact h.verify hG (key.stands_publicPoint hG)

/-- A signature that is made verifies under the public key of the key, and of the two with one nonce
both do; what stands for a signature where none is found does not. -/
theorem sign_verifies (key : PrivateKey) (message : Bytes) :
    verifySignature message (key.sign message) key.publicKey = (Ecdsa.sign key.d message).isSome ∧
    ∀ nonce raw, Ecdsa.signWithNonce key.d nonce (Ecdsa.messageNumber message) = some raw →
      verifySignature message raw.toDer key.publicKey = true ∧
      verifySignature message { raw with s := n - raw.s : Ecdsa.Signature }.toDer key.publicKey = true := by
  obtain ⟨G, hG⟩ := exists_stands_basePoint
  refine ⟨?_, fun nonce raw hraw => ?_⟩
  · rw [PrivateKey.sign]
    cases hsign : Ecdsa.sign key.d message with
    | none =>
      rw [verifySignature]
      split
      next hder => cases hder
      next => rfl
    | some sig =>
      obtain ⟨k, hk⟩ := Ecdsa.exists_made_of_sign hG hsign
      exact hk.verifySignature
  · have h := Ecdsa.made_of_signWithNonce hG hraw
    exact ⟨h.verifySignature, h.negated.verifySignature⟩

def sampleKey : PrivateKey := ⟨2, by decide, by decide⟩

/-- A signature over two bytes whose second number gets negated. -/
def sampleSignature : Ecdsa.Signature where
  r := 42877656971275811310262564894490210024759287182177196162425349131675946712428
  s := 78764081448854740616576032237244400446599211498057425683318563326489255045748

theorem sampleSignature_verifies :
    Ecdsa.signWithNonce sampleKey.d 3 (Ecdsa.messageNumber [103, 111]) = some sampleSignature ∧
    sampleSignature.low ≠ sampleSignature ∧
    verifySignature [103, 111] sampleSignature.toDer sampleKey.publicKey = true ∧
    verifySignature [103, 111] sampleSignature.low.toDer sampleKey.publicKey = true := by
  have hraw : Ecdsa.signWithNonce sampleKey.d 3 (Ecdsa.messageNumber [103, 111]) = some sampleSignature := by
    decide +kernel
  obtain ⟨h, hlow⟩ := (sign_verifies sampleKey [103, 111]).2 3 sampleSignature hraw
  exact ⟨hraw, by decide, h, hlow⟩

end LedgerClient
