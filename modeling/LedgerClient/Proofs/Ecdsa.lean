/-
The numbers of a signature, and how long it gets.

What is signed comes from a nonce that leads to a point and to two numbers that
are not zero (`signWithNonce_eq_some_iff`, `sign_eq_some_iff`). Both lie below
the order of the base point, so each takes at most thirty-three bytes, and the
whole signature at most seventy-two.
-/
import LedgerClient.Key.Private
import LedgerClient.Proofs.Der

namespace LedgerClient

namespace Ecdsa

open P256

variable {d k z : Nat} {message : Bytes} {sig : Signature}

/-- Both numbers may stand in a signature. -/
structure Signature.InRange (sig : Signature) : Prop where
  r_pos : 0 < sig.r
  r_lt : sig.r < n
  s_pos : 0 < sig.s
  s_lt : sig.s < n

theorem signWithNonce_eq_some_iff : signWithNonce d k z = some sig ↔
    ∃ x y, Point.mul k basePoint = .affine x y ∧ sig.r ≠ 0 ∧ sig.s ≠ 0 ∧
      sig.r = x % n ∧ sig.s = inverse n k * (z + sig.r * d) % n := by
  obtain ⟨r, s⟩ := sig
  rw [signWithNonce]
  split
  next hpoint => simp [hpoint]
  next x y hpoint =>
    simp only [hpoint, Point.affine.injEq]
    split
    next hzero =>
      refine iff_of_false nofun ?_
      rintro ⟨_, _, ⟨rfl, rfl⟩, hr, hs, rfl, rfl⟩
      exact hzero.elim hr hs
    next hzero =>
      constructor
      · rintro ⟨⟩
        exact ⟨x, y, ⟨rfl, rfl⟩, (not_or.1 hzero).1, (not_or.1 hzero).2, rfl, rfl⟩
      · rintro ⟨_, _, ⟨rfl, rfl⟩, -, -, rfl, rfl⟩
        rfl

theorem sign_eq_some_iff : sign d message = some sig ↔
    ∃ k raw, (Generator.initial d (messageNumber message)).nonce? 100 = some k ∧
      signWithNonce d k (messageNumber message) = some raw ∧ sig = raw.low := by
  simp only [sign, Option.bind_eq_bind, Option.bind_eq_some_iff, Option.pure_def, Option.some.injEq]
  constructor
  · rintro ⟨k, hk, raw, hraw, rfl⟩
    exact ⟨k, raw, hk, hraw, rfl⟩
  · rintro ⟨k, raw, hk, hraw, rfl⟩
    exact ⟨k, hk, raw, hraw, rfl⟩

theorem inRange_of_signWithNonce (h : signWithNonce d k z = some sig) : sig.InRange := by
  have hn : 0 < n := by decide
  obtain ⟨x, y, -, hr0, hs0, hr, hs⟩ := signWithNonce_eq_some_iff.1 h
  exact ⟨Nat.pos_of_ne_zero hr0, hr ▸ Nat.mod_lt _ hn, Nat.pos_of_ne_zero hs0, hs ▸ Nat.mod_lt _ hn⟩

theorem Signature.InRange.low (h : sig.InRange) : sig.low.InRange := by
  rw [Signature.low]
  split
  · exact ⟨h.r_pos, h.r_lt, Nat.sub_pos_of_lt h.s_lt, Nat.sub_lt (by decide) h.s_pos⟩
  · exact h

theorem inRange_of_sign (h : sign d message = some sig) : sig.InRange := by
  obtain ⟨k, raw, -, hraw, rfl⟩ := sign_eq_some_iff.1 h
  exact (inRange_of_signWithNonce hraw).low

namespace Signature.InRange

theorem body_length_le (h : sig.InRange) : (Der.integer sig.r ++ Der.integer sig.s).length ≤ 70 := by
  have hn : n < 256 ^ 32 := by decide
  have hr := Der.length_integer_le (Nat.lt_trans h.r_lt hn) (by decide)
  have hs := Der.length_integer_le (Nat.lt_trans h.s_lt hn) (by decide)
  rw [List.length_append]
  omega

theorem length_toDer_le (h : sig.InRange) : sig.toDer.length ≤ 72 := by
  have hbody := h.body_length_le
  rw [toDer, Der.sequence, Der.length_element (Nat.lt_of_le_of_lt hbody (by decide))]
  omega

end Signature.InRange

end Ecdsa

theorem PrivateKey.length_sign_le (k : PrivateKey) (message : Bytes) : (k.sign message).length ≤ 72 := by
  rw [sign]
  cases h : Ecdsa.sign k.d message with
  | none => exact Nat.zero_le _
  | some sig => exact (Ecdsa.inRange_of_sign h).length_toDer_le

end LedgerClient
