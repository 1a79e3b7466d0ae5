/-
The one form of a signature.

Whatever nonce is used, both numbers of a signature that is made lie strictly
between zero and the order of the base point, and the second is not above the
middle: of an odd order the larger half is what negation takes down. What is
written is the only strict spelling of the two numbers, with no zero byte that
could be left out, and the only bytes that the reader takes for them.
-/
import LedgerClient.Proofs.Ecdsa

namespace LedgerClient

namespace Ecdsa

open P256

variable {sig : Signature} {bs : Bytes}

namespace Signature

/-- A signature in strict spelling: one sequence of two numbers that are not negative, and nothing else. -/
def IsSpelledBy (sig : Signature) (bs : Bytes) : Prop :=
  ∃ r s first second, Der.IsNatContent sig.r r ∧ Der.IsNatContent sig.s s ∧
    Der.IsElement Der.integerTag r first ∧ Der.IsElement Der.integerTag s second ∧
    Der.IsElement Der.sequenceTag (first ++ second) bs

/-- The bytes are the signature in its one form: the second number is the smaller of the two that go
with the first, and no other bytes spell the signature or are read as it. -/
structure IsCanonical (sig : Signature) (bs : Bytes) : Prop where
  r_pos : 1 ≤ sig.r
  r_lt : sig.r < n
  s_pos : 1 ≤ sig.s
  s_le : sig.s ≤ (n - 1) / 2
  spelled_iff : ∀ bs', sig.IsSpelledBy bs' ↔ bs' = bs
  read_iff : ∀ bs', ofDer? bs' = some sig ↔ bs' = bs

/-! ## Spelling -/

namespace InRange

theorem content_lt {m : Nat} (h : m < n) : (Der.natContent m).length < 256 ^ 126 := by
  have hn : n < 256 ^ 32 := by decide
  exact Nat.lt_of_le_of_lt (Der.length_natContent_le (Nat.lt_trans h hn)) (by decide)

theorem body_lt (h : sig.InRange) : (Der.integer sig.r ++ Der.integer sig.s).length < 256 ^ 126 :=
  Nat.lt_of_le_of_lt h.body_length_le (by decide)

theorem isSpelledBy_iff (h : sig.InRange) : sig.IsSpelledBy bs ↔ bs = sig.toDer := by
  simp only [IsSpelledBy, Der.isNatContent_iff]
  constructor
  · rintro ⟨_, _, first, second, rfl, rfl, hfirst, hsecond, hbs⟩
    rw [Der.isElement_iff (content_lt h.r_lt)] at hfirst
    rw [Der.isElement_iff (content_lt h.s_lt)] at hsecond
    subst hfirst hsecond
    exact (Der.isElement_iff h.body_lt).1 hbs
  · rintro rfl
    exact ⟨_, _, _, _, rfl, rfl, (Der.isElement_iff (content_lt h.r_lt)).2 rfl,
      (Der.isElement_iff (content_lt h.s_lt)).2 rfl, (Der.isElement_iff h.body_lt).2 rfl⟩

/-- The reader takes no other bytes for a signature than those that are written. -/
theorem ofDer?_eq_some_iff (h : sig.InRange) : ofDer? bs = some sig ↔ bs = sig.toDer := by
  constructor
  · intro hread
    simp only [ofDer?, Option.bind_eq_bind, Option.bind_eq_some_iff, Prod.exists] at hread
    obtain ⟨body, hbody, r, us, hr, s, rest, hs, hif⟩ := hread
    split at hif
    next hrest =>
      obtain ⟨rfl, -⟩ := hrest
      cases hif
      obtain rfl := (Der.readNat_eq_some_iff (content_lt h.r_lt)).1 hr
      obtain rfl := (Der.readNat_eq_some_iff (content_lt h.s_lt)).1 hs
      rw [List.append_nil] at hbody
      exact (Der.readOnly_eq_some_iff h.body_lt).1 hbody
    next => cases hif
  · rintro rfl
    have hbody : Der.readOnly Der.sequenceTag sig.toDer = some (Der.integer sig.r ++ Der.integer sig.s) :=
      (Der.readOnly_eq_some_iff h.body_lt).2 rfl
    have hr : Der.readNat (Der.integer sig.r ++ Der.integer sig.s) = some (sig.r, Der.integer sig.s) :=
      (Der.readNat_eq_some_iff (content_lt h.r_lt)).2 rfl
    have hs : Der.readNat (Der.integer sig.s) = some (sig.s, []) :=
      (Der.readNat_eq_some_iff (content_lt h.s_lt)).2 (List.append_nil _).symm
    simp only [ofDer?, Option.bind_eq_bind, hbody, Option.bind_some, hr, hs]
    rw [if_pos ⟨trivial, h.r_pos, h.r_lt, h.s_pos, h.s_lt⟩]

end InRange

end Signature

/-! ## Signatures that are made -/

/-- The order is odd, so one of a number and its opposite lies in the lower half. -/
theorem Signature.low_s_le (sig : Signature) : sig.low.s ≤ (n - 1) / 2 := by
  have hodd : n % 2 = 1 := by decide
  rw [low]
  split
  next hhigh =>
    dsimp only
    omega
  next hlow => omega

theorem Signature.InRange.isCanonical_low (h : sig.InRange) : sig.low.IsCanonical sig.low.toDer where
  r_pos := h.low.r_pos
  r_lt := h.low.r_lt
  s_pos := h.low.s_pos
  s_le := sig.low_s_le
  spelled_iff _ := h.low.isSpelledBy_iff
  read_iff _ := h.low.ofDer?_eq_some_iff

end Ecdsa

/-- **Signatures have one form.** What is signed is the one strict spelling of two numbers in range,
the second in the lower half, and the strict reader finds exactly these two numbers in these bytes and
in no others; if no nonce can be found, there are no bytes. The same holds of what any other nonce
gives. -/
theorem signatures_canonical (key : PrivateKey) (message : Bytes) :
    (Ecdsa.sign key.d message = none ∧ key.sign message = [] ∨
      ∃ sig, Ecdsa.sign key.d message = some sig ∧ sig.IsCanonical (key.sign message)) ∧
    ∀ nonce raw, Ecdsa.signWithNonce key.d nonce (Ecdsa.messageNumber message) = some raw →
      raw.low.IsCanonical raw.low.toDer := by
  refine ⟨?_, fun nonce raw hraw => (Ecdsa.inRange_of_signWithNonce hraw).isCanonical_low⟩
  rw [PrivateKey.sign]
  cases hsign : Ecdsa.sign key.d message with
  | none => exact .inl ⟨rfl, rfl⟩
  | some sig =>
    obtain ⟨k, raw, -, hraw, rfl⟩ := Ecdsa.sign_eq_some_iff.1 hsign
    exact .inr ⟨_, rfl, (Ecdsa.inRange_of_signWithNonce hraw).isCanonical_low⟩

/-- A signature with the nonce 4 whose first number needs a zero byte in front and whose second, once
negated, takes one byte less. -/
def unevenSignature : Ecdsa.Signature where
  r := 102369864249653057322725350723741461599905180004905897298779971437827381725266
  s := 115751695745772013713172840113677287944669335086482334995610570219658354478290

theorem signatures_canonical_uneven :
    Ecdsa.signWithNonce 2 4 (Ecdsa.messageNumber [4, 131]) = some unevenSignature ∧
    unevenSignature.low ≠ unevenSignature ∧
    (Der.natContent unevenSignature.low.r).length = 33 ∧ (Der.natContent unevenSignature.low.s).length = 31 ∧
    unevenSignature.low.IsCanonical unevenSignature.low.toDer := by
  have hraw : Ecdsa.signWithNonce 2 4 (Ecdsa.messageNumber [4, 131]) = some unevenSignature := by decide +kernel
  have hcanonical := (signatures_canonical ⟨2, by decide, by decide⟩ [4, 131]).2 4 unevenSignature hraw
  exact ⟨hraw, by decide, by decide +kernel, by decide +kernel, hcanonical⟩

end LedgerClient
