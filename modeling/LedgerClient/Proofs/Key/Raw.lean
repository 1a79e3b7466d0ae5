/-
Which bytes are taken for a key.

Thirty-two bytes are a key if their number is positive and below the order of
the base point. Up to eight fewer are a key as well: they stand for the number
they spell, so that zeros in front of a key may be left out. A key is then made
of its own thirty-two bytes, of these without some of the zeros they begin with,
and of no others (`ofBytes?_eq_some_iff_append`). Among strings of one length, a
key has one.
-/
import LedgerClient.Proofs.Key.Import

namespace LedgerClient

/-! ## Zeros in front -/

namespace Bytes

theorem toNat_replicate_append (zeros : Nat) (bs : Bytes) : toNat (List.replicate zeros 0 ++ bs) = toNat bs := by
  induction zeros with
  | zero => rfl
  | succ zeros ih => rw [List.replicate_succ, List.cons_append, toNat_zero_cons, ih]

/-- In more bytes than it has, a number begins with zeros. -/
theorem ofNat_add_length (zeros : Nat) (bs : Bytes) :
    ofNat (zeros + bs.length) (toNat bs) = List.replicate zeros 0 ++ bs := by
  have h := ofNat_toNat (List.replicate zeros 0 ++ bs)
  rwa [toNat_replicate_append, List.length_append, List.length_replicate] at h

end Bytes

/-! ## Raw keys -/

namespace PrivateKey

variable {k : PrivateKey} {as bs : Bytes}

theorem exists_ofBytes?_eq_some_iff : (∃ k, ofBytes? bs = some k) ↔
    (24 ≤ bs.length ∧ bs.length ≤ 32) ∧ 0 < Bytes.toNat bs ∧ Bytes.toNat bs < P256.n := by
  constructor
  · intro ⟨k, hk⟩
    obtain ⟨hlength, hvalue⟩ := ofBytes?_eq_some_iff.1 hk
    rw [hvalue]
    exact ⟨hlength, k.pos, k.lt⟩
  · intro ⟨hlength, hpos, hlt⟩
    exact ⟨⟨Bytes.toNat bs, hpos, hlt⟩, ofBytes?_eq_some_iff.2 ⟨hlength, rfl⟩⟩

theorem ofBytes?_eq_some_iff_append :
    ofBytes? bs = some k ↔ ∃ zeros, zeros ≤ 8 ∧ k.toBytes = List.replicate zeros 0 ++ bs := by
  rw [ofBytes?_eq_some_iff]
  constructor
  · intro ⟨⟨hmin, hmax⟩, hvalue⟩
    refine ⟨32 - bs.length, by omega, ?_⟩
    rw [← Bytes.ofNat_add_length, Nat.sub_add_cancel hmax, hvalue]
    rfl
  · intro ⟨zeros, hzeros, h⟩
    have hlength : zeros + bs.length = 32 := by
      rw [← Bytes.length_ofNat 32 k.d, ← toBytes, h, List.length_append, List.length_replicate]
    refine ⟨by omega, ?_⟩
    rw [← k.toNat_toBytes, h, Bytes.toNat_replicate_append]

theorem eq_of_ofBytes?_eq_some (ha : ofBytes? as = some k) (hb : ofBytes? bs = some k)
    (hlength : as.length = bs.length) : as = bs := by
  obtain ⟨-, hvalue⟩ := ofBytes?_eq_some_iff.1 ha
  obtain ⟨-, hvalue'⟩ := ofBytes?_eq_some_iff.1 hb
  rw [← Bytes.ofNat_toNat as, ← Bytes.ofNat_toNat bs, hvalue, hvalue', hlength]

/-- **Raw keys, up to zeros in front.** A string of thirty-two bytes is a key exactly if its number is positive and
below the order, and so is one that is shorter by up to eight bytes; no other string is a key. The strings that are one
and the same key are its own thirty-two bytes and these without some of the zeros in front, so no two of them have one
length. -/
theorem raw_keys_up_to_zeros (bs : Bytes) :
    ((∃ k, ofBytes? bs = some k) ↔
      (bs.length = 32 ∨ 24 ≤ bs.length ∧ bs.length < 32) ∧ 0 < Bytes.toNat bs ∧ Bytes.toNat bs < P256.n) ∧
    (∀ k, ofBytes? bs = some k ↔ ∃ zeros, zeros ≤ 8 ∧ k.toBytes = List.replicate zeros 0 ++ bs) ∧
    ∀ k as, ofBytes? as = some k → ofBytes? bs = some k → (as = bs ↔ as.length = bs.length) := by
  have hlength : bs.length = 32 ∨ 24 ≤ bs.length ∧ bs.length < 32 ↔ 24 ≤ bs.length ∧ bs.length ≤ 32 := by omega
  refine ⟨?_, fun k => ofBytes?_eq_some_iff_append, fun k as ha hb => ?_⟩
  · rw [hlength]
    exact exists_ofBytes?_eq_some_iff
  · exact ⟨congrArg List.length, eq_of_ofBytes?_eq_some ha hb⟩

/-- One byte short of a key. -/
def shortBytes : Bytes := List.replicate 31 1

def shortKey : PrivateKey := ⟨Bytes.toNat shortBytes, by decide, by decide⟩

theorem raw_keys_up_to_zeros_short :
    ofBytes? shortBytes = some shortKey ∧ ofBytes? (0 :: shortBytes) = some shortKey ∧
      (shortBytes = 0 :: shortBytes ↔ shortBytes.length = (0 :: shortBytes).length) := by
  obtain ⟨-, hshort, -⟩ := raw_keys_up_to_zeros shortBytes
  obtain ⟨-, hwhole, hsame⟩ := raw_keys_up_to_zeros (0 :: shortBytes)
  have hk : ofBytes? shortBytes = some shortKey := (hshort shortKey).2 ⟨1, by decide, by decide⟩
  have hk' : ofBytes? (0 :: shortBytes) = some shortKey := (hwhole shortKey).2 ⟨0, by decide, by decide⟩
  exact ⟨hk, hk', hsame shortKey shortBytes hk hk'⟩

/-- Thirty-one bytes are a key, and the same one as the thirty-two with a zero before them. -/
theorem short_bytes_taken : shortBytes.length ≠ 32 ∧ shortBytes ≠ 0 :: shortBytes ∧
    ∃ k, ofBytes? shortBytes = some k ∧ ofBytes? (0 :: shortBytes) = some k :=
  ⟨by decide, by decide, shortKey, ofBytes?_eq_some_iff.2 (by decide), ofBytes?_eq_some_iff.2 (by decide)⟩

end PrivateKey

end LedgerClient
