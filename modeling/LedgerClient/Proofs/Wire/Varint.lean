/-
Varints: what is written is read back, `Varint.size` counts the bytes written,
and no spelling of a number is shorter than the written one.

A number with room for `more` further groups is below `2 * 128 ^ more`, since
the last group may only hold one bit. Nine further groups are 64 bits.
-/
import LedgerClient.Wire.Varint
import Mathlib.Algebra.Group.Nat.Defs

namespace LedgerClient.Wire.Varint

theorem toNat_toUInt8 {n : Nat} (h : n < 256) : n.toUInt8.toNat = n := by
  simp only [UInt8.toNat_ofNat']
  omega

theorem toNat_toUInt64 {n : Nat} (h : n < 2 ^ 64) : n.toUInt64.toNat = n := by
  simp only [UInt64.toNat_ofNat']
  omega

/-! ## Reading what is written -/

theorem readGroups_writeGroups (rest : Bytes) : ∀ {more n : Nat}, n < 2 * 128 ^ more →
    readGroups more (writeGroups more n ++ rest) = some (n, rest)
  | 0, n, h => by
    have hb : n.toUInt8.toNat = n := toNat_toUInt8 (by omega)
    simp only [writeGroups, List.cons_append, List.nil_append, readGroups, hb]
    rw [if_pos (by omega)]
  | more + 1, n, h => by
    by_cases hn : n < 128
    · have hb : n.toUInt8.toNat = n := toNat_toUInt8 (by omega)
      simp only [writeGroups, if_pos hn, List.cons_append, List.nil_append, readGroups, hb]
    · have hb : (n % 128 + 128).toUInt8.toNat = n % 128 + 128 := toNat_toUInt8 (by omega)
      have hlt : n / 128 < 2 * 128 ^ more := by omega
      have ih := readGroups_writeGroups rest hlt
      simp only [writeGroups, if_neg hn, List.cons_append, readGroups, hb, ih, Option.map_some]
      rw [if_neg (by omega)]
      have : n % 128 + 128 - 128 + 128 * (n / 128) = n := by omega
      rw [this]

theorem toNat_lt_groups (n : UInt64) : n.toNat < 2 * 128 ^ 9 := by
  have := n.toNat_lt
  omega

theorem read_write (n : UInt64) (rest : Bytes) : read (write n ++ rest) = some (n, rest) := by
  simp only [read, write, readGroups_writeGroups rest (toNat_lt_groups n), Option.map_some]
  simp

/-! ## Sizes -/

theorem log2_div_group {n : Nat} (h : 128 ≤ n) : (n / 128).log2 + 7 = n.log2 := by
  have hd : n / 128 ≠ 0 := by omega
  have h1 := (Nat.log2_eq_iff hd).1 rfl
  symm
  rw [Nat.log2_eq_iff (by omega)]
  have e : 2 ^ ((n / 128).log2 + 7) = 2 ^ (n / 128).log2 * 128 := by rw [Nat.pow_add]
  have e' : 2 ^ ((n / 128).log2 + 7 + 1) = 2 ^ ((n / 128).log2 + 1) * 128 := by
    rw [show (n / 128).log2 + 7 + 1 = (n / 128).log2 + 1 + 7 by omega, Nat.pow_add]
  omega

theorem log2_of_lt_group {n : Nat} (h : n < 128) : n.log2 / 7 = 0 := by
  by_cases hn : n = 0
  · subst hn; rfl
  · have := (Nat.log2_lt hn (k := 7)).2 (by omega)
    omega

theorem length_writeGroups : ∀ {more n : Nat}, n < 2 * 128 ^ more →
    (writeGroups more n).length = n.log2 / 7 + 1
  | 0, n, h => by
    rw [log2_of_lt_group (by omega)]
    rfl
  | more + 1, n, h => by
    by_cases hn : n < 128
    · simp only [writeGroups, if_pos hn, log2_of_lt_group hn, List.length_cons, List.length_nil]
    · have hlt : n / 128 < 2 * 128 ^ more := by omega
      have ih := length_writeGroups hlt
      have hl := log2_div_group (n := n) (by omega)
      simp only [writeGroups, if_neg hn, List.length_cons, ih]
      omega

theorem length_write (n : UInt64) : (write n).length = size n :=
  length_writeGroups (toNat_lt_groups n)

theorem size_le_ten (n : UInt64) : size n ≤ 10 := by
  have hn := n.toNat_lt
  simp only [size]
  by_cases h0 : n.toNat = 0
  · simp [h0]
  · have := (Nat.log2_lt h0 (k := 64)).2 hn
    omega

theorem size_pos (n : UInt64) : 0 < size n := Nat.succ_pos _

theorem log2_le_log2 {m n : Nat} (h : m ≤ n) : m.log2 ≤ n.log2 := by
  by_cases hm : m = 0
  · subst hm; simp
  · rw [Nat.le_log2 (by omega)]
    exact Nat.le_trans (Nat.log2_self_le hm) h

theorem size_le_size {m n : UInt64} (h : m.toNat ≤ n.toNat) : size m ≤ size n := by
  have := Nat.div_le_div_right (c := 7) (log2_le_log2 h)
  simp only [size]
  omega

/-- The size of a sum: one group more than the larger summand at most. -/
theorem size_add_le {m n k : UInt64} (h : k.toNat ≤ m.toNat + n.toNat) :
    size k ≤ max (size m) (size n) + 1 := by
  have hk : k.toNat.log2 ≤ max m.toNat.log2 n.toNat.log2 + 1 := by
    by_cases hk0 : k.toNat = 0
    · simp [hk0]
    · refine Nat.le_of_lt_succ ((Nat.log2_lt hk0).2 ?_)
      have hm : m.toNat < 2 ^ (m.toNat.log2 + 1) := Nat.lt_log2_self
      have hn : n.toNat < 2 ^ (n.toNat.log2 + 1) := Nat.lt_log2_self
      have hm' := Nat.pow_le_pow_right (n := 2) (by decide)
        (show m.toNat.log2 + 1 ≤ max m.toNat.log2 n.toNat.log2 + 1 by omega)
      have hn' := Nat.pow_le_pow_right (n := 2) (by decide)
        (show n.toNat.log2 + 1 ≤ max m.toNat.log2 n.toNat.log2 + 1 by omega)
      have : 2 ^ (max m.toNat.log2 n.toNat.log2 + 1 + 1) = 2 ^ (max m.toNat.log2 n.toNat.log2 + 1) * 2 :=
        Nat.pow_succ ..
      omega
  simp only [size]
  omega

/-! ## Spellings -/

theorem length_writeGroups_le_of_read : ∀ {more n : Nat} {bs rest : Bytes},
    readGroups more bs = some (n, rest) →
      n < 2 * 128 ^ more ∧ (writeGroups more n).length + rest.length ≤ bs.length
  | _, _, [], _, h => by simp [readGroups] at h
  | 0, n, b :: bs, rest, h => by
    simp only [readGroups] at h
    split at h
    · next hb =>
      simp only [Option.some.injEq, Prod.mk.injEq] at h
      obtain ⟨rfl, rfl⟩ := h
      exact ⟨by omega, by simp [writeGroups, Nat.add_comm]⟩
    · cases h
  | more + 1, n, b :: bs, rest, h => by
    have hb := b.toNat_lt
    simp only [readGroups] at h
    split at h
    · next hlt =>
      simp only [Option.some.injEq, Prod.mk.injEq] at h
      obtain ⟨rfl, rfl⟩ := h
      have : 1 ≤ 128 ^ more := Nat.one_le_pow _ _ (by decide)
      exact ⟨by omega, by simp [writeGroups, hlt, Nat.add_comm]⟩
    · next hge =>
      simp only [Option.map_eq_some_iff, Prod.exists, Prod.mk.injEq] at h
      obtain ⟨m, rest', hr, hn, rfl⟩ := h
      obtain ⟨hlt, hlen⟩ := length_writeGroups_le_of_read hr
      refine ⟨by omega, ?_⟩
      simp only [writeGroups, List.length_cons]
      split
      · have hpos : 0 < (writeGroups more m).length := by
          rw [length_writeGroups hlt]
          omega
        simp only [List.length_cons, List.length_nil]
        omega
      · have : n / 128 = m := by omega
        simp only [List.length_cons, this]
        omega

/-- A spelling takes at least as many bytes as the written one. -/
theorem size_le_of_read {bs rest : Bytes} {n : UInt64} (h : read bs = some (n, rest)) :
    size n + rest.length ≤ bs.length := by
  simp only [read, Option.map_eq_some_iff, Prod.exists, Prod.mk.injEq] at h
  obtain ⟨m, rest', hr, rfl, rfl⟩ := h
  obtain ⟨hlt, hlen⟩ := length_writeGroups_le_of_read hr
  have hm : m.toUInt64.toNat = m := toNat_toUInt64 (by omega)
  rw [length_writeGroups hlt] at hlen
  simp only [size, hm]
  exact hlen

end LedgerClient.Wire.Varint
