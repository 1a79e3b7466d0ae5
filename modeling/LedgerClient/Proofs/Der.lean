/-
Distinguished encoding has one spelling for everything.

What a strict spelling is, is said here apart from the writer: the fewest bytes
for a length, no redundant first byte in a number (`IsLength`, `IsNatContent`,
`IsElement`). The writer gives the one strict spelling there is, and the reader
takes this one and no other off the front of any bytes. All this as long as a
length can be spelled at all: the count of its bytes has to fit seven bits.
-/
import LedgerClient.Der
import Mathlib.Algebra.Group.Nat.Defs
import Mathlib.Data.List.Induction

namespace LedgerClient

/-! ## Numbers in base 256 -/

namespace Bytes

variable {n : Nat} {bs : Bytes}

theorem toNat_concat (bs : Bytes) (b : UInt8) : toNat (bs ++ [b]) = 256 * toNat bs + b.toNat := by
  simp only [toNat, List.foldl_append, List.foldl_cons, List.foldl_nil]

theorem toNat_zero_cons (bs : Bytes) : toNat (0 :: bs) = toNat bs := rfl

theorem toNat_pos (hne : bs ≠ []) (h : bs.head? ≠ some 0) : 0 < toNat bs := by
  induction bs using List.reverseRecOn with
  | nil => exact absurd rfl hne
  | append_singleton bs b ih =>
    rw [toNat_concat]
    cases bs with
    | nil =>
      have hb : b ≠ 0 := by simpa using h
      have : b.toNat ≠ 0 := fun h0 => hb (UInt8.toNat_inj.1 h0)
      omega
    | cons c bs =>
      have := ih (by simp) (by simpa using h)
      omega

/-- Without leading zeros a number has one spelling. -/
theorem eq_of_toNat_eq {as bs : Bytes} (ha : as.head? ≠ some 0) (hb : bs.head? ≠ some 0)
    (h : toNat as = toNat bs) : as = bs := by
  induction as using List.reverseRecOn generalizing bs with
  | nil =>
    refine Decidable.byContradiction fun hne => ?_
    exact absurd h.symm (Nat.ne_of_gt (toNat_pos (Ne.symm hne) hb))
  | append_singleton as a ih =>
    cases bs using List.reverseRecOn with
    | nil => exact absurd h (Nat.ne_of_gt (toNat_pos (by simp) ha))
    | append_singleton bs b =>
      -- the last digits agree, and so do the numbers without them
      rw [toNat_concat, toNat_concat] at h
      have hlast : a.toNat = b.toNat := by
        have := a.toNat_lt
        have := b.toNat_lt
        omega
      have hinit : as = bs := by
        refine ih ?_ ?_ (by omega)
        · cases as <;> simp_all
        · cases bs <;> simp_all
      rw [hinit, UInt8.toNat_inj.1 hlast]

@[simp] theorem length_ofNat (width n : Nat) : (ofNat width n).length = width := by
  induction width generalizing n with
  | zero => rfl
  | succ w ih => rw [ofNat, List.length_append, ih, List.length_singleton]

theorem toNat_ofNat {width n : Nat} (h : n < 256 ^ width) : toNat (ofNat width n) = n := by
  induction width generalizing n with
  | zero =>
    rw [Nat.pow_zero] at h
    obtain rfl : n = 0 := by omega
    rfl
  | succ w ih =>
    have hlt : n / 256 < 256 ^ w := by
      rw [Nat.pow_succ] at h
      omega
    rw [ofNat, toNat_concat, ih hlt, UInt8.toNat_ofNat']
    omega

/-- Bytes are the digits of their number, zeros in front among them. -/
theorem ofNat_toNat (bs : Bytes) : ofNat bs.length (toNat bs) = bs := by
  induction bs using List.reverseRecOn with
  | nil => rfl
  | append_singleton bs b ih =>
    have hb := b.toNat_lt
    have hinit : (256 * toNat bs + b.toNat) / 256 = toNat bs := by omega
    have hlast : (256 * toNat bs + b.toNat).toUInt8 = b := by
      rw [← UInt8.toNat_inj, UInt8.toNat_ofNat']
      omega
    rw [List.length_append, List.length_singleton, toNat_concat, ofNat, hinit, ih, hlast]

theorem toNat_digitsUpTo : ∀ {fuel n : Nat}, n < 256 ^ fuel → toNat (digitsUpTo fuel n) = n
  | 0, n, h => by
    rw [Nat.pow_zero] at h
    obtain rfl : n = 0 := by omega
    rfl
  | fuel + 1, n, h => by
    rw [digitsUpTo]
    split
    next hn => exact hn.symm
    next =>
      have hlt : n / 256 < 256 ^ fuel := by
        rw [Nat.pow_succ] at h
        omega
      rw [toNat_concat, toNat_digitsUpTo hlt, UInt8.toNat_ofNat']
      omega

theorem head?_digitsUpTo : ∀ {fuel n : Nat}, n < 256 ^ fuel → (digitsUpTo fuel n).head? ≠ some 0
  | 0, _, _ => by simp [digitsUpTo]
  | fuel + 1, n, h => by
    rw [digitsUpTo]
    split
    next => simp
    next hn =>
      have hlt : n / 256 < 256 ^ fuel := by
        rw [Nat.pow_succ] at h
        omega
      have ih := head?_digitsUpTo hlt
      cases hd : digitsUpTo fuel (n / 256) with
      | cons b bs => simpa [hd] using ih
      | nil =>
        -- A number of one digit, which is not zero.
        have hsmall : n / 256 = 0 := by
          rw [← toNat_digitsUpTo hlt, hd]
          rfl
        have hb : n.toUInt8.toNat ≠ 0 := by
          rw [UInt8.toNat_ofNat']
          omega
        simp only [List.nil_append, List.head?_cons, ne_eq, Option.some.injEq]
        exact fun h0 => hb (congrArg UInt8.toNat h0)

theorem lt_pow_log2 (n : Nat) : n < 256 ^ (n.log2 / 8 + 1) := by
  have hpow : 256 ^ (n.log2 / 8 + 1) = 2 ^ (8 * (n.log2 / 8 + 1)) := by rw [Nat.pow_mul]
  rw [hpow]
  exact Nat.lt_of_lt_of_le Nat.lt_log2_self (Nat.pow_le_pow_right (by decide) (by omega))

@[simp] theorem toNat_digits (n : Nat) : toNat (digits n) = n := toNat_digitsUpTo (lt_pow_log2 n)

theorem head?_digits (n : Nat) : (digits n).head? ≠ some 0 := head?_digitsUpTo (lt_pow_log2 n)

/-- The digits of a number are its spelling without leading zeros. -/
theorem eq_digits_iff : bs = digits n ↔ toNat bs = n ∧ bs.head? ≠ some 0 := by
  constructor
  · rintro rfl
    exact ⟨toNat_digits n, head?_digits n⟩
  · rintro ⟨rfl, h⟩
    exact eq_of_toNat_eq h (head?_digits _) (toNat_digits _).symm

theorem length_digitsUpTo_le : ∀ {fuel n k : Nat}, n < 256 ^ k → (digitsUpTo fuel n).length ≤ k
  | 0, _, _, _ => Nat.zero_le _
  | fuel + 1, n, k, h => by
    rw [digitsUpTo]
    split
    · exact Nat.zero_le _
    · cases k with
      | zero =>
        rw [Nat.pow_zero] at h
        omega
      | succ k =>
        have hlt : n / 256 < 256 ^ k := by
          rw [Nat.pow_succ] at h
          omega
        have : (digitsUpTo fuel (n / 256)).length ≤ k := length_digitsUpTo_le hlt
        rw [List.length_append, List.length_singleton]
        omega

theorem length_digits_le {k : Nat} (h : n < 256 ^ k) : (digits n).length ≤ k := length_digitsUpTo_le h

end Bytes

namespace Der

variable {n : Nat} {tag : UInt8} {content bs l rest : Bytes}

/-! ## Strict spellings -/

/-- The bytes of a length: itself below 128, else the count of its digits, then these. -/
inductive IsLength : Nat → Bytes → Prop
  | short {n : Nat} (h : n < 128) : IsLength n [n.toUInt8]
  | long {digits : Bytes} (h : 128 ≤ Bytes.toNat digits) (hmin : digits.head? ≠ some 0)
      (hcount : digits.length < 127) :
      IsLength (Bytes.toNat digits) ((0x80 + digits.length).toUInt8 :: digits)

/-- A tag, the length of the content, and the content. -/
def IsElement (tag : UInt8) (content bs : Bytes) : Prop :=
  ∃ l, IsLength content.length l ∧ bs = tag :: (l ++ content)

/-- A number that is not negative: its first bit is clear, and its first byte is no zero that could
be left out. -/
structure IsNatContent (n : Nat) (content : Bytes) : Prop where
  ne_nil : content ≠ []
  value : Bytes.toNat content = n
  not_negative : ∀ b ∈ content.head?, b < 0x80
  shortest : ∀ c rest, content = 0 :: c :: rest → 0x80 ≤ c

theorem isLength_iff (hn : n < 256 ^ 126) : IsLength n bs ↔ bs = length n := by
  rw [length]
  constructor
  · intro h
    cases h with
    | short h => rw [if_pos h]
    | @long digits h hmin hcount =>
      have hd : digits = Bytes.digits (Bytes.toNat digits) := Bytes.eq_digits_iff.2 ⟨rfl, hmin⟩
      rw [if_neg (Nat.not_lt.2 h), ← hd]
  · rintro rfl
    split
    next h => exact .short h
    next h =>
      have hlong : IsLength (Bytes.toNat (Bytes.digits n)) _ :=
        .long (by simpa using h) (Bytes.head?_digits n) (Nat.lt_succ_of_le (Bytes.length_digits_le hn))
      rwa [Bytes.toNat_digits] at hlong

theorem isElement_iff (hn : content.length < 256 ^ 126) : IsElement tag content bs ↔ bs = element tag content := by
  simp only [IsElement, isLength_iff hn, element, List.cons_append, exists_eq_left]

theorem isNatContent_iff : IsNatContent n content ↔ content = natContent n := by
  constructor
  · rintro ⟨hne, rfl, hsign, hmin⟩
    cases content with
    | nil => exact absurd rfl hne
    | cons b rest =>
      have hb : b < 0x80 := hsign b rfl
      by_cases hzero : b = 0
      · subst hzero
        cases rest with
        | nil => rfl
        | cons c rest =>
          have hc : 0x80 ≤ c := hmin c rest rfl
          have hd : c :: rest = Bytes.digits (Bytes.toNat (0 :: c :: rest)) := by
            rw [Bytes.toNat_zero_cons]
            exact Bytes.eq_digits_iff.2 ⟨rfl, by simpa using fun h0 : c = 0 => absurd hc (by simp [h0])⟩
          rw [natContent, ← hd]
          simp only
          rw [if_neg (by simpa using hc)]
      · have hd : b :: rest = Bytes.digits (Bytes.toNat (b :: rest)) :=
          Bytes.eq_digits_iff.2 ⟨rfl, by simpa using hzero⟩
        rw [natContent, ← hd]
        simp only
        rw [if_pos hb]
  · rintro rfl
    have hvalue := Bytes.toNat_digits n
    have hhead := Bytes.head?_digits n
    rw [natContent]
    split
    next hd =>
      rw [hd] at hvalue
      exact ⟨by simp, hvalue, by simp, by simp⟩
    next b rest hd =>
      rw [hd] at hvalue hhead
      have hb : b ≠ 0 := by simpa using hhead
      split
      next hlt => exact ⟨by simp, hvalue, by simpa using hlt, by simp [hb]⟩
      next hge => exact ⟨by simp, hvalue, by simp, by simpa using hge⟩

/-! ## Lengths -/

theorem length_natContent_le {k : Nat} (h : n < 256 ^ k) : (natContent n).length ≤ k + 1 := by
  have hd := Bytes.length_digits_le h
  simp only [natContent]
  split
  · simp
  · next hb =>
    rw [hb] at hd
    split <;> simp only [List.length_cons] at hd ⊢ <;> omega

theorem length_le_length_element : content.length ≤ (element tag content).length := by
  simp only [element, List.cons_append, List.length_cons, List.length_append]
  omega

theorem length_element_le (hn : content.length < 256 ^ 126) :
    (element tag content).length ≤ content.length + 128 := by
  have hl : (length content.length).length ≤ 127 := by
    rw [length]
    split
    · simp
    · exact Nat.succ_le_succ (Bytes.length_digits_le hn)
  simp only [element, List.cons_append, List.length_cons, List.length_append]
  omega

/-- A short element takes two bytes more than its content. -/
theorem length_element (h : content.length < 128) : (element tag content).length = content.length + 2 := by
  have hl : (length content.length).length = 1 := by
    simp only [length]
    rw [if_pos h]
    rfl
  rw [element, List.cons_append, List.length_cons, List.length_append, hl]
  omega

theorem length_integer_le {k : Nat} (h : n < 256 ^ k) (hk : k < 127) : (integer n).length ≤ k + 3 := by
  have := length_natContent_le h
  rw [integer, length_element (by omega)]
  omega

/-! ## Reading -/

theorem readLength_length (hn : n < 256 ^ 126) : readLength (length n ++ rest) = some (n, rest) := by
  rw [length]
  split
  next h =>
    have hb : n.toUInt8.toNat = n := by
      rw [UInt8.toNat_ofNat']
      omega
    have hlt : n.toUInt8 < 0x80 := by rw [UInt8.lt_iff_toNat_lt, hb]; exact h
    simp only [List.cons_append, List.nil_append, readLength, if_pos hlt, hb]
  next h =>
    have hlen := Bytes.length_digits_le hn
    have hb : (0x80 + (Bytes.digits n).length).toUInt8.toNat = 0x80 + (Bytes.digits n).length := by
      rw [UInt8.toNat_ofNat']
      omega
    have hge : ¬ (0x80 + (Bytes.digits n).length).toUInt8 < 0x80 := by
      rw [UInt8.lt_iff_toNat_lt, hb]
      exact Nat.not_lt.2 (Nat.le_add_right _ _)
    have hmin := Bytes.head?_digits n
    have hle : 0x80 ≤ n := Nat.not_lt.1 h
    simp only [List.cons_append, readLength, if_neg hge, hb, Nat.add_sub_cancel_left, List.take_left, List.drop_left,
      Bytes.toNat_digits]
    rw [if_pos ⟨trivial, hmin, hle⟩]

theorem eq_of_readLength (h : readLength bs = some (n, rest)) : bs = length n ++ rest := by
  cases bs with
  | nil => cases h
  | cons b bs =>
    rw [readLength] at h
    split at h
    next hb =>
      cases h
      have hlt : b.toNat < 0x80 := UInt8.lt_iff_toNat_lt.1 hb
      rw [length, if_pos hlt]
      simp
    next hb =>
      dsimp only at h
      split at h
      next hcond =>
        obtain ⟨rfl, rfl⟩ := Prod.mk.inj (Option.some.inj h)
        obtain ⟨hcount, hmin, hle⟩ := hcond
        have hdigits : bs.take (b.toNat - 0x80) = Bytes.digits (Bytes.toNat (bs.take (b.toNat - 0x80))) :=
          Bytes.eq_digits_iff.2 ⟨rfl, hmin⟩
        have hb' : 0x80 + (b.toNat - 0x80) = b.toNat :=
          Nat.add_sub_cancel' (UInt8.le_iff_toNat_le.1 (UInt8.not_lt.1 hb))
        rw [length, if_neg (Nat.not_lt.2 hle), ← hdigits, hcount, hb']
        simp
      next => cases h

/-- What is read as an element is its only spelling. -/
theorem read_eq_some_iff (hn : content.length < 256 ^ 126) :
    read tag bs = some (content, rest) ↔ bs = element tag content ++ rest := by
  rw [element, List.append_assoc, List.cons_append]
  cases bs with
  | nil => exact iff_of_false nofun nofun
  | cons b bs =>
    rw [read]
    constructor
    · intro h
      split at h
      next => cases h
      next htag =>
        obtain ⟨⟨n, us⟩, hlength, h⟩ := Option.bind_eq_some_iff.1 h
        dsimp only at h
        split at h
        next hle =>
          cases h
          rw [List.length_take_of_le hle, eq_of_readLength hlength, List.take_append_drop, Decidable.of_not_not htag]
        next => cases h
    · intro h
      cases h
      simp [readLength_length hn]

theorem readOnly_eq_some_iff (hn : content.length < 256 ^ 126) :
    readOnly tag bs = some content ↔ bs = element tag content := by
  have hread : readOnly tag bs = some content ↔ read tag bs = some (content, []) := by
    rw [readOnly]
    split
    next h => simp [h]
    next h => exact iff_of_false nofun (h content)
  rw [hread, read_eq_some_iff hn, List.append_nil]

/-- The reader of a number takes what strictly spells one. -/
theorem natOfContent?_eq_some_iff : natOfContent? content = some n ↔ IsNatContent n content := by
  match content with
  | [] => exact iff_of_false nofun fun h => h.ne_nil rfl
  | [b] =>
    have hb : Bytes.toNat [b] = b.toNat := by simp [Bytes.toNat]
    rw [natOfContent?]
    constructor
    · intro h
      split at h
      next hlt =>
        cases h
        exact ⟨by simp, hb, by simpa using hlt, by simp⟩
      next => cases h
    · intro h
      rw [if_pos (h.not_negative b rfl), ← hb, h.value]
  | b :: c :: rest =>
    rw [natOfContent?]
    constructor
    · intro h
      split at h
      next hcond =>
        cases h
        refine ⟨by simp, rfl, by simpa using hcond.1, ?_⟩
        rintro c rest ⟨⟩
        simpa using hcond.2
      next => cases h
    · intro h
      have hmin : ¬ (b = 0 ∧ c < 0x80) := by
        rintro ⟨rfl, hc⟩
        exact absurd (h.shortest c rest rfl) (by simpa using hc)
      rw [if_pos ⟨h.not_negative b rfl, hmin⟩, h.value]

theorem readNat_eq_some_iff (hn : (natContent n).length < 256 ^ 126) :
    readNat bs = some (n, rest) ↔ bs = integer n ++ rest := by
  simp only [readNat, Option.bind_eq_some_iff, Prod.exists, Option.map_eq_some_iff, natOfContent?_eq_some_iff,
    isNatContent_iff, Prod.mk.injEq]
  constructor
  · rintro ⟨_, _, h, _, rfl, rfl, rfl⟩
    exact (read_eq_some_iff hn).1 h
  · rintro rfl
    exact ⟨_, _, (read_eq_some_iff hn).2 rfl, n, rfl, rfl, rfl⟩

end Der

end LedgerClient
