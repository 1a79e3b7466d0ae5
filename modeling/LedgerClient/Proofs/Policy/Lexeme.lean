/-
How a text splits into tokens.

A lexeme is the text of one token, or one white space character, which gives
no token. A text splits into tokens by taking the longest lexeme at its front,
again and again, until nothing is left; a run of digits has to spell a 31-bit
number besides. `tokens_eq_ok_iff` says that the scanner finds exactly this
list, and refuses a text that does not split.
-/
import LedgerClient.Policy.Token
import LedgerClient.Proofs.Except
import Mathlib.Algebra.Group.Nat.Defs
import Mathlib.Data.List.TakeWhile

namespace LedgerClient.Policy

/-- The tokens of one fixed character. -/
def marks : List (Char × Token) := [('(', .openParen), (')', .closeParen), (',', .comma)]

/-- The texts of single lexemes, each with the token it gives. -/
inductive Lexeme : List Char → Option Token → Prop
  | blank {c : Char} (hc : Text.isBlank c) : Lexeme [c] none
  | mark {c : Char} {t : Token} (hc : (c, t) ∈ marks) : Lexeme [c] (some t)
  | quoted {q : Char} {text : List Char} (hq : q = '\'' ∨ q = '"') (h : q ∉ text) :
      Lexeme (q :: (text ++ [q])) (some (.quoted (String.ofList text)))
  | number {d : Char} {digits : List Char} (hd : d.isDigit) (h : ∀ c ∈ digits, c.isDigit) :
      Lexeme (d :: digits) (some (.number (numberOf (d :: digits))))
  | ident {c : Char} {name : List Char} (hc : c.isAlpha) (h : ∀ d ∈ name, d.isAlphanum) :
      Lexeme (c :: name) (some (.ident (String.ofList (c :: name))))

/-- The longest lexeme at the front of `cs` gives `t?` and leaves `rest`. -/
def Longest (cs : List Char) (t? : Option Token) (rest : List Char) : Prop :=
  ∃ lexeme, cs = lexeme ++ rest ∧ Lexeme lexeme t? ∧
    ∀ other t', other <+: cs → Lexeme other t' → other.length ≤ lexeme.length

/-- A number has to fit a signed 32-bit count. -/
def Token.InRange : Token → Prop
  | number n => n < 2 ^ 31
  | _ => True

/-- The tokens of a text, each from the longest lexeme at its place. -/
inductive Splits : List Char → List Token → Prop
  | nil : Splits [] []
  | cons {cs rest : List Char} {t? : Option Token} {ts : List Token} (h : Longest cs t? rest)
      (hrange : ∀ t ∈ t?, t.InRange) (hrest : Splits rest ts) : Splits cs (t?.toList ++ ts)

/-! ## Classes of characters -/

variable {c : Char} {cs l rest text : List Char} {t? : Option Token} {t : Token} {ts : List Token}

theorem isBlank_eq_false (hl : 0x20 < c.toNat) (hh : c.toNat < 0x85) : Text.isBlank c = false := by
  simp only [Text.isBlank, Text.blankRanges, List.any_cons, List.any_nil, Bool.or_false, Bool.or_eq_false_iff,
    Bool.and_eq_false_iff, decide_eq_false_iff_not]
  omega

theorem toNat_of_isDigit (h : c.isDigit) : 0x30 ≤ c.toNat ∧ c.toNat ≤ 0x39 := by
  simp only [Char.isDigit, Bool.and_eq_true, decide_eq_true_eq, ge_iff_le, UInt32.le_iff_toNat_le] at h
  exact h

theorem toNat_of_isAlpha (h : c.isAlpha) : 0x41 ≤ c.toNat ∧ c.toNat ≤ 0x7A := by
  change (decide (c.val ≥ 'A'.val ∧ c.val ≤ 'Z'.val) ||
    decide (c.val ≥ 'a'.val) && decide (c.val ≤ 'z'.val)) = true at h
  simp only [Bool.or_eq_true, Bool.and_eq_true, decide_eq_true_eq, ge_iff_le, UInt32.le_iff_toNat_le] at h
  change 65 ≤ c.toNat ∧ c.toNat ≤ 90 ∨ 97 ≤ c.toNat ∧ c.toNat ≤ 122 at h
  omega

theorem isBlank_of_isDigit (h : c.isDigit) : Text.isBlank c = false := by
  have := toNat_of_isDigit h
  exact isBlank_eq_false (by omega) (by omega)

theorem isBlank_of_isAlpha (h : c.isAlpha) : Text.isBlank c = false := by
  have := toNat_of_isAlpha h
  exact isBlank_eq_false (by omega) (by omega)

theorem isDigit_of_isAlpha (h : c.isAlpha) : c.isDigit = false := by
  rw [Bool.eq_false_iff]
  intro hd
  have := toNat_of_isAlpha h
  have := toNat_of_isDigit hd
  omega

/-- A text up to the first of its characters that is `c`. -/
theorem eq_append_of_dropWhile {d : Char} (h : cs.dropWhile (· != c) = d :: rest) :
    d = c ∧ c ∉ cs.takeWhile (· != c) ∧ cs = cs.takeWhile (· != c) ++ c :: rest := by
  obtain rfl : d = c := by
    have := List.head?_dropWhile_not (· != c) cs
    simpa [h] using this
  refine ⟨rfl, fun hmem => by simpa using List.mem_takeWhile_imp hmem, ?_⟩
  rw [← h, List.takeWhile_append_dropWhile]

theorem not_isBlank_mark : ∀ m ∈ marks, ¬ Text.isBlank m.1 := by decide

theorem not_isDigit_mark : ∀ m ∈ marks, ¬ m.1.isDigit := by decide

theorem not_isAlpha_mark : ∀ m ∈ marks, ¬ m.1.isAlpha := by decide

theorem unique_mark {t' : Token} (h : (c, t) ∈ marks) (h' : (c, t') ∈ marks) : t = t' :=
  (by decide : ∀ m ∈ marks, ∀ m' ∈ marks, m.1 = m'.1 → m.2 = m'.2) _ h _ h' rfl

/-! ## The lexemes that a character opens -/

namespace Lexeme

theorem of_isBlank (h : Lexeme (c :: l) t?) (hc : Text.isBlank c) : t? = none ∧ l = [] := by
  cases h with
  | blank => exact ⟨rfl, rfl⟩
  | mark hm => exact absurd hc (not_isBlank_mark _ hm)
  | quoted hq => rcases hq with rfl | rfl <;> exact absurd hc (by decide)
  | number hd => exact absurd hc (by simp [isBlank_of_isDigit hd])
  | ident hl => exact absurd hc (by simp [isBlank_of_isAlpha hl])

theorem of_mark (h : Lexeme (c :: l) t?) (hc : (c, t) ∈ marks) : t? = some t ∧ l = [] := by
  cases h with
  | blank hb => exact absurd hb (not_isBlank_mark _ hc)
  | mark hm => exact ⟨congrArg some (unique_mark hm hc), rfl⟩
  | quoted hq => rcases hq with rfl | rfl <;> simp [marks] at hc
  | number hd => exact absurd hd (not_isDigit_mark _ hc)
  | ident hl => exact absurd hl (not_isAlpha_mark _ hc)

theorem of_quote (h : Lexeme (c :: l) t?) (hc : c = '\'' ∨ c = '"') :
    ∃ text, t? = some (.quoted (String.ofList text)) ∧ l = text ++ [c] ∧ c ∉ text := by
  cases h with
  | blank hb => rcases hc with rfl | rfl <;> exact absurd hb (by decide)
  | mark hm => rcases hc with rfl | rfl <;> simp [marks] at hm
  | quoted hq h => exact ⟨_, rfl, rfl, h⟩
  | number hd => rcases hc with rfl | rfl <;> exact absurd hd (by decide)
  | ident hl => rcases hc with rfl | rfl <;> exact absurd hl (by decide)

theorem of_isDigit (h : Lexeme (c :: l) t?) (hc : c.isDigit) :
    t? = some (.number (numberOf (c :: l))) ∧ ∀ d ∈ l, d.isDigit := by
  cases h with
  | blank hb => exact absurd hb (by simp [isBlank_of_isDigit hc])
  | mark hm => exact absurd hc (not_isDigit_mark _ hm)
  | quoted hq => rcases hq with rfl | rfl <;> exact absurd hc (by decide)
  | number hd h => exact ⟨rfl, h⟩
  | ident hl => exact absurd hc (by simp [isDigit_of_isAlpha hl])

theorem of_isAlpha (h : Lexeme (c :: l) t?) (hc : c.isAlpha) :
    t? = some (.ident (String.ofList (c :: l))) ∧ ∀ d ∈ l, d.isAlphanum := by
  cases h with
  | blank hb => exact absurd hb (by simp [isBlank_of_isAlpha hc])
  | mark hm => exact absurd hc (not_isAlpha_mark _ hm)
  | quoted hq => rcases hq with rfl | rfl <;> exact absurd hc (by decide)
  | number hd => exact absurd hd (by simp [isDigit_of_isAlpha hc])
  | ident hl h => exact ⟨rfl, h⟩

theorem ne_nil (h : Lexeme l t?) : l ≠ [] := by
  cases h <;> exact List.cons_ne_nil _ _

/-- A lexeme gives one token. -/
theorem unique {t' : Option Token} (h : Lexeme l t?) (h' : Lexeme l t') : t? = t' := by
  cases h with
  | blank hc => exact (h'.of_isBlank hc).1.symm
  | mark hm => exact (h'.of_mark hm).1.symm
  | quoted hq =>
    obtain ⟨text', rfl, heq, -⟩ := h'.of_quote hq
    rw [List.append_cancel_right heq]
  | number hd => exact (h'.of_isDigit hd).1.symm
  | ident hc => exact (h'.of_isAlpha hc).1.symm

end Lexeme

/-! ## The longest lexeme -/

namespace Longest

theorem unique {t' : Option Token} {rest' : List Char} (h : Longest cs t? rest) (h' : Longest cs t' rest') :
    t? = t' ∧ rest = rest' := by
  obtain ⟨lexeme, rfl, hlex, hmax⟩ := h
  obtain ⟨lexeme', heq, hlex', hmax'⟩ := h'
  have hlen : lexeme.length = lexeme'.length :=
    Nat.le_antisymm (hmax' _ _ (List.prefix_append _ _) hlex)
      (hmax _ _ (heq ▸ List.prefix_append _ _) hlex')
  obtain ⟨rfl, rfl⟩ := List.append_inj heq hlen
  exact ⟨hlex.unique hlex', rfl⟩

/-- Where a character opens lexemes of one character only. -/
theorem of_single (h : Lexeme [c] t?) (honly : ∀ l t', Lexeme (c :: l) t' → l = []) : Longest (c :: cs) t? cs := by
  refine ⟨[c], rfl, h, fun other t' hother hlex => ?_⟩
  cases other with
  | nil => exact Nat.zero_le _
  | cons d other =>
    obtain ⟨rfl, -⟩ := List.cons_prefix_cons.1 hother
    simp [honly _ _ hlex]

/-- Where the lexemes that a character opens are runs of a class of characters. -/
theorem of_run {p : Char → Bool} (h : Lexeme (c :: cs.takeWhile p) t?)
    (honly : ∀ l t', Lexeme (c :: l) t' → ∀ d ∈ l, p d) : Longest (c :: cs) t? (cs.dropWhile p) := by
  refine ⟨c :: cs.takeWhile p, by simp, h, fun other t' hother hlex => ?_⟩
  cases other with
  | nil => exact Nat.zero_le _
  | cons d other =>
    obtain ⟨rfl, tail, rfl⟩ := List.cons_prefix_cons.1 hother
    rw [List.takeWhile_append_of_pos (honly _ _ hlex)]
    simp

theorem of_quoted {q : Char} (hq : q = '\'' ∨ q = '"') (h : q ∉ text) :
    Longest (q :: (text ++ q :: rest)) (some (.quoted (String.ofList text))) rest := by
  refine ⟨q :: (text ++ [q]), by simp, .quoted hq h, fun other t' hother hlex => ?_⟩
  cases other with
  | nil => exact Nat.zero_le _
  | cons d other =>
    obtain ⟨rfl, hother⟩ := List.cons_prefix_cons.1 hother
    obtain ⟨text', -, rfl, h'⟩ := hlex.of_quote hq
    -- The closing quote of a longer lexeme would leave the first one inside its text.
    have hle : text'.length ≤ text.length := by
      refine Nat.le_of_not_lt fun hlt => h' ?_
      have hleft : text ++ [d] <+: text ++ d :: rest := by simp
      have hright : text' <+: text ++ d :: rest := (List.prefix_append _ _).trans hother
      have hmem : text ++ [d] <+: text' :=
        List.prefix_of_prefix_length_le hleft hright (by simpa using Nat.succ_le_of_lt hlt)
      exact hmem.subset (by simp)
    simpa using hle

/-- A text up to the first quote behind it. -/
theorem of_dropWhile {d : Char} (hq : c = '\'' ∨ c = '"') (h : cs.dropWhile (· != c) = d :: rest) :
    Longest (c :: cs) (some (.quoted (String.ofList (cs.takeWhile (· != c))))) rest := by
  obtain ⟨-, hnot, hcs⟩ := eq_append_of_dropWhile h
  have hlong : Longest (c :: (cs.takeWhile (· != c) ++ c :: rest)) _ rest := of_quoted hq hnot
  rwa [← hcs] at hlong

theorem of_isDigit (h : c.isDigit) : Longest (c :: cs)
    (some (.number (numberOf (c :: cs.takeWhile Char.isDigit)))) (cs.dropWhile Char.isDigit) :=
  of_run (.number h fun _ hd => List.mem_takeWhile_imp hd) fun _ _ hlex => (hlex.of_isDigit h).2

theorem of_isAlpha (h : c.isAlpha) : Longest (c :: cs)
    (some (.ident (String.ofList (c :: cs.takeWhile Char.isAlphanum)))) (cs.dropWhile Char.isAlphanum) :=
  of_run (.ident h fun _ hd => List.mem_takeWhile_imp hd) fun _ _ hlex => (hlex.of_isAlpha h).2

theorem mem_of_quote (h : Longest (c :: cs) t? rest) (hq : c = '\'' ∨ c = '"') : c ∈ cs := by
  obtain ⟨lexeme, heq, hlex, -⟩ := h
  cases lexeme with
  | nil => exact absurd rfl hlex.ne_nil
  | cons d l =>
    obtain ⟨rfl, rfl⟩ := List.cons.inj heq
    obtain ⟨text, -, rfl, -⟩ := hlex.of_quote hq
    simp

/-- The characters that open a lexeme. -/
theorem opening (h : Longest (c :: cs) t? rest) :
    Text.isBlank c ∨ (∃ t, (c, t) ∈ marks) ∨ (c = '\'' ∨ c = '"') ∨ c.isDigit ∨ c.isAlpha := by
  obtain ⟨lexeme, heq, hlex, -⟩ := h
  cases hlex with
  | blank hc => obtain ⟨rfl, -⟩ := List.cons.inj heq; exact .inl hc
  | mark hm => obtain ⟨rfl, -⟩ := List.cons.inj heq; exact .inr (.inl ⟨_, hm⟩)
  | quoted hq => obtain ⟨rfl, rfl⟩ := List.cons.inj heq; exact .inr (.inr (.inl hq))
  | number hd => obtain ⟨rfl, -⟩ := List.cons.inj heq; exact .inr (.inr (.inr (.inl hd)))
  | ident hc => obtain ⟨rfl, -⟩ := List.cons.inj heq; exact .inr (.inr (.inr (.inr hc)))

end Longest

/-! ## Splitting a text -/

theorem splits_nil_iff : Splits [] ts ↔ ts = [] := by
  constructor
  · intro h
    cases h with
    | nil => rfl
    | cons h =>
      obtain ⟨lexeme, heq, hlex, -⟩ := h
      exact absurd (List.append_eq_nil_iff.1 heq.symm).1 hlex.ne_nil
  · rintro rfl
    exact .nil

theorem splits_iff (h : Longest cs t? rest) :
    Splits cs ts ↔ (∀ t ∈ t?, t.InRange) ∧ ∃ us, Splits rest us ∧ t?.toList ++ us = ts := by
  constructor
  · intro hs
    cases hs with
    | nil =>
      obtain ⟨lexeme, heq, hlex, -⟩ := h
      exact absurd (List.append_eq_nil_iff.1 heq.symm).1 hlex.ne_nil
    | cons h' hrange hrest =>
      obtain ⟨rfl, rfl⟩ := h.unique h'
      exact ⟨hrange, _, hrest, rfl⟩
  · rintro ⟨hrange, us, hrest, rfl⟩
    exact .cons h hrange hrest

theorem Splits.exists_longest (h : Splits (c :: cs) ts) : ∃ t? rest, Longest (c :: cs) t? rest := by
  cases h with
  | cons h => exact ⟨_, _, h⟩

/-- A quote that nothing closes opens no lexeme. -/
theorem not_splits_of_unclosed (hq : c = '\'' ∨ c = '"') (h : cs.dropWhile (· != c) = []) :
    ¬ Splits (c :: cs) ts := by
  intro hs
  obtain ⟨t?, rest, hlong⟩ := hs.exists_longest
  simpa using List.dropWhile_eq_nil_iff.1 h c (hlong.mem_of_quote hq)

theorem not_splits_of_opening (hblank : ¬ Text.isBlank c) (hmark : ∀ t, (c, t) ∉ marks)
    (hquote : ¬ (c = '\'' ∨ c = '"')) (hdigit : ¬ c.isDigit) (hletter : ¬ c.isAlpha) : ¬ Splits (c :: cs) ts := by
  intro hs
  obtain ⟨t?, rest, hlong⟩ := hs.exists_longest
  rcases hlong.opening with h | ⟨t, h⟩ | h | h | h
  · exact hblank h
  · exact hmark t h
  · exact hquote h
  · exact hdigit h
  · exact hletter h

/-- The scanner takes a token where the longest lexeme gives one. -/
theorem map_scan_eq_ok_iff {fuel position : Nat} (h : Longest cs (some t) rest) (hrange : t.InRange)
    (ih : ∀ us, scan fuel position rest = .ok us ↔ Splits rest us) :
    (t :: ·) <$> scan fuel position rest = .ok ts ↔ Splits cs ts := by
  simp only [map_eq_ok_iff, splits_iff h, ih]
  simp [hrange]

theorem scan_eq_ok_iff : ∀ {fuel position : Nat} {cs : List Char} {ts : List Token}, cs.length < fuel →
    (scan fuel position cs = .ok ts ↔ Splits cs ts)
  | fuel + 1, position, [], ts, _ => by
    rw [scan, splits_nil_iff, Except.ok.injEq, eq_comm]
  | fuel + 1, position, c :: cs, ts, hlen => by
    have ih : ∀ {p rest us}, rest.length ≤ cs.length → (scan fuel p rest = .ok us ↔ Splits rest us) :=
      fun hrest => scan_eq_ok_iff (Nat.lt_of_le_of_lt hrest (Nat.lt_of_succ_lt_succ hlen))
    have mark {t : Token} (hc : (c, t) ∈ marks) (ht : t.InRange) :
        (t :: ·) <$> scan fuel (position + 1) cs = .ok ts ↔ Splits (c :: cs) ts :=
      map_scan_eq_ok_iff (.of_single (.mark hc) fun _ _ h => (h.of_mark hc).2) ht fun _ => ih (Nat.le_refl _)
    -- the cases are the scanner's, in its order
    rw [scan]
    split
    next hc =>
      rw [splits_iff (.of_single (.blank hc) fun _ _ h => (h.of_isBlank hc).2), ih (Nat.le_refl _)]
      simp
    next hblank =>
    split
    next hc => exact mark (by simp [hc, marks]) trivial
    next hopen =>
    split
    next hc => exact mark (by simp [hc, marks]) trivial
    next hclose =>
    split
    next hc => exact mark (by simp [hc, marks]) trivial
    next hcomma =>
    split
    next hq =>
      split
      next hdrop => exact iff_of_false nofun (not_splits_of_unclosed hq hdrop)
      next d rest hdrop =>
        have hle : (d :: rest).length ≤ cs.length := hdrop ▸ List.length_dropWhile_le _ _
        exact map_scan_eq_ok_iff (.of_dropWhile hq hdrop) trivial fun _ => ih (Nat.le_of_succ_le hle)
    next hquote =>
    split
    next hd =>
      dsimp only
      split
      next hmax =>
        exact map_scan_eq_ok_iff (.of_isDigit hd) (Nat.lt_succ_of_le hmax) fun _ => ih (List.length_dropWhile_le _ _)
      next hmax =>
        refine iff_of_false nofun fun hs => hmax ?_
        exact Nat.le_of_lt_succ (((splits_iff (.of_isDigit hd)).1 hs).1 _ rfl)
    next hdigit =>
    split
    next hl => exact map_scan_eq_ok_iff (.of_isAlpha hl) trivial fun _ => ih (List.length_dropWhile_le _ _)
    next hletter =>
      have hmark : ∀ t, (c, t) ∉ marks := by simp [marks, hopen, hclose, hcomma]
      exact iff_of_false nofun (not_splits_of_opening hblank hmark hquote hdigit hletter)

theorem tokens_eq_ok_iff {s : String} : tokens s = .ok ts ↔ Splits s.toList ts :=
  scan_eq_ok_iff (Nat.lt_succ_self _)

end LedgerClient.Policy
