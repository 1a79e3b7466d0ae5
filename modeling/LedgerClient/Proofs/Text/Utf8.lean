/-
UTF-8: a text is read back from its bytes, strictly and leniently, and bytes
that the strict reader takes are the bytes of the text it gives.

Both directions go character by character. Reading an encoded character from
the start gives this one piece; a pending character records which bytes have
been read, so that the piece it ends in is the character of just those bytes.
-/
import LedgerClient.Text.Utf8

namespace LedgerClient.Utf8

theorem toNat_ofNat_byte {n : Nat} (h : n < 256) : (UInt8.ofNat n).toNat = n := by
  simp only [UInt8.toNat_ofNat']
  omega

theorem ofNat_eq_byte {n : Nat} {b : UInt8} (h : n = b.toNat) : UInt8.ofNat n = b := by
  rw [h, UInt8.ofNat_toNat]

theorem toNat_ofNat_char {n : Nat} (h : n.isValidChar) : (Char.ofNat n).val.toNat = n := by
  rw [Char.ofNat, dif_pos h]
  rfl

/-! ## Encoded characters -/

theorem piecesFrom_cons (p : Option Pending) (b : UInt8) (bs : Bytes) :
    piecesFrom p (b :: bs) = (step p b).1 ++ piecesFrom (step p b).2 bs := by
  cases p <;> rfl

/-- A byte that continues a character and does not end it. -/
theorem step_more {p : Pending} {b : UInt8} (hl : p.low ≤ b.toNat) (hh : b.toNat ≤ p.high) (hm : p.more ≠ 1) :
    step (some p) b = ([], some ⟨p.more - 1, 0x80, 0xBF, p.bits * 64 + (b.toNat - 0x80)⟩) := by
  simp only [step, hl, hh, and_self, if_true, if_neg hm]

/-- A byte that ends a character. -/
theorem step_last {p : Pending} {b : UInt8} (hl : p.low ≤ b.toNat) (hh : b.toNat ≤ p.high) (hm : p.more = 1) :
    step (some p) b = ([some (Char.ofNat (p.bits * 64 + (b.toNat - 0x80)))], none) := by
  simp only [step, hl, hh, and_self, if_true, hm]

theorem first_ascii {b : UInt8} (h : b.toNat < 0x80) : first b = ([some (Char.ofNat b.toNat)], none) := by
  simp only [first, if_pos h]

theorem first_two {b : UInt8} (hl : 0xC2 ≤ b.toNat) (hh : b.toNat < 0xE0) :
    first b = ([], some ⟨1, 0x80, 0xBF, b.toNat - 0xC0⟩) := by
  simp only [first]
  rw [if_neg (by omega), if_neg (by omega), if_pos hh]

/-- The bounds that the first of three bytes puts on the second. -/
theorem first_three {b : UInt8} (hl : 0xE0 ≤ b.toNat) (hh : b.toNat < 0xF0) :
    ∃ low high, first b = ([], some ⟨2, low, high, b.toNat - 0xE0⟩) ∧ 0x80 ≤ low ∧ high ≤ 0xBF ∧
      (b.toNat = 0xE0 → low = 0xA0) ∧ (b.toNat ≠ 0xE0 → low = 0x80) ∧
      (b.toNat = 0xED → high = 0x9F) ∧ (b.toNat ≠ 0xED → high = 0xBF) := by
  simp only [first]
  rw [if_neg (by omega), if_neg (by omega), if_neg (by omega)]
  by_cases h0 : b.toNat = 0xE0
  · rw [if_pos h0]
    exact ⟨_, _, rfl, by omega, by omega, fun _ => rfl, by omega, by omega, fun _ => rfl⟩
  · rw [if_neg h0]
    by_cases hd : b.toNat = 0xED
    · rw [if_pos hd]
      exact ⟨_, _, rfl, by omega, by omega, by omega, fun _ => rfl, fun _ => rfl, by omega⟩
    · rw [if_neg hd, if_pos hh]
      exact ⟨_, _, rfl, by omega, by omega, by omega, fun _ => rfl, by omega, fun _ => rfl⟩

/-- The bounds that the first of four bytes puts on the second. -/
theorem first_four {b : UInt8} (hl : 0xF0 ≤ b.toNat) (hh : b.toNat ≤ 0xF4) :
    ∃ low high, first b = ([], some ⟨3, low, high, b.toNat - 0xF0⟩) ∧ 0x80 ≤ low ∧ high ≤ 0xBF ∧
      (b.toNat = 0xF0 → low = 0x90) ∧ (b.toNat ≠ 0xF0 → low = 0x80) ∧
      (b.toNat = 0xF4 → high = 0x8F) ∧ (b.toNat ≠ 0xF4 → high = 0xBF) := by
  simp only [first]
  rw [if_neg (by omega), if_neg (by omega), if_neg (by omega), if_neg (by omega), if_neg (by omega),
    if_neg (by omega)]
  by_cases h0 : b.toNat = 0xF0
  · rw [if_pos h0]
    exact ⟨_, _, rfl, by omega, by omega, fun _ => rfl, by omega, by omega, fun _ => rfl⟩
  · rw [if_neg h0]
    by_cases h4 : b.toNat = 0xF4
    · rw [if_neg (by omega), if_pos h4]
      exact ⟨_, _, rfl, by omega, by omega, by omega, fun _ => rfl, fun _ => rfl, by omega⟩
    · rw [if_pos (by omega)]
      exact ⟨_, _, rfl, by omega, by omega, by omega, fun _ => rfl, by omega, fun _ => rfl⟩

/-- An encoded character is one piece, whatever follows. -/
theorem piecesFrom_utf8EncodeChar (c : Char) (bs : Bytes) :
    piecesFrom none (String.utf8EncodeChar c ++ bs) = some c :: piecesFrom none bs := by
  have hc : Char.ofNat c.val.toNat = c := Char.ofNat_toNat c
  have hv : c.val.toNat < 0xD800 ∨ 0xDFFF < c.val.toNat ∧ c.val.toNat < 0x110000 := c.valid
  generalize c.val.toNat = v at hc hv
  have he : String.utf8EncodeChar c = String.utf8EncodeChar (Char.ofNat v) := by rw [hc]
  have hn : (Char.ofNat v).val.toNat = v := toNat_ofNat_char hv
  rw [he]
  simp only [String.utf8EncodeChar, hn]
  by_cases h1 : v ≤ 0x7F
  · have hb : (UInt8.ofNat v).toNat = v := toNat_ofNat_byte (by omega)
    rw [if_pos h1, List.cons_append, List.nil_append, piecesFrom_cons, step, first_ascii (by omega), hb, hc]
    rfl
  rw [if_neg h1]
  by_cases h2 : v ≤ 0x7FF
  · have hb : (UInt8.ofNat (v / 64 % 32 + 192)).toNat = v / 64 + 192 := by
      rw [toNat_ofNat_byte (by omega)]
      omega
    have hx : (UInt8.ofNat (v % 64 + 128)).toNat = v % 64 + 128 := toNat_ofNat_byte (by omega)
    rw [if_pos h2, List.cons_append, List.cons_append, List.nil_append, piecesFrom_cons, step,
      first_two (by omega) (by omega), piecesFrom_cons,
      step_last (by simp only [hx]; omega) (by simp only [hx]; omega) rfl, hb, hx]
    have : (v / 64 + 192 - 192) * 64 + (v % 64 + 128 - 128) = v := by omega
    simp only [this, hc, List.nil_append, List.singleton_append]
  rw [if_neg h2]
  by_cases h3 : v ≤ 0xFFFF
  · have hb : (UInt8.ofNat (v / 4096 % 16 + 224)).toNat = v / 4096 + 224 := by
      rw [toNat_ofNat_byte (by omega)]
      omega
    have hx : (UInt8.ofNat (v / 64 % 64 + 128)).toNat = v / 64 % 64 + 128 := toNat_ofNat_byte (by omega)
    have hy : (UInt8.ofNat (v % 64 + 128)).toNat = v % 64 + 128 := toNat_ofNat_byte (by omega)
    obtain ⟨low, high, hf, -, -, hl, hl', hh, hh'⟩ :=
      first_three (b := UInt8.ofNat (v / 4096 % 16 + 224)) (by omega) (by omega)
    rw [if_pos h3]
    simp only [List.cons_append, List.nil_append]
    rw [piecesFrom_cons, step, hf, piecesFrom_cons,
      step_more (by simp only [hx]; omega) (by simp only [hx]; omega) (by simp), piecesFrom_cons,
      step_last (by simp only [hy]; omega) (by simp only [hy]; omega) rfl, hb, hx, hy]
    have : ((v / 4096 + 224 - 224) * 64 + (v / 64 % 64 + 128 - 128)) * 64 + (v % 64 + 128 - 128) = v := by
      omega
    simp only [this, hc, List.nil_append, List.singleton_append]
  · have hb : (UInt8.ofNat (v / 262144 % 8 + 240)).toNat = v / 262144 + 240 := by
      rw [toNat_ofNat_byte (by omega)]
      omega
    have hx : (UInt8.ofNat (v / 4096 % 64 + 128)).toNat = v / 4096 % 64 + 128 := toNat_ofNat_byte (by omega)
    have hy : (UInt8.ofNat (v / 64 % 64 + 128)).toNat = v / 64 % 64 + 128 := toNat_ofNat_byte (by omega)
    have hz : (UInt8.ofNat (v % 64 + 128)).toNat = v % 64 + 128 := toNat_ofNat_byte (by omega)
    obtain ⟨low, high, hf, -, -, hl, hl', hh, hh'⟩ :=
      first_four (b := UInt8.ofNat (v / 262144 % 8 + 240)) (by omega) (by omega)
    rw [if_neg h3]
    simp only [List.cons_append, List.nil_append]
    rw [piecesFrom_cons, step, hf, piecesFrom_cons,
      step_more (by simp only [hx]; omega) (by simp only [hx]; omega) (by simp), piecesFrom_cons,
      step_more (by simp only [hy]; omega) (by simp only [hy]; omega) (by simp), piecesFrom_cons,
      step_last (by simp only [hz]; omega) (by simp only [hz]; omega) rfl, hb, hx, hy, hz]
    have : (((v / 262144 + 240 - 240) * 64 + (v / 4096 % 64 + 128 - 128)) * 64
        + (v / 64 % 64 + 128 - 128)) * 64 + (v % 64 + 128 - 128) = v := by omega
    simp only [this, hc, List.nil_append, List.singleton_append]

theorem pieces_flatMap : ∀ cs : List Char, pieces (cs.flatMap String.utf8EncodeChar) = cs.map some
  | [] => rfl
  | c :: cs => by
    have ih := pieces_flatMap cs
    simp only [pieces] at ih ⊢
    rw [List.flatMap_cons, piecesFrom_utf8EncodeChar, ih, List.map_cons]

theorem mapM_some_id {α : Type} : ∀ xs : List α, (xs.map some).mapM id = some xs
  | [] => rfl
  | x :: xs => by
    simp only [List.map_cons, List.mapM_cons, mapM_some_id xs, id]
    rfl

/-- A text is read back from its bytes. -/
theorem decode?_encode (s : String) : decode? (encode s) = some s := by
  simp only [decode?, encode, pieces_flatMap, mapM_some_id, Option.map_some, String.ofList_toList]

/-- The lenient reader changes nothing in the bytes of a text. -/
theorem decodeLossy_encode (s : String) : decodeLossy (encode s) = s := by
  simp only [decodeLossy, encode, pieces_flatMap, List.map_map]
  have : (s.toList.map ((fun p => p.getD replacement) ∘ some)) = s.toList := List.map_id _
  rw [this, String.ofList_toList]

/-- No character takes more than four bytes. -/
theorem length_encode_le (s : String) : (encode s).length ≤ 4 * s.length := by
  rw [encode, ← String.length_toList]
  induction s.toList with
  | nil => exact Nat.le_refl _
  | cons c cs ih =>
    have hc := c.utf8Size_le_four
    rw [List.flatMap_cons, List.length_append, String.length_utf8EncodeChar, List.length_cons]
    omega

/-! ## The bytes behind a text -/

/-- After the bytes `pre`, `more` further ones, the next of them within bounds, give the encoding of
the character with the given bits in front. -/
def Opened : (pre : Bytes) → (more low high bits : Nat) → Prop
  | _, 0, _, _, _ => False
  | pre, 1, low, high, bits => ∀ b : UInt8, low ≤ b.toNat → b.toNat ≤ high →
    String.utf8EncodeChar (Char.ofNat (bits * 64 + (b.toNat - 0x80))) = pre ++ [b]
  | pre, more + 2, low, high, bits => ∀ b : UInt8, low ≤ b.toNat → b.toNat ≤ high →
    Opened (pre ++ [b]) (more + 1) 0x80 0xBF (bits * 64 + (b.toNat - 0x80))

theorem utf8EncodeChar_one {b : UInt8} (h : b.toNat < 0x80) :
    String.utf8EncodeChar (Char.ofNat b.toNat) = [b] := by
  have hn := toNat_ofNat_char (n := b.toNat) (.inl (by omega))
  simp only [String.utf8EncodeChar, hn]
  rw [if_pos (by omega), UInt8.ofNat_toNat]

theorem opened_two {b : UInt8} (hl : 0xC2 ≤ b.toNat) (hh : b.toNat < 0xE0) :
    Opened [b] 1 0x80 0xBF (b.toNat - 0xC0) := by
  intro c hc hc'
  have hn := toNat_ofNat_char (n := (b.toNat - 0xC0) * 64 + (c.toNat - 0x80)) (.inl (by omega))
  simp only [String.utf8EncodeChar, hn, List.singleton_append]
  rw [if_neg (by omega), if_pos (by omega)]
  simp only [List.cons.injEq, and_true]
  exact ⟨ofNat_eq_byte (by omega), ofNat_eq_byte (by omega)⟩

theorem opened_three {b : UInt8} {low high : Nat} (hl : 0xE0 ≤ b.toNat) (hh : b.toNat < 0xF0)
    (hlow : 0x80 ≤ low) (hhigh : high ≤ 0xBF) (h0 : b.toNat = 0xE0 → low = 0xA0)
    (hd : b.toNat = 0xED → high = 0x9F) : Opened [b] 2 low high (b.toNat - 0xE0) := by
  intro c hc hc' d hd hd'
  have hn := toNat_ofNat_char
    (n := ((b.toNat - 0xE0) * 64 + (c.toNat - 0x80)) * 64 + (d.toNat - 0x80)) (by
      simp only [Nat.isValidChar]
      omega)
  simp only [String.utf8EncodeChar, hn, List.cons_append, List.nil_append]
  rw [if_neg (by omega), if_neg (by omega), if_pos (by omega)]
  simp only [List.cons.injEq, and_true]
  exact ⟨ofNat_eq_byte (by omega), ofNat_eq_byte (by omega), ofNat_eq_byte (by omega)⟩

theorem opened_four {b : UInt8} {low high : Nat} (hl : 0xF0 ≤ b.toNat) (hh : b.toNat ≤ 0xF4)
    (hlow : 0x80 ≤ low) (hhigh : high ≤ 0xBF) (h0 : b.toNat = 0xF0 → low = 0x90)
    (h4 : b.toNat = 0xF4 → high = 0x8F) : Opened [b] 3 low high (b.toNat - 0xF0) := by
  intro c hc hc' d hd hd' e he he'
  have hn := toNat_ofNat_char
    (n := (((b.toNat - 0xF0) * 64 + (c.toNat - 0x80)) * 64 + (d.toNat - 0x80)) * 64 + (e.toNat - 0x80))
    (by
      simp only [Nat.isValidChar]
      omega)
  simp only [String.utf8EncodeChar, hn, List.cons_append, List.nil_append]
  rw [if_neg (by omega), if_neg (by omega), if_neg (by omega)]
  simp only [List.cons.injEq, and_true]
  exact ⟨ofNat_eq_byte (by omega), ofNat_eq_byte (by omega), ofNat_eq_byte (by omega), ofNat_eq_byte (by omega)⟩

/-- What a byte does at the start of a piece. -/
theorem first_cases (b : UInt8) :
    (b.toNat < 0x80 ∧ first b = ([some (Char.ofNat b.toNat)], none)) ∨ first b = ([none], none) ∨
      ∃ p, first b = ([], some p) ∧ Opened [b] p.more p.low p.high p.bits := by
  by_cases h1 : b.toNat < 0x80
  · exact .inl ⟨h1, first_ascii h1⟩
  by_cases h2 : b.toNat < 0xC2
  · refine .inr (.inl ?_)
    simp only [first]
    rw [if_neg h1, if_pos h2]
  by_cases h3 : b.toNat < 0xE0
  · exact .inr (.inr ⟨_, first_two (by omega) h3, opened_two (by omega) h3⟩)
  by_cases h4 : b.toNat < 0xF0
  · obtain ⟨low, high, hf, hl, hh, h0, -, hd, -⟩ := first_three (b := b) (by omega) h4
    exact .inr (.inr ⟨_, hf, opened_three (by omega) h4 hl hh h0 hd⟩)
  by_cases h5 : b.toNat ≤ 0xF4
  · obtain ⟨low, high, hf, hl, hh, h0, -, hd, -⟩ := first_four (b := b) (by omega) h5
    exact .inr (.inr ⟨_, hf, opened_four (by omega) h5 hl hh h0 hd⟩)
  · refine .inr (.inl ?_)
    simp only [first]
    rw [if_neg h1, if_neg h2, if_neg h3, if_neg (by omega), if_neg (by omega), if_neg h4, if_neg (by omega),
      if_neg (by omega), if_neg (by omega)]

theorem mapM_id_none {α : Type} (xs : List (Option α)) : (none :: xs).mapM id = none := rfl

theorem mapM_id_some {α : Type} {x : α} {xs : List (Option α)} {ys : List α}
    (h : (some x :: xs).mapM id = some ys) : ∃ zs, xs.mapM id = some zs ∧ ys = x :: zs := by
  cases hx : xs.mapM id with
  | none => simp [List.mapM_cons, hx] at h
  | some zs => exact ⟨zs, rfl, by simpa [List.mapM_cons, hx] using h.symm⟩

theorem flatMap_of_piecesFrom : ∀ bs : Bytes,
    (∀ cs, (piecesFrom none bs).mapM id = some cs → cs.flatMap String.utf8EncodeChar = bs) ∧
    (∀ pre p cs, Opened pre p.more p.low p.high p.bits → (piecesFrom (some p) bs).mapM id = some cs →
      cs.flatMap String.utf8EncodeChar = pre ++ bs)
  | [] => by
    refine ⟨fun cs h => ?_, fun pre p cs _ h => by cases h⟩
    simp only [piecesFrom, List.mapM_nil] at h
    cases h
    rfl
  | b :: bs => by
    obtain ⟨ih, ihp⟩ := flatMap_of_piecesFrom bs
    constructor
    · intro cs h
      rw [piecesFrom_cons, step] at h
      rcases first_cases b with ⟨hb, hf⟩ | hf | ⟨p, hf, hp⟩
      · rw [hf] at h
        obtain ⟨zs, hz, rfl⟩ := mapM_id_some h
        rw [List.flatMap_cons, utf8EncodeChar_one hb, ih zs hz, List.singleton_append]
      · rw [hf] at h
        cases h
      · rw [hf] at h
        exact ihp [b] p cs hp h
    · intro pre p cs hp h
      rw [piecesFrom_cons] at h
      by_cases hb : p.low ≤ b.toNat ∧ b.toNat ≤ p.high
      · match hm : p.more with
        | 0 =>
          rw [hm] at hp
          exact hp.elim
        | 1 =>
          rw [hm] at hp
          rw [step_last hb.1 hb.2 hm] at h
          obtain ⟨zs, hz, rfl⟩ := mapM_id_some h
          rw [List.flatMap_cons, hp b hb.1 hb.2, ih zs hz, List.append_assoc, List.singleton_append]
        | more + 2 =>
          rw [hm] at hp
          rw [step_more hb.1 hb.2 (by omega)] at h
          have hp' := hp b hb.1 hb.2
          rw [show more + 1 = p.more - 1 by omega] at hp'
          rw [ihp (pre ++ [b]) _ cs hp' h, List.append_assoc, List.singleton_append]
      · simp only [step, if_neg hb, List.cons_append, mapM_id_none] at h
        cases h

/-- Bytes that encode a text are the bytes of that text. -/
theorem encode_of_decode? {bs : Bytes} {s : String} (h : decode? bs = some s) : encode s = bs := by
  simp only [decode?, Option.map_eq_some_iff] at h
  obtain ⟨cs, hcs, rfl⟩ := h
  simpa only [encode, String.toList_ofList] using (flatMap_of_piecesFrom bs).1 cs hcs

end LedgerClient.Utf8
