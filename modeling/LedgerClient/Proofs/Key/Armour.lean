/-
Writing armoured text.

The writer is said here apart from the reader: four characters for three bytes,
lines of sixty-four characters, one label on the two lines around them. What it
writes is read back (`decode?_armour`), whichever way its lines end and whether
or not the last one does.
-/
import LedgerClient.Key.Pem
import LedgerClient.Proofs.Text.Utf8

namespace LedgerClient.Pem

/-! ## Writing -/

/-- The character of a number below sixty-four. -/
def base64Digit (n : Nat) : Char :=
  if n < 26 then Char.ofNat (65 + n)
  else if n < 52 then Char.ofNat (71 + n)
  else if n < 62 then Char.ofNat (n - 4)
  else if n = 62 then '+'
  else '/'

/-- Three bytes give four characters; one or two at the end are filled up with signs of padding. -/
def encodeBase64 : Bytes → List Char
  | [] => []
  | [a] => [base64Digit (a.toNat / 4), base64Digit (a.toNat % 4 * 16), '=', '=']
  | [a, b] =>
    [base64Digit (a.toNat / 4), base64Digit (a.toNat % 4 * 16 + b.toNat / 16), base64Digit (b.toNat % 16 * 4), '=']
  | a :: b :: c :: rest =>
    base64Digit (a.toNat / 4) :: base64Digit (a.toNat % 4 * 16 + b.toNat / 16)
      :: base64Digit (b.toNat % 16 * 4 + c.toNat / 64) :: base64Digit (c.toNat % 64) :: encodeBase64 rest

inductive LineEnd where
  | lf
  | crlf

def LineEnd.chars : LineEnd → List Char
  | lf => ['\n']
  | crlf => ['\r', '\n']

/-- Lines of sixty-four, with an end behind each but the last. -/
def wrap {α : Type} (ending xs : List α) : List α :=
  if xs.length ≤ 64 then xs else xs.take 64 ++ ending ++ wrap ending (xs.drop 64)
termination_by xs.length
decreasing_by
  rw [List.length_drop]
  omega

/-- Bytes between a line that begins and a line that ends them. -/
def armour (label : String) (ending : LineEnd) (last : Bool) (bs : Bytes) : String :=
  String.ofList ("-----BEGIN ".toList ++ label.toList ++ "-----".toList ++ ending.chars
    ++ wrap ending.chars (encodeBase64 bs) ++ ending.chars
    ++ "-----END ".toList ++ label.toList ++ "-----".toList ++ if last then ending.chars else [])

/-! ## Base 64 -/

/-- The byte of a character below 128. -/
def byteOf (c : Char) : UInt8 := c.toNat.toUInt8

theorem base64Value?_digit {n : Nat} (h : n < 64) : base64Value? (byteOf (base64Digit n)) = some n := by
  have hall : ∀ d : Fin 64, base64Value? (byteOf (base64Digit d)) = some d.val := by decide
  exact hall ⟨n, h⟩

theorem byteOf_digit_ne_padding {n : Nat} (h : n < 64) : byteOf (base64Digit n) ≠ padding := by
  have hall : ∀ d : Fin 64, byteOf (base64Digit d) ≠ padding := by decide
  exact hall ⟨n, h⟩

theorem decodeBase64?_cons {k l m n : Nat} (hk : k < 64) (hl : l < 64) (hm : m < 64) (hn : n < 64) (rest : Bytes) :
    decodeBase64? (byteOf (base64Digit k) :: byteOf (base64Digit l) :: byteOf (base64Digit m) ::
        byteOf (base64Digit n) :: rest) =
      (decodeBase64? rest).map fun bs =>
        (k * 4 + l / 16).toUInt8 :: (l % 16 * 16 + m / 4).toUInt8 :: (m % 4 * 64 + n).toUInt8 :: bs := by
  cases rest with
  | nil =>
    simp only [decodeBase64?, base64Value?_digit hk, base64Value?_digit hl, base64Value?_digit hm,
      base64Value?_digit hn, if_neg (byteOf_digit_ne_padding hm), if_neg (byteOf_digit_ne_padding hn)]
    rfl
  | cons b rest =>
    simp only [decodeBase64?, base64Value?_digit hk, base64Value?_digit hl, base64Value?_digit hm,
      base64Value?_digit hn, Option.bind_eq_bind, Option.bind_some]
    cases decodeBase64? (b :: rest) <;> rfl

theorem toUInt8_eq {n : Nat} {b : UInt8} (h : n = b.toNat) : n.toUInt8 = b := Utf8.ofNat_eq_byte h

theorem decodeBase64?_encodeBase64 : ∀ bs : Bytes, decodeBase64? ((encodeBase64 bs).map byteOf) = some bs
  | [] => rfl
  | [a] => by
    have ha := a.toNat_lt
    have hpadding : byteOf '=' = padding := rfl
    have hfirst : (a.toNat / 4 * 4 + a.toNat % 4 * 16 / 16).toUInt8 = a := toUInt8_eq (by omega)
    have hzero : a.toNat % 4 * 16 % 16 = 0 := by omega
    have h₁ : base64Value? (byteOf (base64Digit (a.toNat / 4))) = _ := base64Value?_digit (by omega)
    have h₂ : base64Value? (byteOf (base64Digit (a.toNat % 4 * 16))) = _ := base64Value?_digit (by omega)
    simp only [encodeBase64, List.map_cons, List.map_nil, hpadding, decodeBase64?, h₁, h₂, Option.bind_eq_bind,
      Option.bind_some, if_true, hzero, hfirst, and_self]
  | [a, b] => by
    have ha := a.toNat_lt
    have hb := b.toNat_lt
    have hpadding : byteOf '=' = padding := rfl
    have hfirst : (a.toNat / 4 * 4 + (a.toNat % 4 * 16 + b.toNat / 16) / 16).toUInt8 = a := toUInt8_eq (by omega)
    have hsecond : ((a.toNat % 4 * 16 + b.toNat / 16) % 16 * 16 + b.toNat % 16 * 4 / 4).toUInt8 = b :=
      toUInt8_eq (by omega)
    have hzero : b.toNat % 16 * 4 % 4 = 0 := by omega
    have hthird : b.toNat % 16 * 4 < 64 := by omega
    have h₁ : base64Value? (byteOf (base64Digit (a.toNat / 4))) = _ := base64Value?_digit (by omega)
    have h₂ : base64Value? (byteOf (base64Digit (a.toNat % 4 * 16 + b.toNat / 16))) = _ :=
      base64Value?_digit (by omega)
    simp only [encodeBase64, List.map_cons, List.map_nil, hpadding, decodeBase64?, h₁, h₂, Option.bind_eq_bind,
      Option.bind_some, if_neg (byteOf_digit_ne_padding hthird), base64Value?_digit hthird, if_true, hzero, hfirst,
      hsecond]
  | a :: b :: c :: rest => by
    have ha := a.toNat_lt
    have hb := b.toNat_lt
    have hc := c.toNat_lt
    simp only [encodeBase64, List.map_cons]
    rw [decodeBase64?_cons (by omega) (by omega) (by omega) (by omega), decodeBase64?_encodeBase64 rest,
      Option.map_some, toUInt8_eq (b := a) (by omega), toUInt8_eq (b := b) (by omega), toUInt8_eq (b := c) (by omega)]

/-! ## Lines -/

section Lines

variable {α β : Type} {ending xs : List α}

theorem wrap_of_le (h : xs.length ≤ 64) : wrap ending xs = xs := by rw [wrap, if_pos h]

theorem wrap_of_lt (h : 64 < xs.length) :
    wrap ending xs = xs.take 64 ++ (ending ++ wrap ending (xs.drop 64)) := by
  rw [wrap, if_neg (by omega), List.append_assoc]

theorem map_wrap (f : α → β) (ending xs : List α) :
    (wrap ending xs).map f = wrap (ending.map f) (xs.map f) := by
  fun_induction wrap ending xs with
  | case1 xs h => rw [wrap_of_le (by rwa [List.length_map])]
  | case2 xs h ih =>
    have hlt : 64 < (xs.map f).length := by
      rw [List.length_map]
      omega
    rw [wrap_of_lt hlt, List.map_append, List.map_append, ih, List.map_take, List.map_drop, List.append_assoc]

theorem mem_of_mem_wrap {x : α} (h : x ∈ wrap ending xs) : x ∈ ending ∨ x ∈ xs := by
  fun_induction wrap ending xs with
  | case1 xs _ => exact .inr h
  | case2 xs _ ih =>
    rcases List.mem_append.1 h with h | h
    · exact (List.mem_append.1 h).symm.imp_right List.mem_of_mem_take
    · exact (ih h).imp_right List.mem_of_mem_drop

theorem length_le_length_wrap (ending xs : List α) : xs.length ≤ (wrap ending xs).length := by
  fun_induction wrap ending xs with
  | case1 xs _ => exact Nat.le_refl _
  | case2 xs _ ih =>
    simp only [List.length_append, List.length_take, List.length_drop] at ih ⊢
    omega

theorem getLast?_wrap (ending xs : List α) : (wrap ending xs).getLast? = xs.getLast? := by
  fun_induction wrap ending xs with
  | case1 xs _ => rfl
  | case2 xs h ih =>
    have hlt : 64 < xs.length := by omega
    rw [List.getLast?_append, ih, List.getLast?_drop, if_neg (by omega)]
    cases hlast : xs.getLast? with
    | none => rw [List.getLast?_eq_none_iff.1 hlast] at hlt; cases hlt
    | some x => rfl

end Lines

def LineEnd.bytes (ending : LineEnd) : Bytes := ending.chars.map byteOf

theorem dropLineEnd?_append (ending : LineEnd) (bs : Bytes) : dropLineEnd? (ending.bytes ++ bs) = some bs := by
  cases ending <;> rfl

/-- The lines are joined again. -/
theorem unwrap_wrap (ending : LineEnd) : ∀ {fuel : Nat} {bs : Bytes}, bs.length < fuel →
    unwrap fuel (wrap ending.bytes bs) = some bs
  | 0, _, h => absurd h (Nat.not_lt_zero _)
  | fuel + 1, bs, h => by
    rw [unwrap]
    by_cases hle : bs.length ≤ 64
    · rw [wrap_of_le hle, List.drop_eq_nil_of_le hle]
    · have htake : (bs.take 64).length = 64 := by
        rw [List.length_take]
        omega
      have hrest : unwrap fuel (wrap ending.bytes (bs.drop 64)) = some (bs.drop 64) :=
        unwrap_wrap ending (by rw [List.length_drop]; omega)
      have hne : ending.bytes ++ wrap ending.bytes (bs.drop 64) ≠ [] := by
        cases ending <;> simp [LineEnd.bytes, LineEnd.chars]
      rw [wrap_of_lt (by omega), List.drop_left' htake, List.take_left' htake]
      split
      next hnil => exact absurd hnil hne
      next =>
        rw [dropLineEnd?_append]
        simp only [Option.bind_eq_bind, Option.bind_some, hrest, List.take_append_drop]

/-- A line end is taken off the back of what does not look like half of one. -/
theorem dropLastLineEnd?_append (ending : LineEnd) {bs : Bytes} (h : bs.getLast? ≠ some cr) :
    dropLastLineEnd? (bs ++ ending.bytes) = some bs := by
  cases ending with
  | lf =>
    have hreverse : (bs ++ LineEnd.lf.bytes).reverse = 10 :: bs.reverse := by
      simp [LineEnd.bytes, LineEnd.chars, byteOf]
    rw [← List.head?_reverse] at h
    rw [dropLastLineEnd?, hreverse, ← List.reverse_reverse bs]
    generalize bs.reverse = back at h
    cases back with
    | nil => rfl
    | cons b back =>
      have hb : b ≠ 13 := by simpa [cr] using h
      simp [hb]
  | crlf =>
    have hreverse : (bs ++ LineEnd.crlf.bytes).reverse = 10 :: 13 :: bs.reverse := by
      simp [LineEnd.bytes, LineEnd.chars, byteOf]
    rw [dropLastLineEnd?, hreverse]
    simp

/-- What ends with a dash ends with no line. -/
theorem dropLastLineEnd?_dashes (bs : Bytes) : dropLastLineEnd? (bs ++ Utf8.encode "-----") = none := by
  have hdashes : Utf8.encode "-----" = [45, 45, 45, 45, 45] := by decide
  rw [hdashes, dropLastLineEnd?]
  simp

/-! ## The whole -/

theorem dropFront?_append (front bs : Bytes) : dropFront? front (front ++ bs) = some bs := by
  rw [dropFront?, if_pos (by simp), List.drop_left]

theorem dropBack?_append (bs back : Bytes) : dropBack? back (bs ++ back) = some bs := by
  rw [dropBack?, if_pos (by simp)]
  simp

/-- What holds of the digits and of the padding holds of the characters. -/
theorem forall_mem_encodeBase64 {p : Char → Prop} (hdigit : ∀ n < 64, p (base64Digit n)) (hpadding : p '=') :
    ∀ {bs : Bytes}, ∀ c ∈ encodeBase64 bs, p c
  | [] => by simp [encodeBase64]
  | [a] => by
    have ha := a.toNat_lt
    simp only [encodeBase64, List.forall_mem_cons, List.not_mem_nil, false_implies, implies_true, and_true]
    exact ⟨hdigit _ (by omega), hdigit _ (by omega), hpadding, hpadding⟩
  | [a, b] => by
    have ha := a.toNat_lt
    have hb := b.toNat_lt
    simp only [encodeBase64, List.forall_mem_cons, List.not_mem_nil, false_implies, implies_true, and_true]
    exact ⟨hdigit _ (by omega), hdigit _ (by omega), hdigit _ (by omega), hpadding⟩
  | a :: b :: c :: rest => by
    have ha := a.toNat_lt
    have hb := b.toNat_lt
    have hc := c.toNat_lt
    simp only [encodeBase64, List.forall_mem_cons]
    exact ⟨hdigit _ (by omega), hdigit _ (by omega), hdigit _ (by omega), hdigit _ (by omega),
      forall_mem_encodeBase64 hdigit hpadding⟩

theorem utf8EncodeChar_ascii {c : Char} (h : c.toNat < 128) : String.utf8EncodeChar c = [byteOf c] := by
  have hbyte : (byteOf c).toNat = c.toNat := Utf8.toNat_ofNat_byte (by omega)
  have hone := Utf8.utf8EncodeChar_one (b := byteOf c) (by omega)
  rwa [hbyte, Char.ofNat_toNat] at hone

theorem flatMap_utf8EncodeChar {cs : List Char} (h : ∀ c ∈ cs, c.toNat < 128) :
    cs.flatMap String.utf8EncodeChar = cs.map byteOf := by
  induction cs with
  | nil => rfl
  | cons c cs ih =>
    obtain ⟨hc, hcs⟩ := List.forall_mem_cons.1 h
    rw [List.flatMap_cons, utf8EncodeChar_ascii hc, ih hcs]
    rfl

theorem flatMap_lineEnd (ending : LineEnd) : ending.chars.flatMap String.utf8EncodeChar = ending.bytes := by
  cases ending <;> decide

theorem flatMap_body (ending : LineEnd) (bs : Bytes) :
    (wrap ending.chars (encodeBase64 bs)).flatMap String.utf8EncodeChar =
      wrap ending.bytes ((encodeBase64 bs).map byteOf) := by
  rw [flatMap_utf8EncodeChar, map_wrap]
  · rfl
  · intro c hc
    rcases mem_of_mem_wrap hc with hc | hc
    · cases ending <;> simp only [LineEnd.chars, List.mem_cons, List.not_mem_nil, or_false] at hc
      · subst hc
        decide
      · rcases hc with rfl | rfl <;> decide
    · exact forall_mem_encodeBase64 (p := (·.toNat < 128)) (by decide) (by decide) c hc

/-- The bytes of armoured text. -/
theorem encode_armour (label : String) (ending : LineEnd) (last : Bool) (bs : Bytes) :
    Utf8.encode (armour label ending last bs) =
      (Utf8.encode "-----BEGIN " ++ Utf8.encode label ++ Utf8.encode "-----") ++ (ending.bytes ++
        (wrap ending.bytes ((encodeBase64 bs).map byteOf) ++ ending.bytes ++
          (Utf8.encode "-----END " ++ Utf8.encode label ++ Utf8.encode "-----") ++
            if last then ending.bytes else [])) := by
  have hlast : (if last then ending.chars else []).flatMap String.utf8EncodeChar =
      if last then ending.bytes else [] := by
    split
    · exact flatMap_lineEnd ending
    · rfl
  have htext : (armour label ending last bs).toList = _ := String.toList_ofList
  rw [Utf8.encode, htext]
  simp only [Utf8.encode, List.flatMap_append, flatMap_lineEnd, flatMap_body, hlast, List.append_assoc]

theorem getLast?_dashes (bs : Bytes) : (bs ++ Utf8.encode "-----").getLast? = some 45 := by
  have hdashes : Utf8.encode "-----" = [45, 45, 45, 45, 45] := by decide
  rw [hdashes]
  simp

/-- Armoured bytes are read back. -/
theorem decode?_armour (label : String) (ending : LineEnd) (last : Bool) (bs : Bytes) :
    decode? label (armour label ending last bs) = some bs := by
  let lines := wrap ending.bytes ((encodeBase64 bs).map byteOf)
  let back := Utf8.encode "-----END " ++ Utf8.encode label ++ Utf8.encode "-----"
  have htext := encode_armour label ending last bs
  have hbegin : (Utf8.encode "-----BEGIN ").isPrefixOf (Utf8.encode (armour label ending last bs)) = true := by
    rw [htext]
    simp
  have hfront := dropFront?_append (Utf8.encode "-----BEGIN " ++ Utf8.encode label ++ Utf8.encode "-----")
    (ending.bytes ++ (lines ++ ending.bytes ++ back ++ if last then ending.bytes else []))
  have hend : (dropLastLineEnd? (lines ++ ending.bytes ++ back ++ if last then ending.bytes else [])).getD
      (lines ++ ending.bytes ++ back ++ if last then ending.bytes else []) = lines ++ ending.bytes ++ back := by
    have hdashes : lines ++ ending.bytes ++ back =
        lines ++ ending.bytes ++ (Utf8.encode "-----END " ++ Utf8.encode label) ++ Utf8.encode "-----" :=
      (List.append_assoc _ _ _).symm
    cases last with
    | false =>
      have hnone : dropLastLineEnd? (lines ++ ending.bytes ++ back) = none := by
        rw [hdashes]
        exact dropLastLineEnd?_dashes _
      rw [if_neg Bool.false_ne_true, List.append_nil, hnone, Option.getD_none]
    | true =>
      have hsome : dropLastLineEnd? (lines ++ ending.bytes ++ back ++ ending.bytes) =
          some (lines ++ ending.bytes ++ back) := by
        refine dropLastLineEnd?_append ending ?_
        rw [hdashes, getLast?_dashes]
        decide
      rw [if_pos rfl, hsome, Option.getD_some]
  have hback : dropBack? (Utf8.encode "-----END " ++ Utf8.encode label ++ Utf8.encode "-----")
      (lines ++ ending.bytes ++ back) = some (lines ++ ending.bytes) := dropBack?_append _ _
  have hlast : dropLastLineEnd? (lines ++ ending.bytes) = some lines := by
    refine dropLastLineEnd?_append ending ?_
    rw [getLast?_wrap]
    intro hcr
    obtain ⟨c, hc, hbyte⟩ := List.mem_map.1 (List.mem_of_getLast? hcr)
    exact forall_mem_encodeBase64 (p := (byteOf · ≠ cr)) (by decide) (by decide) c hc hbyte
  have hlines : unwrap (lines.length + 1) lines = some ((encodeBase64 bs).map byteOf) :=
    unwrap_wrap ending (Nat.lt_succ_of_le (length_le_length_wrap _ _))
  rw [← htext] at hfront
  simp only [decode?, if_pos hbegin, Option.bind_eq_bind, Option.bind_some, hfront, dropLineEnd?_append, hend,
    hback, hlast, hlines, decodeBase64?_encodeBase64]

end LedgerClient.Pem
