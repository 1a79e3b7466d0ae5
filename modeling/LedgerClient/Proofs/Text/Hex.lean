/-
Hexadecimal text.

Two digits stand for a byte and are read back as it (`ofHex?_toHex`), so bytes
that are shown as hexadecimal text are shown whole.
-/
import LedgerClient.Bytes

namespace LedgerClient.Bytes

theorem hexValue?_hexDigit {n : Nat} (h : n < 16) : hexValue? (hexDigit n) = some n := by
  have hall : ∀ d : Fin 16, hexValue? (hexDigit d) = some d.val := by decide
  exact hall ⟨n, h⟩

theorem ofHexDigits?_flatMap : ∀ bs : Bytes,
    ofHexDigits? (bs.flatMap fun b => [hexDigit (b.toNat / 16), hexDigit (b.toNat % 16)]) = some bs
  | [] => rfl
  | b :: bs => by
    have hlt := b.toNat_lt
    have hhigh : hexValue? (hexDigit (b.toNat / 16)) = some (b.toNat / 16) := hexValue?_hexDigit (by omega)
    have hlow : hexValue? (hexDigit (b.toNat % 16)) = some (b.toNat % 16) :=
      hexValue?_hexDigit (Nat.mod_lt _ (by decide))
    have hbyte : (16 * (b.toNat / 16) + b.toNat % 16).toUInt8 = b := by
      rw [Nat.div_add_mod]
      exact UInt8.ofNat_toNat
    rw [List.flatMap_cons, List.cons_append, List.cons_append, List.nil_append, ofHexDigits?, hhigh, hlow,
      ofHexDigits?_flatMap bs]
    exact congrArg (some <| · :: bs) hbyte

/-- Bytes are read back from their hexadecimal text. -/
theorem ofHex?_toHex (bs : Bytes) : ofHex? bs.toHex = some bs := by
  rw [ofHex?, toHex, String.toList_ofList]
  exact ofHexDigits?_flatMap bs

end LedgerClient.Bytes
