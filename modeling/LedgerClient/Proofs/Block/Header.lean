/-
The bytes that a block's hash is taken of.

They are the one strict spelling of the header (`isHeader_iff`), and a strict
reader takes them, and nothing else, for that header, so no two headers share
them: what is hashed says which block it is. The hashes in a header may be of any length that a machine
can count.
-/
import LedgerClient.Block.Header
import LedgerClient.Proofs.Der

namespace LedgerClient.Block

open Protocol

/-- A header in strict spelling: one sequence of a number that is not negative and two byte strings,
and nothing else. -/
def IsHeader (h : BlockHeader) (bs : Bytes) : Prop :=
  ∃ content number previous data, Der.IsNatContent h.number.toNat content ∧
    Der.IsElement Der.integerTag content number ∧ Der.IsElement Der.octetStringTag h.previousHash previous ∧
    Der.IsElement Der.octetStringTag h.dataHash data ∧
    Der.IsElement Der.sequenceTag (number ++ previous ++ data) bs

variable {h : BlockHeader} {bs : Bytes}

/-- The content of the sequence that a header is. -/
def headerContent (h : BlockHeader) : Bytes :=
  Der.integer h.number.toNat ++ Der.octetString h.previousHash ++ Der.octetString h.dataHash

/-- Every part of a header that can be spelled as a whole can be spelled. -/
structure Spellable (h : BlockHeader) : Prop where
  number : (Der.natContent h.number.toNat).length < 256 ^ 126
  previousHash : h.previousHash.length < 256 ^ 126
  dataHash : h.dataHash.length < 256 ^ 126
  content : (headerContent h).length < 256 ^ 126

theorem Spellable.of_length (hb : (headerBytes h).length < 256 ^ 126) : Spellable h := by
  have hcontent : (headerContent h).length ≤ (headerBytes h).length := Der.length_le_length_element
  have hnumber : (Der.natContent h.number.toNat).length ≤ (Der.integer h.number.toNat).length :=
    Der.length_le_length_element
  have hprevious : h.previousHash.length ≤ (Der.octetString h.previousHash).length := Der.length_le_length_element
  have hdata : h.dataHash.length ≤ (Der.octetString h.dataHash).length := Der.length_le_length_element
  have hparts : (headerContent h).length = (Der.integer h.number.toNat).length +
      (Der.octetString h.previousHash).length + (Der.octetString h.dataHash).length := by
    simp only [headerContent, List.length_append]
  constructor <;> omega

theorem isHeader_iff (hs : Spellable h) : IsHeader h bs ↔ bs = headerBytes h := by
  simp only [IsHeader, Der.isNatContent_iff, Der.isElement_iff hs.previousHash, Der.isElement_iff hs.dataHash]
  constructor
  · rintro ⟨content, number, previous, data, rfl, hnumber, rfl, rfl, hbody⟩
    rw [Der.isElement_iff hs.number] at hnumber
    subst hnumber
    exact (Der.isElement_iff hs.content).1 hbody
  · rintro rfl
    exact ⟨_, _, _, _, rfl, (Der.isElement_iff hs.number).2 rfl, rfl, rfl, (Der.isElement_iff hs.content).2 rfl⟩

/-- The reader takes the strict spelling of a header, and no other bytes. -/
theorem readHeader?_eq_some_iff (hs : Spellable h) : readHeader? bs = some h ↔ bs = headerBytes h := by
  constructor
  · intro hread
    simp only [readHeader?, Option.bind_eq_bind, Option.bind_eq_some_iff, Prod.exists] at hread
    obtain ⟨body, hbody, number, us, hnumber, previous, vs, hprevious, data, hdata, hif⟩ := hread
    split at hif
    next hlt =>
      cases hif
      have hn : number.toUInt64.toNat = number := Nat.mod_eq_of_lt hlt
      have hspell := hs.number
      rw [hn] at hspell
      -- the parts are read from the front, so only now the whole content is known to be short enough
      obtain rfl := (Der.readNat_eq_some_iff hspell).1 hnumber
      obtain rfl := (Der.read_eq_some_iff hs.previousHash).1 hprevious
      obtain rfl := (Der.readOnly_eq_some_iff hs.dataHash).1 hdata
      have hcontent : headerContent ⟨number.toUInt64, previous, data⟩ = Der.integer number ++
          (Der.octetString previous ++ Der.octetString data) := by
        rw [headerContent, hn, List.append_assoc]
      exact (Der.readOnly_eq_some_iff hs.content).1 (hcontent ▸ hbody)
    next => cases hif
  · rintro rfl
    have hbody : Der.readOnly Der.sequenceTag (headerBytes h) = some (headerContent h) :=
      (Der.readOnly_eq_some_iff hs.content).2 rfl
    have hnumber : ∀ rest, Der.readNat (Der.integer h.number.toNat ++ rest) = some (h.number.toNat, rest) :=
      fun rest => (Der.readNat_eq_some_iff hs.number).2 rfl
    have hprevious : ∀ rest, Der.read Der.octetStringTag (Der.octetString h.previousHash ++ rest) =
        some (h.previousHash, rest) := fun rest => (Der.read_eq_some_iff hs.previousHash).2 rfl
    have hdata : Der.readOnly Der.octetStringTag (Der.octetString h.dataHash) = some h.dataHash :=
      (Der.readOnly_eq_some_iff hs.dataHash).2 rfl
    simp only [readHeader?, hbody, headerContent, List.append_assoc, hnumber, hprevious, hdata, Option.bind_eq_bind,
      Option.bind_some]
    rw [if_pos h.number.toNat_lt]
    simp

theorem length_headerBytes_lt (hp : h.previousHash.length < 2 ^ 64) (hd : h.dataHash.length < 2 ^ 64) :
    (headerBytes h).length < 256 ^ 126 := by
  have hnumber : (Der.integer h.number.toNat).length ≤ 11 :=
    Der.length_integer_le (k := 8) h.number.toNat_lt (by decide)
  have hprevious : (Der.octetString h.previousHash).length ≤ h.previousHash.length + 128 :=
    Der.length_element_le (by omega)
  have hdata : (Der.octetString h.dataHash).length ≤ h.dataHash.length + 128 := Der.length_element_le (by omega)
  have hcontent : (headerContent h).length < 2 ^ 66 := by
    simp only [headerContent, List.length_append]
    omega
  have hfits : (headerContent h).length < 256 ^ 126 := by omega
  have hbytes : (headerBytes h).length ≤ (headerContent h).length + 128 := Der.length_element_le hfits
  omega

/-- **The bytes that are hashed are canonical and unambiguous.** They are the only strict spelling of
the header and the only bytes that a strict reader takes for it, and every other header has other
bytes. -/
theorem headerBytes_canonical (hp : h.previousHash.length < 2 ^ 64) (hd : h.dataHash.length < 2 ^ 64) :
    (∀ bs, IsHeader h bs ↔ bs = headerBytes h) ∧ (∀ bs, readHeader? bs = some h ↔ bs = headerBytes h) ∧
      ∀ h', headerBytes h' = headerBytes h → h' = h := by
  have hb := length_headerBytes_lt hp hd
  have hs := Spellable.of_length hb
  refine ⟨fun bs => isHeader_iff hs, fun bs => readHeader?_eq_some_iff hs, fun h' heq => ?_⟩
  have hread' : readHeader? (headerBytes h') = some h' := (readHeader?_eq_some_iff (.of_length (heq ▸ hb))).2 rfl
  have hread : readHeader? (headerBytes h') = some h := (readHeader?_eq_some_iff hs).2 heq
  exact Option.some.inj (hread'.symm.trans hread)

/-- A header with a number that needs a zero in front and a hash whose length takes two bytes. -/
def longHeader : BlockHeader := { number := 0x8000000000000000, previousHash := List.replicate 200 7 }

theorem headerBytes_canonical_long :
    IsHeader longHeader (0x30 :: 0x81 :: 0xD8 :: 0x02 :: 0x09 :: 0x00 :: 0x80 :: 0 :: 0 :: 0 :: 0 :: 0 :: 0 :: 0 ::
      0x04 :: 0x81 :: 0xC8 :: (List.replicate 200 7 ++ [0x04, 0x00])) ∧
      readHeader? (headerBytes longHeader) = some longHeader ∧
      ∀ h', headerBytes h' = headerBytes longHeader → h' = longHeader := by
  have hp : longHeader.previousHash.length = 200 := List.length_replicate
  obtain ⟨hstrict, hread, hinj⟩ := headerBytes_canonical (h := longHeader) (by omega) (by decide)
  exact ⟨(hstrict _).2 (by decide +kernel), (hread _).2 rfl, hinj⟩

end LedgerClient.Block
