/-
Records of written fields.

A field is written as one record (`Field.toRecord`), and reading what a list of
fields is written as gives their records back (`readAll_writeAll`). The other
way round, records that have been read would not take more bytes if they were
written again (`size_le_of_readAll`): keys, numbers and lengths may be spelled
longer than necessary, never shorter.
-/
import LedgerClient.Wire.Message
import LedgerClient.Wire.Record
import LedgerClient.Proofs.Wire.Varint

namespace LedgerClient.Wire

/-! ## The length of an encoding -/

theorem length_writeKey (tag wireType : Nat) : (writeKey tag wireType).length = keySize tag wireType :=
  Varint.length_write _

theorem keySize_pos (tag wireType : Nat) : 0 < keySize tag wireType := Varint.size_pos _

/-- A key takes the same room with any wire type. -/
theorem keySize_eq {tag wireType wireType' : Nat} (ht : 0 < tag ∧ tag < 2 ^ 29) (hw : wireType < 8)
    (hw' : wireType' < 8) : keySize tag wireType = keySize tag wireType' := by
  have hlog {w : Nat} (hw : w < 8) : (8 * tag + w).log2 = tag.log2 + 3 := by
    rw [Nat.log2_eq_iff (by omega)]
    have hlow := Nat.log2_self_le (Nat.ne_of_gt ht.1)
    have hhigh : tag < 2 ^ (tag.log2 + 1) := Nat.lt_log2_self
    rw [Nat.pow_succ] at hhigh
    simp only [Nat.pow_succ]
    omega
  rw [keySize, keySize, Varint.size, Varint.size, Varint.toNat_toUInt64 (by omega), Varint.toNat_toUInt64 (by omega),
    hlog hw, hlog hw']

theorem length_writeChunk (tag : Nat) (content : Bytes) :
    (writeChunk tag content).length = chunkSize tag content.length := by
  simp only [writeChunk, chunkSize, List.length_append, length_writeKey, Varint.length_write]

theorem Scalar.length_write (tag : Nat) (v : Scalar) : (v.write tag).length = v.size tag := by
  simp only [Scalar.write, Scalar.size]
  split
  · simp only [List.length_append, length_writeKey, Varint.length_write]
  · exact length_writeChunk _ _

mutual
theorem Field.length_write : (f : Field) → f.write.length = f.size
  | .scalar tag v => Scalar.length_write tag v
  | .message tag fs => by
    simp only [Field.write, Field.size, length_writeChunk, Field.length_writeAll fs]

theorem Field.length_writeAll : (fs : List Field) → (Field.writeAll fs).length = Field.sizeAll fs
  | [] => rfl
  | f :: fs => by
    simp only [Field.writeAll, Field.sizeAll, List.length_append, Field.length_write f,
      Field.length_writeAll fs]
end

/-- The computed length of an encoding is the number of bytes written. -/
theorem Message.length_encode (m : Message) : m.encode.length = m.size := Field.length_writeAll m

theorem Scalar.size_pos (tag : Nat) (v : Scalar) : 0 < v.size tag := by
  simp only [Scalar.size, chunkSize]
  split
  · have := keySize_pos tag 0
    omega
  · have := keySize_pos tag 2
    omega

theorem Field.size_pos (f : Field) : 0 < f.size := by
  cases f with
  | scalar tag v => exact Scalar.size_pos tag v
  | message tag fs =>
    have := keySize_pos tag 2
    simp only [Field.size, chunkSize]
    omega

theorem Field.length_le_sizeAll : (fs : List Field) → fs.length ≤ Field.sizeAll fs
  | [] => Nat.le_refl _
  | f :: fs => by
    have := f.size_pos
    have := Field.length_le_sizeAll fs
    simp only [List.length_cons, Field.sizeAll]
    omega

theorem Field.size_le_sizeAll {f : Field} : {fs : List Field} → f ∈ fs → f.size ≤ Field.sizeAll fs
  | g :: fs, h => by
    simp only [Field.sizeAll]
    rcases List.mem_cons.1 h with rfl | h
    · omega
    · have := Field.size_le_sizeAll h
      omega

theorem Field.sizeAll_lt_size (tag : Nat) (fs : List Field) :
    Field.sizeAll fs < (Field.message tag fs).size := by
  have := keySize_pos tag 2
  simp only [Field.size, chunkSize]
  omega

/-! ## Reading a written record -/

/-- The record a scalar is written as. -/
def Scalar.toRecord (tag : Nat) (v : Scalar) : Record :=
  match v.varint? with
  | some n => .varint tag n
  | none => .chunk tag v.content

/-- The record a field is written as. -/
def Field.toRecord : Field → Record
  | .scalar tag v => v.toRecord tag
  | .message tag fs => .chunk tag (Field.writeAll fs)

@[simp] theorem Field.tag_toRecord (f : Field) : f.toRecord.tag = f.tag := by
  cases f with
  | scalar tag v =>
    simp only [toRecord, Scalar.toRecord]
    split <;> rfl
  | message tag fs => rfl

namespace Record

theorem readKey_writeKey {tag wireType : Nat} (ht : 0 < tag ∧ tag < 2 ^ 29) (hw : wireType < 8) (rest : Bytes) :
    readKey (writeKey tag wireType ++ rest) = some (tag, wireType, rest) := by
  have hk : (8 * tag + wireType).toUInt64.toNat = 8 * tag + wireType := Varint.toNat_toUInt64 (by omega)
  simp only [readKey, writeKey, Varint.read_write, Option.bind_eq_bind, Option.bind_some, hk]
  rw [if_neg (by simp only [UInt32.size]; omega)]
  have h1 : (8 * tag + wireType) / 8 = tag := by omega
  have h2 : (8 * tag + wireType) % 8 = wireType := by omega
  rw [h1, h2]

theorem split_append (content rest : Bytes) : split content.length (content ++ rest) = some (content, rest) := by
  simp [split]

variable {fuel tag : Nat} {keyed : Nat → Bool} {enclosing : Option Nat}

theorem payloadType_of_not_keyed (h : keyed tag = false) (wireType : Nat) : payloadType keyed tag wireType = wireType := by
  rw [payloadType, h, Bool.false_and, if_neg Bool.false_ne_true]

@[simp] theorem payloadType_unkeyed (tag wireType : Nat) : payloadType unkeyed tag wireType = wireType :=
  payloadType_of_not_keyed rfl wireType

/-- A chunk is a chunk under any number. -/
@[simp] theorem payloadType_chunk (keyed : Nat → Bool) (tag : Nat) : payloadType keyed tag 2 = 2 := by
  rw [payloadType, ite_self]

theorem readUpTo_varint (ht : 0 < tag ∧ tag < 2 ^ 29) (hk : keyed tag = false) (n : UInt64) (rest : Bytes) :
    readUpTo (fuel + 1) keyed enclosing (writeKey tag 0 ++ Varint.write n ++ rest) =
      (readUpTo fuel keyed enclosing rest).map fun (rs, rest) => (.varint tag n :: rs, rest) := by
  have hne : writeKey tag 0 ++ Varint.write n ++ rest ≠ [] := by
    have := keySize_pos tag 0
    have := length_writeKey tag 0
    intro h
    have := congrArg List.length h
    simp only [List.length_append, List.length_nil] at this
    omega
  rw [readUpTo.eq_3 _ _ _ _ fun _ h => hne h, List.append_assoc, readKey_writeKey ht (by decide)]
  simp only [Option.bind_eq_bind, Option.bind_some, payloadType_of_not_keyed hk, Varint.read_write]

theorem readUpTo_chunk (ht : 0 < tag ∧ tag < 2 ^ 29) {content : Bytes} (hc : content.length < 2 ^ 64) (rest : Bytes) :
    readUpTo (fuel + 1) keyed enclosing (writeChunk tag content ++ rest) =
      (readUpTo fuel keyed enclosing rest).map fun (rs, rest) => (.chunk tag content :: rs, rest) := by
  have hne : writeChunk tag content ++ rest ≠ [] := by
    have := keySize_pos tag 2
    have := length_writeChunk tag content
    intro h
    have := congrArg List.length h
    simp only [chunkSize, List.length_append, List.length_nil] at *
    omega
  rw [readUpTo.eq_3 _ _ _ _ fun _ h => hne h, writeChunk, List.append_assoc, List.append_assoc,
    readKey_writeKey ht (by decide)]
  simp only [Option.bind_eq_bind, Option.bind_some, payloadType_chunk, Varint.read_write, Varint.toNat_toUInt64 hc,
    split_append]

/-- What a field has to be for its record to be read as it is written: no scalar is the entry of a map. -/
structure Readable (keyed : Nat → Bool) (f : Field) : Prop where
  tag : 0 < f.tag ∧ f.tag < 2 ^ 29
  unkeyed : ∀ tag v, f = .scalar tag v → keyed tag = false

theorem readUpTo_write {f : Field} (hf : Readable keyed f) (hs : f.size < 2 ^ 64) (rest : Bytes) :
    readUpTo (fuel + 1) keyed enclosing (f.write ++ rest) =
      (readUpTo fuel keyed enclosing rest).map fun (rs, rest) => (f.toRecord :: rs, rest) := by
  cases f with
  | scalar tag v =>
    cases hv : v.varint? with
    | some n =>
      simp only [Field.write, Scalar.write, Field.toRecord, Scalar.toRecord, hv]
      exact readUpTo_varint hf.tag (hf.unkeyed tag v rfl) n rest
    | none =>
      simp only [Field.size, Scalar.size, hv, chunkSize] at hs
      simp only [Field.write, Scalar.write, Field.toRecord, Scalar.toRecord, hv]
      exact readUpTo_chunk hf.tag (by omega) rest
  | message tag fs =>
    have := Field.sizeAll_lt_size tag fs
    exact readUpTo_chunk hf.tag (by rw [Field.length_writeAll]; omega) rest

theorem readUpTo_writeAll : ∀ {fs : List Field} {fuel : Nat}, (∀ f ∈ fs, Readable keyed f) →
    Field.sizeAll fs < 2 ^ 64 → fs.length < fuel →
    readUpTo fuel keyed none (Field.writeAll fs) = some (fs.map Field.toRecord, [])
  | [], fuel + 1, _, _, _ => rfl
  | f :: fs, fuel + 1, hfs, hs, hl => by
    simp only [Field.sizeAll] at hs
    have ih : readUpTo fuel keyed none (Field.writeAll fs) = some (fs.map Field.toRecord, []) :=
      readUpTo_writeAll (fun g hg => hfs g (by simp [hg])) (by omega) (by simpa using hl)
    rw [Field.writeAll, readUpTo_write (hfs f (by simp)) (by omega), ih]
    rfl

/-- The records of written fields are read back. -/
theorem readAll_writeAll {fs : List Field} (hfs : ∀ f ∈ fs, Readable keyed f) (hs : Field.sizeAll fs < 2 ^ 64) :
    readAll keyed (Field.writeAll fs) = some (fs.map Field.toRecord) := by
  have := Field.length_le_sizeAll fs
  rw [readAll, readUpTo_writeAll hfs hs (by rw [Field.length_writeAll]; omega)]
  rfl

/-! ## The room that records need -/

/-- The bytes a number or a chunk takes when it is written; the others are never written. -/
def size : Record → Nat
  | varint tag n => keySize tag 0 + Varint.size n
  | chunk tag bytes => chunkSize tag bytes.length
  | fixed64 .. | group .. | fixed32 .. => 0

def sizeAll : List Record → Nat
  | [] => 0
  | r :: rs => r.size + sizeAll rs

/-- A key that has been read took no less room than one with any other wire type. -/
theorem size_le_of_readKey {bs rest : Bytes} {tag wireType : Nat} (h : readKey bs = some (tag, wireType, rest))
    (wireType' : Nat) (hw : wireType' < 8) : keySize tag wireType' + rest.length ≤ bs.length := by
  simp only [readKey, Option.bind_eq_bind, Option.bind_eq_some_iff, Prod.exists] at h
  obtain ⟨key, rest', hr, h⟩ := h
  split at h
  · cases h
  · next hbounds =>
    simp only [Option.some.injEq, Prod.mk.injEq] at h
    obtain ⟨rfl, rfl, rfl⟩ := h
    simp only [UInt32.size, not_or, Nat.not_lt, Nat.not_le] at hbounds
    have hk : (8 * (key.toNat / 8) + key.toNat % 8).toUInt64 = key := by
      rw [Nat.div_add_mod]
      simp
    have hsize : keySize (key.toNat / 8) wireType' = keySize (key.toNat / 8) (key.toNat % 8) :=
      keySize_eq (by omega) hw (by omega)
    rw [hsize, keySize, hk]
    exact Varint.size_le_of_read hr

theorem length_of_split {n : Nat} {bs content rest : Bytes} (h : split n bs = some (content, rest)) :
    content.length = n ∧ content.length + rest.length = bs.length := by
  simp only [split] at h
  split at h
  · simp only [Option.some.injEq, Prod.mk.injEq] at h
    obtain ⟨rfl, rfl⟩ := h
    simp only [List.length_take, List.length_drop]
    omega
  · cases h

theorem size_le_of_readUpTo : ∀ {fuel : Nat} {keyed : Nat → Bool} {enclosing : Option Nat} {bs rest : Bytes}
    {rs : List Record}, readUpTo fuel keyed enclosing bs = some (rs, rest) → sizeAll rs + rest.length ≤ bs.length
  | 0, _, _, _, _, _, h => by simp [readUpTo] at h
  | fuel + 1, keyed, enclosing, bs, rest, rs, h => by
    have ih : ∀ {keyed : Nat → Bool} {enclosing : Option Nat} {bs rest : Bytes} {rs : List Record},
        readUpTo fuel keyed enclosing bs = some (rs, rest) → sizeAll rs + rest.length ≤ bs.length :=
      size_le_of_readUpTo
    by_cases hb : enclosing = none ∧ bs = []
    · obtain ⟨rfl, rfl⟩ := hb
      simp only [readUpTo, Option.some.injEq, Prod.mk.injEq] at h
      obtain ⟨rfl, rfl⟩ := h
      simp [sizeAll]
    rw [readUpTo.eq_3 _ _ _ _ fun he hn => hb ⟨he, hn⟩] at h
    simp only [Option.bind_eq_bind, Option.bind_eq_some_iff, Prod.exists] at h
    obtain ⟨tag, wireType, bs', hk, h⟩ := h
    have hvarint := size_le_of_readKey hk 0 (by decide)
    have hchunk := size_le_of_readKey hk 2 (by decide)
    split at h
    · simp only [Option.bind_eq_some_iff, Option.map_eq_some_iff, Prod.exists, Prod.mk.injEq] at h
      obtain ⟨n, cs, hn, rs', rest', hr, rfl, rfl⟩ := h
      have := Varint.size_le_of_read hn
      have := ih hr
      simp only [sizeAll, size]
      omega
    · simp only [Option.bind_eq_some_iff, Option.map_eq_some_iff, Prod.exists, Prod.mk.injEq] at h
      obtain ⟨content, cs, hn, rs', rest', hr, rfl, rfl⟩ := h
      have := length_of_split hn
      have := ih hr
      simp only [sizeAll, size]
      omega
    · simp only [Option.bind_eq_some_iff, Option.map_eq_some_iff, Prod.exists, Prod.mk.injEq] at h
      obtain ⟨length, cs, hl, content, cs', hn, rs', rest', hr, rfl, rfl⟩ := h
      have := Varint.size_le_of_read hl
      obtain ⟨hc, hn⟩ := length_of_split hn
      have := ih hr
      have hlen : content.length.toUInt64 = length := by
        rw [hc]
        simp
      simp only [sizeAll, size, chunkSize, hlen]
      omega
    · simp only [Option.bind_eq_some_iff, Option.map_eq_some_iff, Prod.exists, Prod.mk.injEq] at h
      obtain ⟨members, cs, hm, rs', rest', hr, rfl, rfl⟩ := h
      have := ih hm
      have := ih hr
      simp only [sizeAll, size]
      omega
    · split at h
      · simp only [Option.some.injEq, Prod.mk.injEq] at h
        obtain ⟨rfl, rfl⟩ := h
        simp only [sizeAll]
        omega
      · cases h
    · simp only [Option.bind_eq_some_iff, Option.map_eq_some_iff, Prod.exists, Prod.mk.injEq] at h
      obtain ⟨content, cs, hn, rs', rest', hr, rfl, rfl⟩ := h
      have := length_of_split hn
      have := ih hr
      simp only [sizeAll, size]
      omega
    · cases h

/-- Records that have been read need no more room than they took. -/
theorem size_le_of_readAll {bs : Bytes} {rs : List Record} (h : readAll keyed bs = some rs) :
    sizeAll rs ≤ bs.length := by
  simp only [readAll, Option.map_eq_some_iff, Prod.exists] at h
  obtain ⟨rs', rest, hr, rfl⟩ := h
  have := size_le_of_readUpTo hr
  omega

end Record

end LedgerClient.Wire
