/-
What a reader returns is a value.

Whatever the bytes are (fields repeated, out of order or unknown, numbers
spelled too long), the message read from them is canonical, nested no deeper
than the budget, and takes at most twice their number when it is written: a
negative number of 32 bits may have been spelled with half the bytes it is
written with. `Within` says all three, and every record that is put keeps it.
-/
import LedgerClient.Proofs.Text.Utf8
import LedgerClient.Proofs.Wire.Insert
import LedgerClient.Proofs.Wire.Record

namespace LedgerClient.Wire

/-! ## Scalars -/

theorem ScalarKind.kind_of_read {kind : ScalarKind} {r : Record} {v : Scalar} (h : kind.read r = some v) :
    v.kind = kind := by
  cases kind <;> cases r <;> simp only [ScalarKind.read, Option.some.injEq, Option.map_eq_some_iff,
    reduceCtorEq] at h
  case text.chunk => obtain ⟨_, -, rfl⟩ := h; rfl
  all_goals subst h; rfl

/-- The varint of a number of 32 bits takes at most twice the bytes that its spelling took. -/
theorem size_int32_le (n : UInt64) :
    Varint.size n.toUInt32.toInt32.toInt64.toUInt64 ≤ 2 * Varint.size n := by
  have hpos := Varint.size_pos n
  by_cases hn : n.toNat < 2 ^ 31
  · have : n.toUInt32.toInt32.toInt64.toUInt64.toNat = n.toNat := by
      have h1 : n.toUInt32.toInt32.toInt = n.toNat := by
        rw [Int32.toInt, UInt32.toBitVec_toInt32, BitVec.toInt_eq_toNat_of_lt]
        · simp
          omega
        · simp
          omega
      have h2 : n.toUInt32.toInt32.toInt64.toInt = n.toNat := by rw [Int32.toInt_toInt64, h1]
      have h3 : n.toUInt32.toInt32.toInt64 = n.toInt64 := by
        apply Int64.toInt_inj.1
        rw [h2, Int64.toInt, UInt64.toBitVec_toInt64, BitVec.toInt_eq_toNat_of_lt]
        · simp
        · simp
          omega
      rw [h3]
      simp
    have := Varint.size_le_size (m := n.toUInt32.toInt32.toInt64.toUInt64) (n := n) (by omega)
    omega
  · have h5 : 5 ≤ Varint.size n := by
      have : 31 ≤ n.toNat.log2 := (Nat.le_log2 (by omega)).2 (by omega)
      simp only [Varint.size]
      omega
    have h10 := Varint.size_le_ten n.toUInt32.toInt32.toInt64.toUInt64
    omega

theorem ScalarKind.size_of_read {kind : ScalarKind} {r : Record} {v : Scalar} (h : kind.read r = some v) :
    v.size r.tag ≤ 2 * r.size := by
  have hb : Varint.size 0 = 1 ∧ Varint.size 1 = 1 := ⟨rfl, rfl⟩
  cases kind <;> cases r <;> simp only [ScalarKind.read, Option.some.injEq, Option.map_eq_some_iff,
    reduceCtorEq] at h
  case int32.varint t n =>
    have := size_int32_le n
    subst h
    simp only [Scalar.size, Scalar.varint?, Record.size, Record.tag]
    omega
  case int64.varint t n =>
    subst h
    simp only [Scalar.size, Scalar.varint?, Record.size, Record.tag, UInt64.toUInt64_toInt64]
    omega
  case uint32.varint t n =>
    have := Varint.size_le_size (m := n.toUInt32.toUInt64) (n := n) (by simp; omega)
    subst h
    simp only [Scalar.size, Scalar.varint?, Record.size, Record.tag]
    omega
  case uint64.varint t n =>
    subst h
    simp only [Scalar.size, Scalar.varint?, Record.size, Record.tag]
    omega
  case bool.varint t n =>
    have := Varint.size_pos n
    subst h
    simp only [Scalar.size, Scalar.varint?, Record.size, Record.tag]
    split <;> omega
  case text.chunk t b =>
    obtain ⟨s, hs, rfl⟩ := h
    simp only [Scalar.size, Scalar.varint?, Scalar.content, Record.size, Record.tag, Utf8.encode_of_decode? hs]
    omega
  case bytes.chunk t b =>
    subst h
    simp only [Scalar.size, Scalar.varint?, Scalar.content, Record.size, Record.tag]
    omega

/-! ## Chunks -/

theorem size_double_le {k l : Nat} (hk : k ≤ 2 * l) (hl : 2 * l < 2 ^ 64) :
    Varint.size k.toUInt64 ≤ Varint.size l.toUInt64 + 1 := by
  have := Varint.size_add_le (m := l.toUInt64) (n := l.toUInt64) (k := k.toUInt64) (by
    rw [Varint.toNat_toUInt64 (by omega), Varint.toNat_toUInt64 (by omega)]
    omega)
  omega

theorem chunkSize_double_le (tag : Nat) {k l : Nat} (hk : k ≤ 2 * l) (hl : 2 * l < 2 ^ 64) :
    chunkSize tag k ≤ 2 * chunkSize tag l := by
  have := size_double_le hk hl
  have := Varint.size_pos l.toUInt64
  simp only [chunkSize]
  omega

/-- A message of `a` bytes that grows with `l` bytes read into it. -/
theorem chunkSize_grown_le (tag : Nat) {k a l : Nat} (hk : k ≤ a + 2 * l) (hl : a + 2 * l < 2 ^ 64) :
    chunkSize tag k ≤ chunkSize tag a + 2 * chunkSize tag l := by
  have := Varint.size_add_le (m := a.toUInt64) (n := (2 * l).toUInt64) (k := k.toUInt64) (by
    rw [Varint.toNat_toUInt64 (by omega), Varint.toNat_toUInt64 (by omega), Varint.toNat_toUInt64 (by omega)]
    exact hk)
  have := size_double_le (k := 2 * l) (l := l) (Nat.le_refl _) (by omega)
  have := Varint.size_pos l.toUInt64
  have := Varint.size_pos a.toUInt64
  simp only [chunkSize]
  omega

namespace Message

/-- A canonical message of a shape within bounds for its nesting and its size. -/
structure Within (s : Shape) (limit bound : Nat) (m : Message) : Prop where
  canonical : m.Canonical s
  nesting : m.nesting ≤ limit
  size : m.size ≤ bound

variable {s inner : Shape} {limit bound : Nat} {m : Message} {spec : FieldSpec}

theorem Within.nil : Within s limit bound [] := ⟨Fits.nil, Nat.zero_le _, Nat.zero_le _⟩

/-- What `enter` has to guarantee: from a message within bounds it makes one within bounds. -/
def EnterWithin (limit : Nat) (enter : Shape → Message → Bytes → Option Message) : Prop :=
  ∀ {inner : Shape} {m m' : Message} {bytes : Bytes} {bound : Nat}, enter inner m bytes = some m' →
    Within inner (limit - 1) bound m → bound + 2 * bytes.length < 2 ^ 64 →
    0 < limit ∧ Within inner (limit - 1) (bound + 2 * bytes.length) m'

/-- A message field as a record gives it: a map entry leaves out a value without fields. -/
theorem fits_of_within {tag n : Nat} {fs : Message} (hs : s.field? tag = some spec)
    (hc : spec.content = .message inner) (h : Within inner limit n fs) :
    ∃ fs', (if spec.occurrence = .keyed then trimEntry fs else fs) = fs' ∧
      (Field.message tag fs').Fits (· < ·) s ∧ fs'.nesting ≤ limit ∧ fs'.size ≤ n := by
  refine ⟨_, rfl, ?_⟩
  split
  · refine ⟨Field.fits_message.2 ⟨spec, inner, hs, hc, h.canonical.sublist List.filter_sublist, fun _ => ?_⟩,
      Field.nestingAll_le_iff.2 fun f hf => ?_, Nat.le_trans (sizeAll_filter_le _ _) h.size⟩
    · simp [trimEntry]
    · exact Field.nestingAll_le_iff.1 h.nesting f (List.mem_filter.1 hf).1
  · next hk =>
    exact ⟨Field.fits_message.2 ⟨spec, inner, hs, hc, h.canonical, fun h => absurd h hk⟩, h.nesting, h.size⟩

/-- A record of a message is read into nothing, or into a message that the result replaces. -/
theorem current_cases {tag : Nat} (hs : s.field? tag = some spec) :
    m.current spec = [] ∨ ∃ old, .message tag old ∈ m ∧ m.current spec = old ∧
      ∀ fs, replaces spec.occurrence (.message tag fs) (.message tag old) = true := by
  have hmem : ∀ {old : Message}, m.child? spec.tag = some old → .message tag old ∈ m := by
    intro old h
    rw [Shape.tag_of_field? hs] at h
    simp only [child?] at h
    split at h
    · next t gs hf =>
      cases h
      have ht : t = tag := by simpa [Field.tag] using List.find?_some hf
      exact ht ▸ List.mem_of_find?_eq_some hf
    · cases h
  cases hcur : m.child? spec.tag with
  | none =>
    left
    simp only [current, hcur]
    split <;> rfl
  | some old =>
    cases ho : spec.occurrence with
    | single =>
      exact .inr ⟨old, hmem hcur, by simp [current, ho, hcur], fun _ => by simp [replaces, Field.tag]⟩
    | choice group =>
      refine .inr ⟨old, hmem hcur, by simp [current, ho, hcur], fun _ => ?_⟩
      simp [replaces, Field.tag, Shape.mem_of_choice hs ho]
    | repeated | keyed => exact .inl (by simp [current, ho])

theorem within_putMessage {tag : Nat} {enter : Shape → Message → Bytes → Option Message} {bytes : Bytes}
    {fs : Message} (he : EnterWithin limit enter) (hs : s.field? tag = some spec)
    (hc : spec.content = .message inner) (hm : Within s limit bound m)
    (hb : bound + 2 * chunkSize tag bytes.length < 2 ^ 64)
    (h : enter inner (m.current spec) bytes = some fs) :
    Within s limit (bound + 2 * chunkSize tag bytes.length)
      (m.put spec.occurrence (.message tag (if spec.occurrence = .keyed then trimEntry fs else fs))) := by
  have hlen : bytes.length ≤ chunkSize tag bytes.length := by
    simp only [chunkSize]
    omega
  have hms := hm.size
  rcases current_cases (m := m) hs with hcur | ⟨old, hold, hcur, hrep⟩
  · rw [hcur] at h
    have hnil : Within inner (limit - 1) 0 [] := Within.nil
    obtain ⟨hl, hfs⟩ := he h hnil (by omega)
    obtain ⟨fs', hfs', hfit, hn, hsize⟩ := fits_of_within hs hc hfs
    rw [hfs']
    refine ⟨hm.canonical.put hs fun _ => hfit, nesting_put hm.nesting ?_, ?_⟩
    · simp only [Field.nesting, Message.nesting] at hn ⊢
      omega
    · have := size_put_le spec.occurrence (.message tag fs') m
      have := chunkSize_double_le tag (k := fs'.size) (l := bytes.length) (by omega) (by omega)
      simp only [Field.size, Message.size] at *
      omega
  · obtain ⟨spec', inner', hs', hc', hfit, -⟩ := Field.fits_message.1 (hm.canonical.of_mem hold)
    rw [hs] at hs'
    cases hs'
    rw [hc] at hc'
    cases hc'
    have holdn := Field.nestingAll_le_iff.1 hm.nesting _ hold
    have holds := Field.size_le_sizeAll hold
    have hin := Field.sizeAll_lt_size tag old
    have hcurw : Within inner (limit - 1) old.size old := by
      refine ⟨hfit, ?_, Nat.le_refl _⟩
      simp only [Field.nesting, Message.nesting] at holdn ⊢
      omega
    rw [hcur] at h
    simp only [Message.size] at hms
    obtain ⟨hl, hfs⟩ := he h hcurw (by simp only [Message.size]; omega)
    obtain ⟨fs', hfs', hfit', hn, hsize⟩ := fits_of_within hs hc hfs
    rw [hfs']
    refine ⟨hm.canonical.put hs fun _ => hfit', nesting_put hm.nesting ?_, ?_⟩
    · simp only [Field.nesting, Message.nesting] at hn ⊢
      omega
    · have := size_put_add_le hold (hrep fs')
      have := chunkSize_grown_le tag (k := fs'.size) (a := old.size) (l := bytes.length) (by omega)
        (by simp only [Message.size]; omega)
      simp only [Field.size, Message.size] at *
      omega

/-- A record keeps a message within bounds. -/
theorem within_putRecord {enter : Shape → Message → Bytes → Option Message} {r : Record} {m' : Message}
    (he : EnterWithin limit enter) (hm : Within s limit bound m) (hb : bound + 2 * r.size < 2 ^ 64)
    (h : putRecord enter limit s m r = some m') : Within s limit (bound + 2 * r.size) m' := by
  simp only [putRecord] at h
  split at h
  · split at h
    · cases h
      exact ⟨hm.canonical, hm.nesting, Nat.le_trans hm.size (Nat.le_add_right _ _)⟩
    · cases h
  next spec hs =>
  have ht := Shape.tag_of_field? hs
  split at h
  · next r _ _ kind hc =>
    simp only [Option.map_eq_some_iff] at h
    obtain ⟨v, hv, rfl⟩ := h
    rw [ht]
    refine ⟨hm.canonical.put hs fun hw => Field.fits_scalar.2 ⟨spec, hs, ?_, hw⟩,
      nesting_put hm.nesting (Nat.zero_le _), ?_⟩
    · rw [hc, ScalarKind.kind_of_read hv]
    · have := size_put_le spec.occurrence (.scalar r.tag v) m
      have := ScalarKind.size_of_read hv
      have := hm.size
      simp only [Field.size] at *
      omega
  · next inner t bytes hc =>
    simp only [Option.map_eq_some_iff] at h
    obtain ⟨fs, hfs, rfl⟩ := h
    rw [ht]
    exact within_putMessage he hs hc hm hb hfs
  · cases h

theorem within_putRecords {enter : Shape → Message → Bytes → Option Message} {m' : Message}
    (he : EnterWithin limit enter) : ∀ {rs : List Record} {m : Message} {bound : Nat},
      Within s limit bound m → bound + 2 * Record.sizeAll rs < 2 ^ 64 →
      rs.foldlM (putRecord enter limit s) m = some m' → Within s limit (bound + 2 * Record.sizeAll rs) m'
  | [], m, bound, hm, _, h => by
    cases h
    exact hm
  | r :: rs, m, bound, hm, hb, h => by
    simp only [Record.sizeAll] at hb ⊢
    simp only [List.foldlM_cons, Option.bind_eq_bind, Option.bind_eq_some_iff] at h
    obtain ⟨m₁, h₁, h⟩ := h
    have := within_putRecords he (within_putRecord he hm (by omega) h₁) (by omega) h
    rw [show bound + 2 * (r.size + Record.sizeAll rs) = bound + 2 * r.size + 2 * Record.sizeAll rs by omega]
    exact this

/-- How a reader with a budget reads the messages inside. -/
def inside : (budget : Nat) → Shape → Message → Bytes → Option Message
  | 0 => fun _ _ _ => none
  | budget + 1 => merge budget

theorem merge_eq (budget : Nat) (m : Message) (bytes : Bytes) : merge budget s m bytes =
    (Record.readAll s.isKeyed bytes).bind fun rs => rs.foldlM (putRecord (inside budget) budget s) m := by
  cases budget <;> rfl

/-- What `merge` makes of a message within bounds is within bounds. -/
theorem within_merge : ∀ {budget : Nat} {s : Shape} {m m' : Message} {bytes : Bytes} {bound : Nat},
    merge budget s m bytes = some m' → Within s budget bound m → bound + 2 * bytes.length < 2 ^ 64 →
      Within s budget (bound + 2 * bytes.length) m' := by
  intro budget s m m' bytes bound h hm hb
  have hinside : EnterWithin budget (inside budget) := by
    cases budget with
    | zero => exact fun h => by cases h
    | succ budget => exact fun h hm hb => ⟨Nat.succ_pos _, within_merge h hm hb⟩
  rw [merge_eq, Option.bind_eq_some_iff] at h
  obtain ⟨rs, hr, h⟩ := h
  have := Record.size_le_of_readAll hr
  have := within_putRecords hinside hm (by omega) h
  exact ⟨this.canonical, this.nesting, Nat.le_trans this.size (by omega)⟩

/-- What is read from bytes is a value. -/
theorem isValue_of_decode? {t : MessageType} {bytes : Bytes} (hb : bytes.length < 2 ^ 63)
    (h : decode? t bytes = some m) : m.IsValue t := by
  have hnil : Within (.type t) nestingLimit 0 [] := Within.nil
  have := within_merge h hnil (by omega)
  exact ⟨this.canonical, this.nesting, Nat.lt_of_le_of_lt this.size (by omega)⟩

end Message

end LedgerClient.Wire
