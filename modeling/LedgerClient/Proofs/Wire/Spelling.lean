/-
What bytes spell.

`Varint.Spells` and `Record.Spells` say how numbers and records may be spelled:
any spelling counts, short or long, and a group counts with all its members.
Under the number of a map stands a chunk, behind a key with any wire type. The
readers take apart exactly such bytes (`read_eq_some_iff`,
`readAll_eq_some_iff`), so bytes are spelled in one way at most, and what
stands behind whole records is read as if they were not there
(`SpellsAll.readAll_append`).
-/
import LedgerClient.Proofs.Wire.Record

namespace LedgerClient.Wire

/-! ## Numbers -/

namespace Varint

/-- Groups of seven bits that make a number, lowest group first, at most `more` of them after the
first. -/
inductive Groups : (more : Nat) → (n : Nat) → Bytes → Prop where
  | last {more : Nat} {b : UInt8} (hb : b.toNat < 128) (hmore : more = 0 → b.toNat ≤ 1) :
    Groups more b.toNat [b]
  | next {more n : Nat} {b : UInt8} {bs : Bytes} (hb : 128 ≤ b.toNat) (h : Groups more n bs) :
    Groups (more + 1) (b.toNat - 128 + 128 * n) (b :: bs)

/-- The bytes are a varint of the number. -/
def Spells (n : UInt64) (bs : Bytes) : Prop := Groups 9 n.toNat bs

theorem Groups.lt {more n : Nat} {bs : Bytes} (h : Groups more n bs) : n < 2 * 128 ^ more := by
  induction h with
  | @last more b hb hmore =>
    cases more with
    | zero =>
      have := hmore rfl
      omega
    | succ more =>
      have : 1 ≤ 128 ^ more := Nat.one_le_pow _ _ (by decide)
      omega
  | @next more n b bs hb h ih =>
    have := b.toNat_lt
    omega

theorem Groups.readGroups_append {more n : Nat} {bs : Bytes} (h : Groups more n bs) (rest : Bytes) :
    readGroups more (bs ++ rest) = some (n, rest) := by
  induction h with
  | @last more b hb hmore =>
    cases more with
    | zero => simp only [List.cons_append, List.nil_append, readGroups, if_pos (hmore rfl)]
    | succ more => simp only [List.cons_append, List.nil_append, readGroups, if_pos hb]
  | next hb h ih => simp only [List.cons_append, readGroups, if_neg (Nat.not_lt.2 hb), ih, Option.map_some]

theorem exists_of_readGroups {more n : Nat} {bs rest : Bytes} (h : readGroups more bs = some (n, rest)) :
    ∃ front, Groups more n front ∧ bs = front ++ rest := by
  induction bs generalizing more n with
  | nil => simp [readGroups] at h
  | cons b bs ih =>
    cases more with
    | zero =>
      simp only [readGroups] at h
      split at h
      · next hb =>
        cases h
        exact ⟨[b], .last (by omega) fun _ => hb, rfl⟩
      · cases h
    | succ more =>
      simp only [readGroups] at h
      split at h
      · next hb =>
        cases h
        exact ⟨[b], .last hb fun hz => absurd hz (Nat.succ_ne_zero more), rfl⟩
      · next hb =>
        simp only [Option.map_eq_some_iff, Prod.exists, Prod.mk.injEq] at h
        obtain ⟨m, rest', hr, rfl, rfl⟩ := h
        obtain ⟨front, hg, rfl⟩ := ih hr
        exact ⟨b :: front, .next (Nat.not_lt.1 hb) hg, rfl⟩

theorem Spells.read_append {n : UInt64} {bs : Bytes} (h : Spells n bs) (rest : Bytes) :
    read (bs ++ rest) = some (n, rest) := by
  simp only [read, Groups.readGroups_append h, Option.map_some, UInt64.ofNat_toNat]

/-- The reader takes a varint off the front. -/
theorem read_eq_some_iff {n : UInt64} {bs rest : Bytes} :
    read bs = some (n, rest) ↔ ∃ front, Spells n front ∧ bs = front ++ rest := by
  constructor
  · intro h
    simp only [read, Option.map_eq_some_iff, Prod.exists, Prod.mk.injEq] at h
    obtain ⟨m, rest', hr, rfl, rfl⟩ := h
    obtain ⟨front, hg, rfl⟩ := exists_of_readGroups hr
    refine ⟨front, ?_, rfl⟩
    have hm := hg.lt
    rwa [Spells, toNat_toUInt64 (by omega)]
  · rintro ⟨front, h, rfl⟩
    exact h.read_append rest

theorem Groups.length_pos {more n : Nat} {bs : Bytes} (h : Groups more n bs) : 0 < bs.length := by
  cases h with
  | last | next => exact Nat.succ_pos _

end Varint

/-! ## Records -/

namespace Record

/-- The bytes are the key of a field number, at least one, and a wire type. -/
def IsKey (tag wireType : Nat) (bs : Bytes) : Prop :=
  0 < tag ∧ tag < 2 ^ 29 ∧ wireType < 8 ∧ ∃ key : UInt64, Varint.Spells key bs ∧ key.toNat = 8 * tag + wireType

/-- The bytes are the key in front of a payload of the wire type. Under the number of a map every payload is a chunk,
and the key may give any wire type that exists. -/
def Starts (keyed : Nat → Bool) (tag wireType : Nat) (bs : Bytes) : Prop :=
  if keyed tag then wireType = 2 ∧ ∃ given < 6, IsKey tag given bs else IsKey tag wireType bs

mutual
/-- The bytes are the record: a key and a payload, and a group its members between two keys. The numbers of maps are
those of the message that the record is in; a group has no maps. -/
inductive Spells : (keyed : Nat → Bool) → Record → Bytes → Prop where
  | varint {keyed : Nat → Bool} {tag : Nat} {n : UInt64} {key number : Bytes} (hk : Starts keyed tag 0 key)
    (hn : Varint.Spells n number) : Spells keyed (.varint tag n) (key ++ number)
  | fixed64 {keyed : Nat → Bool} {tag : Nat} {key content : Bytes} (hk : Starts keyed tag 1 key)
    (hc : content.length = 8) : Spells keyed (.fixed64 tag content) (key ++ content)
  | chunk {keyed : Nat → Bool} {tag : Nat} {length : UInt64} {key number content : Bytes} (hk : Starts keyed tag 2 key)
    (hn : Varint.Spells length number) (hc : content.length = length.toNat) :
    Spells keyed (.chunk tag content) (key ++ number ++ content)
  | group {keyed : Nat → Bool} {tag : Nat} {members : List Record} {opening body closing : Bytes}
    (ho : Starts keyed tag 3 opening) (hm : SpellsAll unkeyed members body) (hc : IsKey tag 4 closing) :
    Spells keyed (.group tag members) (opening ++ body ++ closing)
  | fixed32 {keyed : Nat → Bool} {tag : Nat} {key content : Bytes} (hk : Starts keyed tag 5 key)
    (hc : content.length = 4) : Spells keyed (.fixed32 tag content) (key ++ content)

/-- The bytes are the records, one after the other. -/
inductive SpellsAll : (keyed : Nat → Bool) → List Record → Bytes → Prop where
  | nil {keyed : Nat → Bool} : SpellsAll keyed [] []
  | cons {keyed : Nat → Bool} {r : Record} {rs : List Record} {front rest : Bytes} (hr : Spells keyed r front)
    (hrs : SpellsAll keyed rs rest) : SpellsAll keyed (r :: rs) (front ++ rest)
end

variable {keyed : Nat → Bool}

theorem starts_of_not_keyed {tag : Nat} (h : keyed tag = false) (wireType : Nat) (bs : Bytes) :
    Starts keyed tag wireType bs ↔ IsKey tag wireType bs := by
  rw [Starts, h, if_neg Bool.false_ne_true]

/-- Away from the numbers of maps a record is spelled as it is where there are none. -/
theorem Spells.of_unkeyed {r : Record} {us : Bytes} (h : Spells unkeyed r us) (hk : keyed r.tag = false) :
    Spells keyed r us := by
  have hstarts {wireType : Nat} {key : Bytes} (h : Starts unkeyed r.tag wireType key) :
      Starts keyed r.tag wireType key :=
    (starts_of_not_keyed hk _ _).2 ((starts_of_not_keyed rfl _ _).1 h)
  cases h with
  | varint h hn => exact .varint (hstarts h) hn
  | fixed64 h hc => exact .fixed64 (hstarts h) hc
  | chunk h hn hc => exact .chunk (hstarts h) hn hc
  | group ho hm hc => exact .group (hstarts ho) hm hc
  | fixed32 h hc => exact .fixed32 (hstarts h) hc

theorem eq_of_payloadType {tag given wireType : Nat} (h : payloadType keyed tag given = wireType)
    (hw : wireType ≠ 2) : given = wireType := by
  rw [payloadType] at h
  split at h
  · exact absurd h.symm hw
  · exact h

/-- The reader takes a key for the key of what it stands in front of. -/
theorem starts_iff {tag wireType : Nat} (hw : wireType < 6) {bs : Bytes} :
    Starts keyed tag wireType bs ↔ ∃ given, IsKey tag given bs ∧ payloadType keyed tag given = wireType := by
  cases hk : keyed tag with
  | false => simp only [starts_of_not_keyed hk, payloadType_of_not_keyed hk, exists_eq_right]
  | true =>
    simp only [Starts, hk, if_true, payloadType, Bool.true_and, decide_eq_true_eq]
    constructor
    · intro h
      obtain ⟨rfl, given, hgiven, h⟩ := h
      exact ⟨given, h, if_pos hgiven⟩
    · intro h
      obtain ⟨given, h, hpayload⟩ := h
      split at hpayload
      next hgiven => exact ⟨hpayload.symm, given, hgiven, h⟩
      next hgiven => omega

theorem IsKey.readKey_append {tag wireType : Nat} {key : Bytes} (h : IsKey tag wireType key) (rest : Bytes) :
    readKey (key ++ rest) = some (tag, wireType, rest) := by
  obtain ⟨ht, ht', hw, k, hk, heq⟩ := h
  simp only [readKey, hk.read_append, Option.bind_eq_bind, Option.bind_some, heq]
  rw [if_neg (by simp only [UInt32.size]; omega)]
  have h1 : (8 * tag + wireType) / 8 = tag := by omega
  have h2 : (8 * tag + wireType) % 8 = wireType := by omega
  rw [h1, h2]

theorem readKey_eq_some_iff {tag wireType : Nat} {bs rest : Bytes} :
    readKey bs = some (tag, wireType, rest) ↔ ∃ key, IsKey tag wireType key ∧ bs = key ++ rest := by
  constructor
  · intro h
    simp only [readKey, Option.bind_eq_bind, Option.bind_eq_some_iff, Prod.exists] at h
    obtain ⟨key, rest', hr, h⟩ := h
    obtain ⟨front, hs, rfl⟩ := Varint.read_eq_some_iff.1 hr
    split at h
    · cases h
    · next hk =>
      cases h
      simp only [UInt32.size, not_or, Nat.not_lt, Nat.not_le] at hk
      exact ⟨front, ⟨by omega, by omega, by omega, key, hs, by omega⟩, rfl⟩
  · rintro ⟨key, hk, rfl⟩
    exact hk.readKey_append rest

theorem IsKey.length_pos {tag wireType : Nat} {key : Bytes} (h : IsKey tag wireType key) : 0 < key.length := by
  obtain ⟨-, -, -, k, hk, -⟩ := h
  exact Varint.Groups.length_pos hk

theorem Starts.length_pos {tag wireType : Nat} {key : Bytes} (h : Starts keyed tag wireType key) : 0 < key.length := by
  rw [Starts] at h
  split at h
  · obtain ⟨-, given, -, h⟩ := h
    exact h.length_pos
  · exact h.length_pos

/-! ## How the reader goes on -/

/-- A reader with more than one step for each byte has steps enough. -/
theorem readUpTo_congr {fuel fuel' : Nat} {enclosing : Option Nat} {bs : Bytes} (h : bs.length < fuel)
    (h' : bs.length < fuel') : readUpTo fuel keyed enclosing bs = readUpTo fuel' keyed enclosing bs := by
  induction fuel generalizing fuel' keyed enclosing bs with
  | zero => exact absurd h (Nat.not_lt_zero _)
  | succ fuel hfuel =>
    obtain ⟨fuel', rfl⟩ : ∃ f, fuel' = f + 1 := ⟨fuel' - 1, by omega⟩
    by_cases hb : enclosing = none ∧ bs = []
    · obtain ⟨rfl, rfl⟩ := hb
      rfl
    rw [readUpTo.eq_3 _ _ _ _ fun he hn => hb ⟨he, hn⟩, readUpTo.eq_3 _ _ _ _ fun he hn => hb ⟨he, hn⟩]
    refine Option.bind_congr fun key hk => ?_
    obtain ⟨tag, wireType, rest⟩ := key
    have hk := size_le_of_readKey hk 0 (by decide)
    have hpos := keySize_pos tag 0
    -- What follows a record is shorter than what was there before its key.
    have ih : ∀ {keyed : Nat → Bool} {e : Option Nat} {cs : Bytes}, cs.length ≤ rest.length →
        readUpTo fuel keyed e cs = readUpTo fuel' keyed e cs := fun hcs => hfuel (by omega) (by omega)
    dsimp only
    split
    · refine Option.bind_congr fun number hn => ?_
      have := Varint.size_le_of_read hn
      rw [ih (by omega)]
    · refine Option.bind_congr fun content hn => ?_
      have := length_of_split hn
      rw [ih (by omega)]
    · refine Option.bind_congr fun length hl => Option.bind_congr fun content hn => ?_
      have := Varint.size_le_of_read hl
      have hsplit := length_of_split hn
      rw [ih (by omega)]
    · rw [ih (Nat.le_refl _)]
      refine Option.bind_congr fun members hm => ?_
      have := size_le_of_readUpTo hm
      rw [ih (by omega)]
    · rfl
    · refine Option.bind_congr fun content hn => ?_
      have := length_of_split hn
      rw [ih (by omega)]
    · rfl

theorem append_ne_nil {key : Bytes} (h : 0 < key.length) (rest : Bytes) : key ++ rest ≠ [] :=
  List.append_ne_nil_of_left_ne_nil (List.length_pos_iff.1 h) rest

/-- The end of a group is read as the end of the group it belongs to. -/
theorem IsKey.readUpTo_closing {tag : Nat} {key : Bytes} (h : IsKey tag 4 key) (fuel : Nat) (rest : Bytes) :
    readUpTo (fuel + 1) unkeyed (some tag) (key ++ rest) = some ([], rest) := by
  rw [readUpTo.eq_3 _ _ _ _ fun _ => append_ne_nil h.length_pos rest, h.readKey_append]
  exact if_pos rfl

theorem Spells.length_pos {r : Record} {us : Bytes} (h : Spells keyed r us) : 0 < us.length := by
  cases h with
  | varint hk | fixed64 hk | chunk hk | group hk | fixed32 hk =>
    have := hk.length_pos
    simp only [List.length_append]
    omega

mutual
/-- Reading goes on behind a record. -/
theorem Spells.readUpTo_append : {keyed : Nat → Bool} → {r : Record} → {us : Bytes} → Spells keyed r us →
    (fuel : Nat) → (enclosing : Option Nat) → (rest : Bytes) → (us ++ rest).length ≤ fuel →
      readUpTo (fuel + 1) keyed enclosing (us ++ rest) =
        (readUpTo fuel keyed enclosing rest).map fun (rs, rest) => (r :: rs, rest)
  | _, _, _, .varint hk hn, fuel, enclosing, rest, _ => by
    obtain ⟨given, hkey, hpayload⟩ := (starts_iff (by decide)).1 hk
    rw [List.append_assoc, readUpTo.eq_3 _ _ _ _ fun _ => append_ne_nil hkey.length_pos _, hkey.readKey_append]
    simp only [Option.bind_eq_bind, Option.bind_some, hpayload, hn.read_append]
  | _, _, _, .fixed64 hk hc, fuel, enclosing, rest, _ => by
    obtain ⟨given, hkey, hpayload⟩ := (starts_iff (by decide)).1 hk
    rw [List.append_assoc, readUpTo.eq_3 _ _ _ _ fun _ => append_ne_nil hkey.length_pos _, hkey.readKey_append]
    simp only [Option.bind_eq_bind, Option.bind_some, hpayload, ← hc, split_append]
  | _, _, _, .chunk hk hn hc, fuel, enclosing, rest, _ => by
    obtain ⟨given, hkey, hpayload⟩ := (starts_iff (by decide)).1 hk
    rw [List.append_assoc, List.append_assoc, readUpTo.eq_3 _ _ _ _ fun _ => append_ne_nil hkey.length_pos _,
      hkey.readKey_append]
    simp only [Option.bind_eq_bind, Option.bind_some, hpayload, hn.read_append, ← hc, split_append]
  | _, _, _, @Spells.group keyed tag members opening body closing ho hm hc, fuel, enclosing, rest, hl => by
    obtain ⟨given, hkey, hpayload⟩ := (starts_iff (by decide)).1 ho
    have hopening := ho.length_pos
    simp only [List.length_append] at hl
    obtain ⟨fuel, rfl⟩ : ∃ f, fuel = f + 1 := ⟨fuel - 1, by omega⟩
    have hinside : readUpTo (fuel + 1) unkeyed (some tag) (body ++ (closing ++ rest)) = some (members, rest) := by
      rw [hm.readUpTo_append _ _ _ (by simp only [List.length_append]; omega), hc.readUpTo_closing]
      simp only [Option.map_some, List.append_nil]
    rw [List.append_assoc, List.append_assoc, readUpTo.eq_3 _ _ _ _ fun _ => append_ne_nil hopening _,
      hkey.readKey_append]
    simp only [Option.bind_eq_bind, Option.bind_some, hpayload, hinside]
  | _, _, _, .fixed32 hk hc, fuel, enclosing, rest, _ => by
    obtain ⟨given, hkey, hpayload⟩ := (starts_iff (by decide)).1 hk
    rw [List.append_assoc, readUpTo.eq_3 _ _ _ _ fun _ => append_ne_nil hkey.length_pos _, hkey.readKey_append]
    simp only [Option.bind_eq_bind, Option.bind_some, hpayload, ← hc, split_append]

/-- Reading goes on behind records. -/
theorem SpellsAll.readUpTo_append : {keyed : Nat → Bool} → {rs : List Record} → {us : Bytes} →
    SpellsAll keyed rs us → (fuel : Nat) → (enclosing : Option Nat) → (rest : Bytes) → (us ++ rest).length < fuel →
      readUpTo fuel keyed enclosing (us ++ rest) =
        (readUpTo fuel keyed enclosing rest).map fun (rs', rest) => (rs ++ rs', rest)
  | _, _, _, .nil, fuel, enclosing, rest, _ => by
    simp only [List.nil_append, Option.map_id']
  | _, _, _, @SpellsAll.cons keyed r rs front others hr hrs, fuel, enclosing, rest, hl => by
    have hfront := hr.length_pos
    rw [List.append_assoc] at hl ⊢
    rw [List.length_append] at hl
    obtain ⟨fuel, rfl⟩ : ∃ f, fuel = f + 1 := ⟨fuel - 1, by omega⟩
    have hfuel : readUpTo fuel keyed enclosing (others ++ rest) = readUpTo (fuel + 1) keyed enclosing (others ++ rest) :=
      readUpTo_congr (by omega) (by omega)
    rw [hr.readUpTo_append _ _ _ (by rw [List.length_append]; omega), hfuel, hrs.readUpTo_append _ _ _ (by omega),
      Option.map_map]
    rfl
end

/-! ## What the reader has read -/

/-- How what belongs together ends: a group with its second key, all the rest with the input. -/
def Ends : (enclosing : Option Nat) → (closing rest : Bytes) → Prop
  | none, closing, rest => closing = [] ∧ rest = []
  | some tag, closing, _ => IsKey tag 4 closing

theorem eq_append_of_split {n : Nat} {bs content rest : Bytes} (h : split n bs = some (content, rest)) :
    bs = content ++ rest ∧ content.length = n := by
  obtain ⟨hlen, -⟩ := length_of_split h
  simp only [split] at h
  split at h
  · cases h
    exact ⟨(List.take_append_drop n bs).symm, hlen⟩
  · cases h

theorem exists_of_readUpTo : ∀ {fuel : Nat} {keyed : Nat → Bool} {enclosing : Option Nat} {bs rest : Bytes}
    {rs : List Record}, readUpTo fuel keyed enclosing bs = some (rs, rest) →
      ∃ us closing, SpellsAll keyed rs us ∧ Ends enclosing closing rest ∧ bs = us ++ closing ++ rest
  | 0, _, _, _, _, _, h => by simp [readUpTo] at h
  | fuel + 1, keyed, enclosing, bs, rest, rs, h => by
    have ih : ∀ {bs : Bytes} {rest : Bytes} {rs : List Record}, readUpTo fuel keyed enclosing bs = some (rs, rest) →
        ∃ us closing, SpellsAll keyed rs us ∧ Ends enclosing closing rest ∧ bs = us ++ closing ++ rest :=
      exists_of_readUpTo
    by_cases hb : enclosing = none ∧ bs = []
    · obtain ⟨rfl, rfl⟩ := hb
      cases h
      exact ⟨[], [], .nil, ⟨rfl, rfl⟩, rfl⟩
    rw [readUpTo.eq_3 _ _ _ _ fun he hn => hb ⟨he, hn⟩] at h
    simp only [Option.bind_eq_bind, Option.bind_eq_some_iff, Prod.exists] at h
    obtain ⟨tag, wireType, bs', hk, h⟩ := h
    obtain ⟨key, hkey, rfl⟩ := readKey_eq_some_iff.1 hk
    have hstarts {payload : Nat} (hp : payload < 6) (he : payloadType keyed tag wireType = payload) :
        Starts keyed tag payload key := (starts_iff hp).2 ⟨wireType, hkey, he⟩
    split at h
    next he =>
      simp only [Option.bind_eq_some_iff, Option.map_eq_some_iff, Prod.exists, Prod.mk.injEq] at h
      obtain ⟨n, cs, hn, rs', rest', hr, rfl, rfl⟩ := h
      obtain ⟨number, hnumber, rfl⟩ := Varint.read_eq_some_iff.1 hn
      obtain ⟨us, closing, hs, hend, rfl⟩ := ih hr
      exact ⟨_, closing, .cons (.varint (hstarts (by decide) he) hnumber) hs, hend, by simp only [List.append_assoc]⟩
    next he =>
      simp only [Option.bind_eq_some_iff, Option.map_eq_some_iff, Prod.exists, Prod.mk.injEq] at h
      obtain ⟨content, cs, hn, rs', rest', hr, rfl, rfl⟩ := h
      obtain ⟨rfl, hc⟩ := eq_append_of_split hn
      obtain ⟨us, closing, hs, hend, rfl⟩ := ih hr
      exact ⟨_, closing, .cons (.fixed64 (hstarts (by decide) he) hc) hs, hend, by simp only [List.append_assoc]⟩
    next he =>
      simp only [Option.bind_eq_some_iff, Option.map_eq_some_iff, Prod.exists, Prod.mk.injEq] at h
      obtain ⟨length, cs, hl, content, cs', hn, rs', rest', hr, rfl, rfl⟩ := h
      obtain ⟨number, hnumber, rfl⟩ := Varint.read_eq_some_iff.1 hl
      obtain ⟨rfl, hc⟩ := eq_append_of_split hn
      obtain ⟨us, closing, hs, hend, rfl⟩ := ih hr
      exact ⟨_, closing, .cons (.chunk (hstarts (by decide) he) hnumber hc) hs, hend, by simp only [List.append_assoc]⟩
    next he =>
      simp only [Option.bind_eq_some_iff, Option.map_eq_some_iff, Prod.exists, Prod.mk.injEq] at h
      obtain ⟨members, cs, hm, rs', rest', hr, rfl, rfl⟩ := h
      obtain ⟨body, inner, hbody, hinner, rfl⟩ := exists_of_readUpTo hm
      obtain ⟨us, closing, hs, hend, rfl⟩ := ih hr
      exact ⟨_, closing, .cons (.group (hstarts (by decide) he) hbody hinner) hs, hend, by simp only [List.append_assoc]⟩
    next he =>
      split at h
      next hopen =>
        cases h
        obtain rfl := eq_of_payloadType he (by decide)
        exact ⟨[], key, .nil, hopen ▸ hkey, rfl⟩
      next => cases h
    next he =>
      simp only [Option.bind_eq_some_iff, Option.map_eq_some_iff, Prod.exists, Prod.mk.injEq] at h
      obtain ⟨content, cs, hn, rs', rest', hr, rfl, rfl⟩ := h
      obtain ⟨rfl, hc⟩ := eq_append_of_split hn
      obtain ⟨us, closing, hs, hend, rfl⟩ := ih hr
      exact ⟨_, closing, .cons (.fixed32 (hstarts (by decide) he) hc) hs, hend, by simp only [List.append_assoc]⟩
    next => cases h

/-! ## All of the input -/

/-- The records of an input that begins with whole records are those and the records of the rest. -/
theorem SpellsAll.readAll_append {rs : List Record} {us : Bytes} (h : SpellsAll keyed rs us) (rest : Bytes) :
    readAll keyed (us ++ rest) = (readAll keyed rest).map (rs ++ ·) := by
  have hfuel : readUpTo ((us ++ rest).length + 1) keyed none rest = readUpTo (rest.length + 1) keyed none rest := by
    refine readUpTo_congr ?_ (Nat.lt_succ_self _)
    rw [List.length_append]
    omega
  rw [readAll, readAll, h.readUpTo_append _ _ _ (Nat.lt_succ_self _), hfuel, Option.map_map, Option.map_map]
  rfl

/-- The reader reads what the bytes spell. -/
theorem readAll_eq_some_iff {rs : List Record} {bs : Bytes} : readAll keyed bs = some rs ↔ SpellsAll keyed rs bs := by
  constructor
  · intro h
    simp only [readAll, Option.map_eq_some_iff, Prod.exists] at h
    obtain ⟨rs', rest, hr, rfl⟩ := h
    obtain ⟨us, closing, hs, ⟨rfl, rfl⟩, rfl⟩ := exists_of_readUpTo hr
    rwa [List.append_nil, List.append_nil]
  · intro h
    have hall := h.readAll_append []
    rwa [List.append_nil, show readAll keyed [] = some [] from rfl, Option.map_some, List.append_nil] at hall

end Record

end LedgerClient.Wire
