/-
The order of map entries in the bytes.

`Record.Reordered` says which rows of records differ only in where the entries
of maps stand, at any depth. A reader makes the same of both
(`putRecords_reordered`, `decode?_reordered`): an entry is put into its map by
key, and neither another entry nor another field gets in its way (`put_comm`).
-/
import LedgerClient.Proofs.Wire.Typed

namespace LedgerClient.Wire

/-! ## Rows of records -/

namespace Record

/-- The key of a map entry so far, and with one more of its records. -/
def keyStep (key : Bytes) : Record → Bytes
  | .chunk 1 bytes => bytes
  | _ => key

/-- The key of a map entry, from its records: the last one counts, and there need not be one. -/
def keyOf (rs : List Record) : Bytes := rs.foldl keyStep []

theorem keyStep_of_ne {r : Record} (h : r.tag ≠ 1) (key : Bytes) : keyStep key r = key := by
  cases r with
  | chunk t bytes =>
    have ht : t ≠ 1 := h
    simp [keyStep, ht]
  | varint | fixed64 | group | fixed32 => rfl

/-- The entry of a map that `bytes` holds may change places with `r`: it is no entry of that map with the same key. -/
def PassesBy (tag : Nat) (bytes : Bytes) (r : Record) : Prop :=
  ∀ other, r = .chunk tag other → ∀ rs rs', readAll unkeyed bytes = some rs → readAll unkeyed other = some rs' →
    keyOf rs ≠ keyOf rs'

theorem passesBy_chunk {tag tag' : Nat} {bytes bytes' : Bytes} {rs rs' : List Record}
    (h : readAll unkeyed bytes = some rs) (h' : readAll unkeyed bytes' = some rs') (hk : keyOf rs ≠ keyOf rs') :
    PassesBy tag bytes (.chunk tag' bytes') := by
  intro other he es es' hes hes'
  cases he
  obtain rfl := Option.some.inj (h.symm.trans hes)
  obtain rfl := Option.some.inj (h'.symm.trans hes')
  exact hk

/-- `rs'` is `rs` with the entries of maps, at any depth, in other places. -/
inductive Reordered : Shape → List Record → List Record → Prop where
  | refl {s} (rs) : Reordered s rs rs
  | symm {s rs rs'} : Reordered s rs rs' → Reordered s rs' rs
  | trans {s rs₁ rs₂ rs₃} : Reordered s rs₁ rs₂ → Reordered s rs₂ rs₃ → Reordered s rs₁ rs₃
  | cons {s rs rs'} (r) : Reordered s rs rs' → Reordered s (r :: rs) (r :: rs')
  | inside {s tag spec inner bytes bytes' es es'} (rs) : s.field? tag = some spec → spec.content = .message inner →
      readAll inner.isKeyed bytes = some es → readAll inner.isKeyed bytes' = some es' → Reordered inner es es' →
      Reordered s (.chunk tag bytes :: rs) (.chunk tag bytes' :: rs)
  | swap {s tag spec bytes r} (rs) : s.field? tag = some spec → spec.occurrence = .keyed → PassesBy tag bytes r →
      Reordered s (.chunk tag bytes :: r :: rs) (r :: .chunk tag bytes :: rs)

end Record

namespace Message

open insert (before)

variable {s : Shape} {f g : Field} {spec spec' : FieldSpec} {m m' : Message}

/-! ## Putting in either order -/

theorem insert_eq_cons {keyed : Bool} (h : ∀ g ∈ m, ¬ before keyed f g = true) : insert keyed f m = f :: m := by
  cases m with
  | nil => rfl
  | cons g m => rw [insert_cons, if_neg (h g List.mem_cons_self)]

/-- What does not belong before a field does not bring anything behind it there. -/
theorem not_before_of_before {x : Field} (hs : s.field? f.tag = some spec)
    (hx : ¬ before (spec.occurrence == .keyed) f x = true) (hg : s.Before (· < ·) x g) :
    ¬ before (spec.occurrence == .keyed) f g = true := by
  have hle := hg.tag_le
  simp only [before_iff, not_or, not_and, beq_iff_eq, Classical.not_imp] at hx ⊢
  refine ⟨by omega, fun ht => ?_⟩
  obtain ⟨ho, hk⟩ := hx.2 (by omega)
  refine ⟨ho, fun hgk => ?_⟩
  rcases (Shape.before_keyed (ht ▸ hs) ho).1 hg with hlt | ⟨-, hlt⟩
  · omega
  · exact hk (String.le_trans (String.not_lt.1 (String.lt_asymm hlt)) hgk)

theorem filter_insert {p : Field → Bool} (hs : s.field? f.tag = some spec) (hp : p f = true) :
    ∀ {m : Message}, m.Pairwise (s.Before (· < ·)) →
      (insert (spec.occurrence == .keyed) f m).filter p = insert (spec.occurrence == .keyed) f (m.filter p)
  | [], _ => by simp [insert, hp]
  | x :: m, hm => by
    obtain ⟨hx, hm⟩ := List.pairwise_cons.1 hm
    rw [insert_cons]
    split
    next hb =>
      rw [List.filter_cons, List.filter_cons, filter_insert hs hp hm]
      split
      · rw [insert_cons, if_pos hb]
      · rfl
    next hb =>
      rw [List.filter_cons_of_pos hp, insert_eq_cons fun y hy => ?_]
      rcases List.mem_cons.1 (List.mem_filter.1 hy).1 with rfl | hy
      · exact hb
      · exact not_before_of_before hs hb (hx y hy)

theorem insert_comm_of_lt {keyed keyed' : Bool} (ht : f.tag < g.tag) (m : Message) :
    insert keyed f (insert keyed' g m) = insert keyed' g (insert keyed f m) := by
  have hfg : ¬ before keyed f g = true := by
    rw [before_iff]
    omega
  have hgf : before keyed' g f = true := before_iff.2 (.inl ht)
  induction m with
  | nil => simp [insert, hfg, hgf]
  | cons x m ih =>
    by_cases hf : before keyed f x = true <;> by_cases hg : before keyed' g x = true
    · rw [insert_cons, if_pos hg, insert_cons, if_pos hf, insert_cons, if_pos hf, insert_cons, if_pos hg, ih]
    · -- what belongs before `f` belongs before `g`
      refine absurd (before_iff.2 (.inl ?_)) hg
      rw [before_iff] at hf
      omega
    · rw [insert_cons, if_pos hg, insert_cons, if_neg hf, insert_cons, if_neg hf, insert_cons, if_pos hgf,
        insert_cons, if_pos hg]
    · rw [insert_cons, if_neg hg, insert_cons, if_neg hfg, insert_cons, if_neg hf, insert_cons, if_pos hgf,
        insert_cons, if_neg hg]

/-- Fields of different numbers may be inserted in either order. -/
theorem insert_comm_of_ne {keyed keyed' : Bool} (ht : f.tag ≠ g.tag) (m : Message) :
    insert keyed f (insert keyed' g m) = insert keyed' g (insert keyed f m) := by
  rcases Nat.lt_or_gt_of_ne ht with hlt | hlt
  · exact insert_comm_of_lt hlt m
  · exact (insert_comm_of_lt hlt m).symm

/-- Fields that do not replace each other may be put in either order, if they have different numbers or are entries of
one map. -/
theorem put_comm (hm : m.Canonical s) (hf : s.field? f.tag = some spec) (hg : s.field? g.tag = some spec')
    (hfg : replaces spec.occurrence f g = false) (hgf : replaces spec'.occurrence g f = false)
    (hin : f.tag = g.tag → spec.occurrence = .keyed) :
    put spec.occurrence f (put spec'.occurrence g m) = put spec'.occurrence g (put spec.occurrence f m) := by
  have hkept (p : Field → Bool) : (m.filter p).Pairwise (s.Before (· < ·)) := (hm.sublist List.filter_sublist).order
  have hinsert (m : Message) : insert (spec.occurrence == .keyed) f (insert (spec'.occurrence == .keyed) g m) =
      insert (spec'.occurrence == .keyed) g (insert (spec.occurrence == .keyed) f m) := by
    by_cases ht : f.tag = g.tag
    · have hk := hin ht
      rw [ht, hg] at hf
      cases hf
      rw [hk, replaces_false_iff] at hgf
      rw [hk]
      exact insert_comm ht (hgf ht) m
    · exact insert_comm_of_ne ht m
  have hfilter : (m.filter fun x => !replaces spec'.occurrence g x).filter (fun x => !replaces spec.occurrence f x) =
      (m.filter fun x => !replaces spec.occurrence f x).filter fun x => !replaces spec'.occurrence g x := by
    rw [List.filter_filter, List.filter_filter]
    exact List.filter_congr fun x _ => Bool.and_comm _ _
  have hf' : (!replaces spec'.occurrence g f) = true := by rw [hgf]; rfl
  have hg' : (!replaces spec.occurrence f g) = true := by rw [hfg]; rfl
  simp only [put]
  split <;> split
  · rw [filter_insert hg hg' (hkept _), filter_insert hf hf' (hkept _), hfilter, hinsert]
  · rw [filter_insert hf hf' (hkept _), hfilter]
  · rw [filter_insert hg hg' (hkept _), hfilter]
  · exact hfilter

/-! ## What a record leaves as it is -/

theorem find?_insert_of_ne {keyed : Bool} {tag : Nat} (ht : f.tag ≠ tag) (m : Message) :
    find? (insert keyed f m) tag = m.find? tag := by
  have hf : ¬ (f.tag == tag) = true := by simpa using ht
  induction m with
  | nil => exact List.find?_cons_of_neg hf
  | cons x m ih =>
    rw [insert_cons]
    split
    · simp only [find?, List.find?_cons] at ih ⊢
      rw [ih]
    · exact List.find?_cons_of_neg hf

/-- Putting a field leaves the fields of a number alone that it does not replace. -/
theorem find?_put_of_ne {occurrence : Occurrence} {tag : Nat} (ht : f.tag ≠ tag)
    (hr : ∀ g : Field, g.tag = tag → replaces occurrence f g = false) (m : Message) :
    (put occurrence f m).find? tag = m.find? tag := by
  have hkept : find? (m.filter fun g => !replaces occurrence f g) tag = m.find? tag := by
    rw [find?, List.find?_filter]
    congr 1
    funext g
    by_cases hg : g.tag = tag
    · simp [hg, hr g hg]
    · simp [hg]
  simp only [put]
  split
  · rw [find?_insert_of_ne ht, hkept]
  · exact hkept

theorem find?_insert_self {keyed : Bool} (h : ∀ g ∈ m, g.tag ≠ f.tag) : find? (insert keyed f m) f.tag = some f := by
  induction m with
  | nil => simp [find?, insert]
  | cons x m ih =>
    rw [insert_cons]
    split
    · have hx : (x.tag == f.tag) = false := by simpa using h x List.mem_cons_self
      simp only [find?, List.find?_cons, hx]
      exact ih fun g hg => h g (List.mem_cons_of_mem x hg)
    · simp [find?]

theorem find?_put_single (f : Field) (m : Message) :
    (put .single f m).find? f.tag = if isWritten .single f then some f else none := by
  have hkept : ∀ g ∈ m.filter fun g => !replaces .single f g, g.tag ≠ f.tag := by
    intro g hg
    simpa [replaces] using (List.mem_filter.1 hg).2
  simp only [put]
  split
  · exact find?_insert_self hkept
  · rw [find?, List.find?_eq_none]
    intro g hg
    simpa using hkept g hg

/-! ## The field of a record -/

variable {enter : Shape → Message → Bytes → Option Message} {budget tag : Nat} {inner : Shape} {r : Record}

/-- The field that a record gives, next to the fields already there. -/
def fieldOf (enter : Shape → Message → Bytes → Option Message) (spec : FieldSpec) (current : Message) (r : Record) :
    Option Field :=
  match spec.content, r with
  | .scalar kind, r => (kind.read r).map (.scalar spec.tag)
  | .message inner, .chunk _ bytes =>
    (enter inner current bytes).map fun fs => .message spec.tag (if spec.occurrence = .keyed then trimEntry fs else fs)
  | .message _, _ => none

theorem putRecord_eq (hs : s.field? r.tag = some spec) (m : Message) :
    putRecord enter budget s m r = (fieldOf enter spec (m.current spec) r).map (m.put spec.occurrence ·) := by
  simp only [putRecord, hs, fieldOf]
  cases spec.content with
  | scalar kind => simp only [Option.map_map, Function.comp_def]
  | message inner => cases r <;> simp only [Option.map_map, Function.comp_def, Option.map_none]

theorem tag_fieldOf (h : fieldOf enter spec m r = some f) : f.tag = spec.tag := by
  simp only [fieldOf] at h
  split at h
  · obtain ⟨v, -, rfl⟩ := Option.map_eq_some_iff.1 h
    rfl
  · obtain ⟨fs, -, rfl⟩ := Option.map_eq_some_iff.1 h
    rfl
  · cases h

/-! ## What is read is canonical -/

/-- From a canonical message `enter` makes a canonical one. -/
def KeepsCanonical (enter : Shape → Message → Bytes → Option Message) : Prop :=
  ∀ {inner : Shape} {m m' : Message} {bytes : Bytes}, enter inner m bytes = some m' → m.Canonical inner →
    m'.Canonical inner

theorem canonical_current (hm : m.Canonical s) (hs : s.field? tag = some spec) (hc : spec.content = .message inner) :
    (m.current spec).Canonical inner := by
  rcases current_cases (m := m) hs with hcur | ⟨old, hold, hcur, -⟩
  · rw [hcur]
    exact Fits.nil
  · obtain ⟨spec', inner', hs', hc', hfit, -⟩ := Field.fits_message.1 (hm.of_mem hold)
    rw [hs] at hs'
    cases hs'
    rw [hc] at hc'
    cases hc'
    rwa [hcur]

theorem fits_fieldOf (he : KeepsCanonical enter) (hm : m.Canonical s) (hs : s.field? tag = some spec)
    (h : fieldOf enter spec (m.current spec) r = some f) (hw : isWritten spec.occurrence f = true) :
    f.Fits (· < ·) s := by
  have ht := Shape.tag_of_field? hs
  simp only [fieldOf, ht] at h
  split at h
  · next hc =>
    obtain ⟨v, hv, rfl⟩ := Option.map_eq_some_iff.1 h
    exact Field.fits_scalar.2 ⟨spec, hs, by rw [hc, ScalarKind.kind_of_read hv], hw⟩
  · next hc =>
    obtain ⟨fs, hfs, rfl⟩ := Option.map_eq_some_iff.1 h
    have hfit := he hfs (canonical_current hm hs hc)
    refine Field.fits_message.2 ⟨spec, _, hs, hc, ?_, fun hk => ?_⟩
    · split
      · exact hfit.sublist List.filter_sublist
      · exact hfit
    · rw [if_pos hk]
      simp [trimEntry]
  · cases h

theorem canonical_putRecord (he : KeepsCanonical enter) (hm : m.Canonical s)
    (h : putRecord enter budget s m r = some m') : m'.Canonical s := by
  cases hs : s.field? r.tag with
  | none =>
    simp only [putRecord, hs] at h
    split at h
    · cases h
      exact hm
    · cases h
  | some spec =>
    rw [putRecord_eq hs] at h
    obtain ⟨f, hf, rfl⟩ := Option.map_eq_some_iff.1 h
    have ht : s.field? f.tag = some spec := by rw [tag_fieldOf hf, Shape.tag_of_field? hs, hs]
    exact hm.put ht (fits_fieldOf he hm hs hf)

theorem canonical_putRecords (he : KeepsCanonical enter) : ∀ {rs : List Record} {m : Message}, m.Canonical s →
    rs.foldlM (putRecord enter budget s) m = some m' → m'.Canonical s
  | [], _, hm, h => by
    cases h
    exact hm
  | r :: rs, m, hm, h => by
    obtain ⟨m₁, h₁, h⟩ := Option.bind_eq_some_iff.1 h
    exact canonical_putRecords he (canonical_putRecord he hm h₁) h

theorem keepsCanonical_inside : ∀ budget : Nat, KeepsCanonical (inside budget)
  | 0 => fun h => by cases h
  | budget + 1 => fun h hm => by
    rw [inside, merge_eq] at h
    obtain ⟨rs, -, h⟩ := Option.bind_eq_some_iff.1 h
    exact canonical_putRecords (keepsCanonical_inside budget) hm h

/-! ## The key of an entry -/

theorem field?_one (hs : s.IsEntry) : s.field? 1 = some (.scalar 1 .text) := by
  cases s with
  | type t => exact hs.elim
  | scalarEntry k => rfl
  | messageEntry t => rfl

theorem key_eq_text (hs : s.IsEntry) (hm : m.Canonical s) (tag : Nat) : (Field.message tag m).key = m.text 1 := by
  cases m with
  | nil => rfl
  | cons f m =>
    obtain ⟨hf, -, hlt⟩ := fits_cons.1 hm
    obtain ⟨spec, hspec⟩ := hf.field?
    by_cases ht : f.tag = 1
    · -- the key comes first
      rw [ht, field?_one hs] at hspec
      cases f with
      | scalar t v =>
        obtain rfl : t = 1 := ht
        obtain ⟨spec', hs', hc, -⟩ := Field.fits_scalar.1 hf
        rw [field?_one hs] at hs'
        cases hs'
        cases v <;> cases hc
        rfl
      | message t fs =>
        obtain rfl : t = 1 := ht
        obtain ⟨spec', inner, hs', hc, -⟩ := Field.fits_message.1 hf
        rw [field?_one hs] at hs'
        cases hs'
        cases hc
    · have hpos := (Shape.tag_pos_of_field? hspec).1
      have hnone : find? (f :: m) 1 = none := by
        rw [find?, List.find?_eq_none]
        intro g hg
        rcases List.mem_cons.1 hg with rfl | hg
        · simpa using ht
        · have := (hlt g hg).tag_le
          simp only [beq_iff_eq]
          omega
      rw [text, hnone]
      simp only [Field.key]
      split
      next h =>
        cases h
        exact absurd rfl ht
      next => rfl

theorem text_trimEntry (m : Message) : (trimEntry m).text 1 = m.text 1 := by
  have hfind : (trimEntry m).find? 1 = m.find? 1 := by
    rw [trimEntry, find?, find?, List.find?_filter]
    congr 1
    funext f
    by_cases hf : f = .message 2 []
    · simp [hf, Field.tag]
    · simp [hf, Bool.beq_eq_decide_eq]
  rw [text, text, hfind]

theorem text_put (tag : Nat) (k : String) (m : Message) : (put .single (.scalar tag (.text k)) m).text tag = k := by
  have hfind : find? (put .single (.scalar tag (.text k)) m) tag = _ := find?_put_single (.scalar tag (.text k)) m
  rw [text, hfind]
  by_cases hd : (Scalar.text k).isDefault = true
  · simpa [isWritten, hd] using (eq_empty_of_isDefault hd).symm
  · simp [isWritten, hd]

/-- One more record of an entry gives it the key that the record spells, or leaves it the key it has. -/
theorem encode_text_putRecord (hs : s.IsEntry) (h : putRecord enter budget s m r = some m') :
    Utf8.encode (m'.text 1) = Record.keyStep (Utf8.encode (m.text 1)) r := by
  cases hspec : s.field? r.tag with
  | none =>
    have ht : r.tag ≠ 1 := fun ht => by
      rw [ht, field?_one hs] at hspec
      cases hspec
    simp only [putRecord, hspec] at h
    split at h
    · cases h
      rw [Record.keyStep_of_ne ht]
    · cases h
  | some spec =>
    rw [putRecord_eq hspec, hs.single hspec] at h
    obtain ⟨f, hf, rfl⟩ := Option.map_eq_some_iff.1 h
    have htag := (tag_fieldOf hf).trans (Shape.tag_of_field? hspec)
    by_cases ht : r.tag = 1
    · rw [ht, field?_one hs] at hspec
      cases hspec
      cases r with
      | chunk t bytes =>
        obtain rfl : t = 1 := ht
        obtain ⟨v, hv, rfl⟩ := Option.map_eq_some_iff.1 hf
        obtain ⟨k, hk, rfl⟩ := Option.map_eq_some_iff.1 hv
        rw [show (FieldSpec.scalar 1 .text).tag = 1 from rfl, text_put, Utf8.encode_of_decode? hk]
        rfl
      | varint | fixed64 | group | fixed32 => cases hf
    · have hfind : (put .single f m).find? 1 = m.find? 1 :=
        find?_put_of_ne (by omega) (fun g hg => by simp [replaces, hg, htag, Ne.symm ht]) m
      rw [text, text, hfind, Record.keyStep_of_ne ht]

theorem encode_text_putRecords (hs : s.IsEntry) : ∀ {rs : List Record} {m : Message},
    rs.foldlM (putRecord enter budget s) m = some m' →
      Utf8.encode (m'.text 1) = rs.foldl Record.keyStep (Utf8.encode (m.text 1))
  | [], _, h => by
    cases h
    rfl
  | r :: rs, m, h => by
    obtain ⟨m₁, h₁, h⟩ := Option.bind_eq_some_iff.1 h
    rw [encode_text_putRecords hs h, encode_text_putRecord hs h₁, List.foldl_cons]

/-- An entry has the key that its records give. -/
theorem exists_keyOf {fs : Message} {bytes : Bytes} (hs : s.IsEntry) (h : inside budget s [] bytes = some fs)
    (tag : Nat) :
    ∃ rs, Record.readAll Record.unkeyed bytes = some rs ∧
      Utf8.encode (Field.message tag (trimEntry fs)).key = Record.keyOf rs := by
  have hfit : (trimEntry fs).Canonical s := (keepsCanonical_inside budget h Fits.nil).sublist List.filter_sublist
  cases budget with
  | zero => cases h
  | succ budget =>
    have hunkeyed : s.isKeyed = Record.unkeyed := funext hs.isKeyed_eq
    rw [inside, merge_eq, hunkeyed] at h
    obtain ⟨rs, hrs, h⟩ := Option.bind_eq_some_iff.1 h
    refine ⟨rs, hrs, ?_⟩
    rw [key_eq_text hs hfit, text_trimEntry, encode_text_putRecords hs h]
    rfl

/-! ## Records in either order -/

/-- Reading one field does not look at the fields of another number. -/
theorem current_put (hs : s.field? f.tag = some spec) (hk : spec.occurrence = .keyed)
    (hs' : s.field? tag = some spec') (m : Message) : (put spec.occurrence f m).current spec' = m.current spec' := by
  by_cases ht : f.tag = tag
  · rw [ht, hs'] at hs
    cases hs
    simp only [current, hk]
  · have hfind : (put .keyed f m).find? spec'.tag = m.find? spec'.tag :=
      find?_put_of_ne (by rwa [Shape.tag_of_field? hs'])
        (fun g hg => by simp [replaces, hg, Shape.tag_of_field? hs', Ne.symm ht]) m
    simp only [current, child?, hk, hfind]

/-- Entries that may change places give fields with different keys. -/
theorem key_ne_of_passesBy (hs : s.field? tag = some spec) (ho : spec.occurrence = .keyed) {bytes : Bytes}
    (hp : r.PassesBy tag bytes) (hr : r.tag = tag)
    (hf : fieldOf (inside budget) spec [] (.chunk tag bytes) = some f)
    (hg : fieldOf (inside budget) spec [] r = some g) : f.key ≠ g.key := by
  obtain ⟨inner, hc, hentry⟩ := Shape.content_of_keyed hs ho
  simp only [fieldOf, hc, if_pos ho] at hf hg
  obtain ⟨fs, hfs, rfl⟩ := Option.map_eq_some_iff.1 hf
  split at hg
  next h => cases h
  next other h =>
    cases h
    obtain ⟨gs, hgs, rfl⟩ := Option.map_eq_some_iff.1 hg
    obtain ⟨rs, hrs, hkey⟩ := exists_keyOf hentry hfs spec.tag
    obtain ⟨rs', hrs', hkey'⟩ := exists_keyOf hentry hgs spec.tag
    intro he
    exact hp other (by rw [← hr]; rfl) rs rs' hrs hrs' (by rw [← hkey, ← hkey', he])
  next => cases hg

/-- An entry may be read before or after a record that it may change places with. -/
theorem putRecord_swap (budget : Nat) {bytes : Bytes} (hm : m.Canonical s) (hs : s.field? tag = some spec)
    (ho : spec.occurrence = .keyed) (hp : r.PassesBy tag bytes) :
    (putRecord (inside budget) budget s m (.chunk tag bytes)).bind (putRecord (inside budget) budget s · r) =
      (putRecord (inside budget) budget s m r).bind (putRecord (inside budget) budget s · (.chunk tag bytes)) := by
  have hchunk (m : Message) : putRecord (inside budget) budget s m (.chunk tag bytes) =
      (fieldOf (inside budget) spec [] (.chunk tag bytes)).map (m.put spec.occurrence ·) := by
    have hcurrent : m.current spec = [] := by simp only [current, ho]
    rw [putRecord_eq hs, hcurrent]
  simp only [hchunk]
  cases hr : s.field? r.tag with
  | none =>
    have hpassed (m : Message) :
        putRecord (inside budget) budget s m r = if r.depth ≤ budget then some m else none := by
      simp only [putRecord, hr]
    simp only [hpassed]
    split
    · exact Option.bind_fun_some _
    · exact Option.bind_fun_none _
  | some spec' =>
    simp only [putRecord_eq hr]
    cases hf : fieldOf (inside budget) spec [] (.chunk tag bytes) with
    | none => simp
    | some f =>
      have hft : s.field? f.tag = some spec := by rw [tag_fieldOf hf, Shape.tag_of_field? hs, hs]
      simp only [Option.map_some, Option.bind_some, current_put hft ho hr]
      cases hg : fieldOf (inside budget) spec' (m.current spec') r with
      | none => rfl
      | some g =>
        have hgt : s.field? g.tag = some spec' := by rw [tag_fieldOf hg, Shape.tag_of_field? hr, hr]
        -- a field that the entry does not replace does not replace the entry
        have hkeys (ht : g.tag = f.tag) : spec' = spec ∧ g.key ≠ f.key := by
          have hspec : spec' = spec := by
            rw [ht, hft] at hgt
            exact (Option.some.inj hgt).symm
          subst hspec
          have hcurrent : m.current spec' = [] := by simp only [current, ho]
          rw [hcurrent] at hg
          have htag : r.tag = tag := (Shape.tag_of_field? hr).symm.trans (Shape.tag_of_field? hs)
          exact ⟨rfl, (key_ne_of_passesBy hs ho hp htag hf hg).symm⟩
        refine congrArg some (put_comm hm hft hgt ?_ ?_ ?_).symm
        · rw [replaces_false_iff, ho]
          exact fun ht => (hkeys ht).2
        · rw [replaces_false_iff]
          cases ho' : spec'.occurrence with
          | single => exact fun ht => by simp [(hkeys ht.symm).1, ho] at ho'
          | repeated => trivial
          | keyed => exact fun ht => (hkeys ht.symm).2.symm
          | choice group =>
            intro hmem
            have := Shape.choice_of_mem hgt ho' hft hmem
            rw [ho] at this
            cases this
        · exact fun _ => ho

/-! ## Other places -/

/-- **The order of entries.** What is read does not depend on where the entries of maps stand. -/
theorem putRecords_reordered {rs rs' : List Record} (h : Record.Reordered s rs rs') (budget : Nat) {m : Message}
    (hm : m.Canonical s) :
    rs.foldlM (putRecord (inside budget) budget s) m = rs'.foldlM (putRecord (inside budget) budget s) m := by
  induction h generalizing budget m with
  | refl rs => rfl
  | symm _ ih => exact (ih budget hm).symm
  | trans _ _ ih ih' => exact (ih budget hm).trans (ih' budget hm)
  | cons r _ ih =>
    rw [List.foldlM_cons, List.foldlM_cons]
    refine Option.bind_congr fun m₁ h₁ => ?_
    exact ih budget (canonical_putRecord (keepsCanonical_inside budget) hm h₁)
  | @inside s tag spec inner bytes bytes' es es' rs hs hc hes hes' _ ih =>
    rw [List.foldlM_cons, List.foldlM_cons]
    have hinside : inside budget inner (m.current spec) bytes = inside budget inner (m.current spec) bytes' := by
      cases budget with
      | zero => rfl
      | succ budget =>
        rw [inside, merge_eq, merge_eq, hes, hes']
        exact ih budget (canonical_current hm hs hc)
    have hput : putRecord (inside budget) budget s m (.chunk tag bytes) =
        putRecord (inside budget) budget s m (.chunk tag bytes') := by
      rw [putRecord_eq hs, putRecord_eq hs]
      simp only [fieldOf, hc, hinside]
    rw [hput]
  | swap rs hs ho hp =>
    have hswap := putRecord_swap budget hm hs ho hp
    simp only [List.foldlM_cons, ← bind_assoc]
    exact congrArg (· >>= _) hswap

/-- Bytes that differ only in where the entries of maps stand, at any depth. -/
def Reordered (s : Shape) (bytes bytes' : Bytes) : Prop :=
  ∃ rs rs', Record.readAll s.isKeyed bytes = some rs ∧ Record.readAll s.isKeyed bytes' = some rs' ∧
    Record.Reordered s rs rs'

theorem decode?_reordered {t : MessageType} {bytes bytes' : Bytes} (h : Reordered (.type t) bytes bytes') :
    decode? t bytes = decode? t bytes' := by
  obtain ⟨rs, rs', hrs, hrs', h⟩ := h
  rw [decode?, decode?, merge_eq, merge_eq, hrs, hrs']
  exact putRecords_reordered h nestingLimit Fits.nil

end Message

end LedgerClient.Wire
