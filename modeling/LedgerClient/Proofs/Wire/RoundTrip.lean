/-
Reading what has been written.

Whatever order the entries of maps are written in, the reader puts them by
rising key. `settle` is what it makes of a message: reading a valid message
that has been written gives the message settled (`merge_writeAll`), settling
changes nothing in a canonical message, and two messages that differ in the
order of map entries alone settle to the same. Together with what is read being
a value, this is `roundTrip`.
-/
import LedgerClient.Proofs.Wire.Decoded

namespace LedgerClient.Wire

/-! ## Settling -/

mutual
/-- The field with the entries of the maps in it by rising key. -/
def Field.settle (s : Shape) : Field → Field
  | .scalar tag v => .scalar tag v
  | .message tag fs =>
    match s.field? tag with
    | some ⟨_, _, .message inner⟩ => .message tag (Field.settleInto inner [] fs)
    | _ => .message tag fs

/-- The fields settled and inserted one after the other. -/
def Field.settleInto (s : Shape) (m : Message) : List Field → Message
  | [] => m
  | f :: fs => Field.settleInto s (Message.insert (s.isKeyed f.tag) (f.settle s) m) fs
end

namespace Field

variable {s inner : Shape} {spec : FieldSpec} {tag : Nat}

theorem settle_message (hs : s.field? tag = some spec) (hc : spec.content = .message inner) (fs : List Field) :
    (Field.message tag fs).settle s = .message tag (settleInto inner [] fs) := by
  obtain ⟨t, o, c⟩ := spec
  simp only at hc
  subst hc
  simp only [settle, hs]

@[simp] theorem tag_settle (s : Shape) (f : Field) : (f.settle s).tag = f.tag := by
  cases f with
  | scalar tag v => simp only [settle]
  | message tag fs =>
    simp only [settle]
    split <;> rfl

theorem mem_settleInto {f : Field} : ∀ {fs : List Field} {m : Message},
    f ∈ settleInto s m fs ↔ f ∈ m ∨ ∃ g ∈ fs, f = g.settle s
  | [], m => by simp [settleInto]
  | g :: fs, m => by
    rw [settleInto, mem_settleInto, Message.mem_insert]
    simp only [List.mem_cons, exists_eq_or_imp]
    rw [or_assoc, or_left_comm]

/-- A field keeps its place in front of fields with larger numbers. -/
theorem settleInto_cons {f : Field} : ∀ {fs : List Field} {m : Message}, (∀ g ∈ fs, f.tag < g.tag) →
    settleInto s (f :: m) fs = f :: settleInto s m fs
  | [], _, _ => rfl
  | g :: fs, m, h => by
    have hb : Message.insert.before (s.isKeyed g.tag) (g.settle s) f = true :=
      Message.before_iff.2 (.inl (by simpa using h g (by simp)))
    rw [settleInto, Message.insert_cons, if_pos hb, settleInto_cons fun x hx => h x (by simp [hx]), settleInto]

theorem key_message_cons (tag : Nat) {f f' : Field} (h : f = f' ∨ ∃ t fs fs', f = .message t fs ∧ f' = .message t fs')
    (m m' : Message) : (Field.message tag (f :: m)).key = (Field.message tag (f' :: m')).key := by
  rcases h with rfl | ⟨t, fs, fs', rfl, rfl⟩
  · cases f with
    | scalar t v =>
      by_cases ht : t = 1
      · subst ht
        cases v <;> rfl
      · cases v <;> simp [key, ht]
    | message t fs => rfl
  · rfl

/-- Settling keeps the key of a map entry. -/
theorem key_settle {f : Field} (hf : f.Fits (· ≠ ·) s) (hk : s.isKeyed f.tag = true) :
    (f.settle s).key = f.key := by
  cases f with
  | scalar tag v => simp only [settle]
  | message tag fs =>
    obtain ⟨spec, inner, hs, hc, hfit, -⟩ := fits_message.1 hf
    have ho : spec.occurrence = .keyed := by
      rw [Field.tag, Shape.isKeyed_of_field? hs] at hk
      simpa using hk
    obtain ⟨inner', hc', hentry⟩ := Shape.content_of_keyed hs ho
    rw [hc] at hc'
    cases hc'
    rw [settle_message hs hc]
    cases fs with
    | nil => rfl
    | cons g fs =>
      obtain ⟨-, hfs, hg⟩ := Message.fits_cons.1 hfit
      have hlt : ∀ x ∈ fs, (g.settle inner).tag < x.tag := by
        intro x hx
        obtain ⟨spec', hs'⟩ := (hfs.of_mem hx).field?
        simpa using (Shape.before_single hs' (hentry.single hs')).1 (hg x hx)
      rw [settleInto, show Message.insert (inner.isKeyed g.tag) (g.settle inner) [] = [g.settle inner] from rfl,
        settleInto_cons hlt]
      refine key_message_cons tag ?_ _ _
      cases g with
      | scalar t v => exact .inl (by simp only [settle])
      | message t gs =>
        right
        simp only [settle]
        split
        · exact ⟨t, _, _, rfl, rfl⟩
        · exact ⟨t, _, _, rfl, rfl⟩

mutual
/-- Settling changes nothing where every map stands by rising key. -/
theorem settle_of_canonical : (s : Shape) → (f : Field) → f.Fits (· < ·) s → f.settle s = f
  | _, .scalar tag v, _ => by simp only [settle]
  | _, .message tag fs, h => by
    obtain ⟨spec, inner, hs, hc, hfit, -⟩ := fits_message.1 h
    rw [settle_message hs hc, settleInto_of_canonical inner fs [] hfit, List.nil_append]

theorem settleInto_of_canonical : (s : Shape) → (fs : List Field) → (m : Message) →
    Message.Canonical s (m ++ fs) → settleInto s m fs = m ++ fs
  | _, [], m, _ => by rw [settleInto, List.append_nil]
  | s, f :: fs, m, h => by
    have hb : ∀ g ∈ m, Message.insert.before (s.isKeyed f.tag) f g = true := by
      intro g hg
      have hgf := (List.pairwise_append.1 h.order).2.2 g hg f (by simp)
      obtain ⟨spec, hs⟩ := (h.of_mem (f := f) (by simp)).field?
      rw [Message.before_iff, Shape.isKeyed_of_field? hs, beq_iff_eq]
      match ho : spec.occurrence with
      | .single => exact .inl ((Shape.before_single hs ho).1 hgf)
      | .repeated =>
        have := (Shape.before_repeated hs ho).1 hgf
        exact (Nat.lt_or_eq_of_le this).imp_right fun ht => ⟨ht, nofun⟩
      | .keyed =>
        exact ((Shape.before_keyed hs ho).1 hgf).imp_right fun ⟨ht, hk⟩ =>
          ⟨ht, fun _ => String.not_lt.1 (String.lt_asymm hk)⟩
      | .choice group => exact .inl ((Shape.before_choice hs ho).1 hgf).1
    have happ : m ++ f :: fs = m ++ [f] ++ fs := by simp
    rw [settleInto, settle_of_canonical s f (h.of_mem (by simp)), Message.insert_eq_append hb,
      settleInto_of_canonical s fs (m ++ [f]) (happ ▸ h), happ]
end

end Field

/-! ## Other orders -/

namespace Message

open Wire.Field (settleInto key_settle tag_settle key_message_cons)

variable {s : Shape}

theorem Rearranged.size_eq {m m' : Message} (h : Rearranged s m m') : m'.size = m.size := by
  induction h with
  | refl m => rfl
  | cons f _ ih =>
    simp only [Message.size, Field.sizeAll] at ih ⊢
    omega
  | inside m _ _ _ ih =>
    simp only [Message.size, Field.sizeAll, Field.size] at ih ⊢
    rw [ih]
  | swap m _ _ _ =>
    simp only [Message.size, Field.sizeAll]
    omega
  | trans _ _ ih ih' => exact ih'.trans ih

theorem Rearranged.nesting_eq {m m' : Message} (h : Rearranged s m m') : m'.nesting = m.nesting := by
  induction h with
  | refl m => rfl
  | cons f _ ih =>
    simp only [Message.nesting, Field.nestingAll] at ih ⊢
    rw [ih]
  | inside m _ _ _ ih =>
    simp only [Message.nesting, Field.nestingAll, Field.nesting] at ih ⊢
    rw [ih]
  | swap m _ _ _ =>
    simp only [Message.nesting, Field.nestingAll]
    omega
  | trans _ _ ih ih' => exact ih'.trans ih

theorem Rearranged.eq_nil {m : Message} (h : Rearranged s m []) : m = [] := by
  have := h.size_eq
  have := Field.length_le_sizeAll m
  have hl : m.length = 0 := by
    simp only [Message.size, Field.sizeAll] at *
    omega
  exact List.length_eq_zero_iff.1 hl

/-- A message without fields has nothing to rearrange. -/
theorem Rearranged.mem_of_empty {m m' : Message} (h : Rearranged s m m') {tag : Nat}
    (hm : .message tag [] ∈ m') : .message tag [] ∈ m := by
  induction h with
  | refl m => exact hm
  | cons f _ ih =>
    rcases List.mem_cons.1 hm with rfl | hm
    · exact List.mem_cons_self
    · exact List.mem_cons_of_mem _ (ih hm)
  | inside m _ _ hr _ =>
    rcases List.mem_cons.1 hm with he | hm
    · obtain ⟨rfl, rfl⟩ := Field.message.inj he
      rw [hr.eq_nil]
      exact List.mem_cons_self
    · exact List.mem_cons_of_mem _ hm
  | swap m _ _ _ =>
    simp only [List.mem_cons] at hm ⊢
    exact or_left_comm.1 hm
  | trans _ _ ih ih' => exact ih (ih' hm)

/-- An entry of a map keeps its key: there is nothing to rearrange on the outside of it. -/
theorem Rearranged.key_eq {m m' : Message} (h : Rearranged s m m') (hs : s.IsEntry) (tag : Nat) :
    (Field.message tag m').key = (Field.message tag m).key := by
  induction h with
  | refl m => rfl
  | cons f _ _ => exact key_message_cons tag (.inl rfl) _ _
  | inside m _ _ _ _ => exact key_message_cons tag (.inr ⟨_, _, _, rfl, rfl⟩) _ _
  | swap m hf ho _ =>
    have := hs.single hf
    rw [ho] at this
    cases this
  | trans _ _ ih ih' => exact (ih' hs).trans (ih hs)

/-- What stays the same when the entries of maps are written in another order. -/
structure SettlesAlike (s : Shape) (m m' : Message) : Prop where
  valid : m'.Valid s
  before : ∀ f, (∀ g ∈ m, s.Before (· ≠ ·) f g) → ∀ g ∈ m', s.Before (· ≠ ·) f g
  settleInto_eq : ∀ acc, settleInto s acc m' = settleInto s acc m

theorem Rearranged.settlesAlike {m m' : Message} (h : Rearranged s m m') (hm : m.Valid s) :
    SettlesAlike s m m' := by
  induction h with
  | refl m => exact ⟨hm, fun _ h => h, fun _ => rfl⟩
  | cons f _ ih =>
    obtain ⟨hf, hm, hb⟩ := fits_cons.1 hm
    have ih := ih hm
    refine ⟨fits_cons.2 ⟨hf, ih.valid, ih.before f hb⟩, fun x hx g hg => ?_, fun acc => ?_⟩
    · rcases List.mem_cons.1 hg with rfl | hg
      · exact hx g (by simp)
      · exact ih.before x (fun y hy => hx y (by simp [hy])) g hg
    · simp only [settleInto, ih.settleInto_eq]
  | inside m hs hc hr ih =>
    next s tag spec inner fs fs' =>
    obtain ⟨hf, hm, hb⟩ := fits_cons.1 hm
    obtain ⟨spec', inner', hs', hc', hfit, hne⟩ := Field.fits_message.1 hf
    rw [hs] at hs'
    cases hs'
    rw [hc] at hc'
    cases hc'
    have ih := ih hfit
    have hkey : s.isKeyed tag = true → (Field.message tag fs).key = (Field.message tag fs').key := by
      intro hk
      rw [Shape.isKeyed_of_field? hs, beq_iff_eq] at hk
      obtain ⟨inner', hc', hentry⟩ := Shape.content_of_keyed hs hk
      rw [hc] at hc'
      cases hc'
      exact (hr.key_eq hentry tag).symm
    refine ⟨fits_cons.2 ⟨?_, hm, fun g hg => (hb g hg).congr rfl rfl (fun _ => rfl) hkey⟩,
      fun x hx g hg => ?_, fun acc => ?_⟩
    · exact Field.fits_message.2 ⟨spec, inner, hs, hc, ih.valid, fun hk hmem => hne hk (hr.mem_of_empty hmem)⟩
    · rcases List.mem_cons.1 hg with rfl | hg
      · exact (hx (.message tag fs) (by simp)).congr rfl rfl hkey (fun _ => rfl)
      · exact hx g (by simp [hg])
    · simp only [settleInto, Field.tag, Field.settle_message hs hc, ih.settleInto_eq]
  | swap m hs ho ht =>
    next s spec f g =>
    obtain ⟨hf, hm, hb⟩ := fits_cons.1 hm
    obtain ⟨hg, hm, hb'⟩ := fits_cons.1 hm
    have hsg := ht ▸ hs
    have hkf : s.isKeyed f.tag = true := by simp [Shape.isKeyed_of_field? hs, ho]
    have hkg : s.isKeyed g.tag = true := ht ▸ hkf
    have hk : f.key ≠ g.key := by
      rcases (Shape.before_keyed hsg ho).1 (hb g (by simp)) with h | h
      · omega
      · exact h.2
    refine ⟨fits_cons.2 ⟨hg, fits_cons.2 ⟨hf, hm, fun x hx => hb x (by simp [hx])⟩, fun x hx => ?_⟩,
      fun x hx y hy => hx y ?_, fun acc => ?_⟩
    · rcases List.mem_cons.1 hx with rfl | hx
      · exact (Shape.before_keyed hs ho).2 (.inr ⟨ht.symm, hk.symm⟩)
      · exact hb' x hx
    · simp only [List.mem_cons] at hy ⊢
      exact or_left_comm.1 hy
    · simp only [settleInto, hkf, hkg]
      rw [insert_comm (by simpa using ht)]
      rwa [key_settle hf hkf, key_settle hg hkg]
  | trans _ _ ih ih' =>
    have h₁ := ih hm
    have h₂ := ih' h₁.valid
    exact ⟨h₂.valid, fun f hf => h₂.before f (h₁.before f hf),
      fun acc => (h₂.settleInto_eq acc).trans (h₁.settleInto_eq acc)⟩

end Message

/-! ## Reading what has been written -/

theorem ScalarKind.read_toRecord {kind : ScalarKind} {v : Scalar} (h : v.kind = kind) (tag : Nat) :
    kind.read (v.toRecord tag) = some v := by
  subst h
  cases v with
  | int32 n =>
    have : n.toInt64.toUInt64.toUInt32.toInt32 = n := by
      apply Int32.toBitVec_inj.1
      apply BitVec.eq_of_getLsbD_eq
      intro i hi
      simp [BitVec.getLsbD_signExtend, hi]
      omega
    simp only [Scalar.toRecord, Scalar.varint?, Scalar.kind, ScalarKind.read, this]
  | int64 n => simp [Scalar.toRecord, Scalar.varint?, Scalar.kind, ScalarKind.read]
  | uint32 n => simp [Scalar.toRecord, Scalar.varint?, Scalar.kind, ScalarKind.read]
  | uint64 n => simp [Scalar.toRecord, Scalar.varint?, Scalar.kind, ScalarKind.read]
  | bool b => cases b <;> rfl
  | text s =>
    simp [Scalar.toRecord, Scalar.varint?, Scalar.content, Scalar.kind, ScalarKind.read, Utf8.decode?_encode]
  | bytes b => rfl

namespace Message

open Wire.Field (settleInto key_settle tag_settle mem_settleInto)

variable {s : Shape} {limit : Nat}

/-- Settling makes no message empty. -/
theorem eq_of_settle_eq_empty {f : Field} {tag : Nat} (h : f.settle s = .message tag []) :
    f = .message tag [] := by
  cases f with
  | scalar t v => simp [Field.settle] at h
  | message t fs =>
    simp only [Field.settle] at h
    split at h
    · next inner _ =>
      obtain ⟨rfl, hfs⟩ := Field.message.inj h
      cases fs with
      | nil => rfl
      | cons g fs =>
        have : g.settle inner ∈ settleInto inner [] (g :: fs) := mem_settleInto.2 (.inr ⟨g, by simp, rfl⟩)
        simp [hfs] at this
    · exact h

theorem trimEntry_eq {fs : Message} (h : .message 2 [] ∉ fs) : trimEntry fs = fs := by
  rw [trimEntry, List.filter_eq_self]
  intro f hf
  simp only [bne_iff_ne, ne_eq]
  rintro rfl
  exact h hf

/-- What `enter` has to do with a message that has been written. -/
def EnterSettles (limit : Nat) (enter : Shape → Message → Bytes → Option Message) : Prop :=
  ∀ {inner : Shape} {fs : Message}, fs.Valid inner → fs.nesting + 1 ≤ limit → fs.size < 2 ^ 64 →
    enter inner [] fs.encode = some (settleInto inner [] fs)

/-- The record of a field puts the field settled, behind those that may stand before it. -/
theorem putRecord_toRecord {enter : Shape → Message → Bytes → Option Message} (he : EnterSettles limit enter)
    {f : Field} {m : Message} (hf : f.Fits (· ≠ ·) s) (hn : f.nesting ≤ limit) (hsize : f.size < 2 ^ 64)
    (hm : ∀ g ∈ m, s.Before (· ≠ ·) g f) :
    putRecord enter limit s m f.toRecord = some (insert (s.isKeyed f.tag) (f.settle s) m) := by
  have hm' : ∀ g ∈ m, s.Before (· ≠ ·) g (f.settle s) := fun g hg =>
    (hm g hg).congr (tag_settle s f).symm rfl (fun hk => (key_settle hf hk).symm) (fun _ => rfl)
  cases f with
  | scalar tag v =>
    obtain ⟨spec, hs, hc, hw⟩ := Field.fits_scalar.1 hf
    have ht := Shape.tag_of_field? hs
    have hr : ScalarKind.read v.kind (Field.scalar tag v).toRecord = some v := ScalarKind.read_toRecord rfl tag
    simp only [putRecord, Field.tag_toRecord, Field.tag, hs, hc, hr, Option.map_some, Field.settle,
      Shape.isKeyed_of_field? hs, ht]
    rw [put_eq (fun g hg => replaces_of_before hs (hm g hg)) hw]
  | message tag fs =>
    obtain ⟨spec, inner, hs, hc, hfit, hne⟩ := Field.fits_message.1 hf
    have ht := Shape.tag_of_field? hs
    have hcur : m.current spec = [] := by
      rcases current_cases (m := m) hs with h | ⟨old, hold, -, hr⟩
      · exact h
      · have := replaces_of_before (f := .message tag fs) hs (hm _ hold)
        rw [hr fs] at this
        cases this
    have hin := Field.sizeAll_lt_size tag fs
    have hread : enter inner [] (Field.writeAll fs) = some (settleInto inner [] fs) := by
      refine he hfit ?_ ?_
      · simp only [Field.nesting, Message.nesting] at hn ⊢
        omega
      · simp only [Message.size]
        omega
    have htrim : (if spec.occurrence = .keyed then trimEntry (settleInto inner [] fs)
        else settleInto inner [] fs) = settleInto inner [] fs := by
      split
      · next hk =>
        refine trimEntry_eq fun h => ?_
        obtain ⟨g, hg, h⟩ := (mem_settleInto.1 h).resolve_left (by simp)
        exact hne hk (eq_of_settle_eq_empty h.symm ▸ hg)
      · rfl
    rw [Field.settle_message hs hc] at hm' ⊢
    simp only [putRecord, Field.toRecord, Record.tag, hs, hc, hcur, hread, Option.map_some, htrim, Field.tag,
      Shape.isKeyed_of_field? hs, ht]
    rw [put_eq (fun g hg => replaces_of_before hs (hm' g hg)) rfl]

theorem putRecords_toRecord {enter : Shape → Message → Bytes → Option Message} (he : EnterSettles limit enter) :
    ∀ {fs m : Message}, fs.Valid s → fs.nesting ≤ limit → fs.size < 2 ^ 64 →
      (∀ g ∈ m, ∀ f ∈ fs, s.Before (· ≠ ·) g f) →
      (fs.map Field.toRecord).foldlM (putRecord enter limit s) m = some (settleInto s m fs)
  | [], _, _, _, _, _ => rfl
  | f :: fs, m, hv, hn, hsize, hb => by
    obtain ⟨hf, hfs, hlt⟩ := fits_cons.1 hv
    simp only [Message.nesting, Message.size, Field.nestingAll, Field.sizeAll] at hn hsize
    have hstep := putRecord_toRecord he hf (by omega) (by omega) fun g hg => hb g hg f (by simp)
    rw [List.map_cons, List.foldlM_cons, hstep, settleInto]
    refine putRecords_toRecord he hfs (by simp only [Message.nesting]; omega)
      (by simp only [Message.size]; omega) fun g hg x hx => ?_
    rcases mem_insert.1 hg with rfl | hg
    · exact (hlt x hx).congr rfl (tag_settle s f).symm (fun _ => rfl)
        (fun hk => (key_settle hf (by simpa using hk)).symm)
    · exact hb g hg x (by simp [hx])

theorem readable_of_fits {f : Field} {r : String → String → Prop} (hf : f.Fits r s) :
    Record.Readable s.isKeyed f := by
  obtain ⟨spec, hs⟩ := hf.field?
  refine ⟨Shape.tag_pos_of_field? hs, fun tag v hv => ?_⟩
  subst hv
  obtain ⟨spec', hs', hc, -⟩ := Field.fits_scalar.1 hf
  exact Shape.isKeyed_of_scalar hs' hc

/-- Reading a valid message that has been written gives the message settled. -/
theorem merge_encode : ∀ {budget : Nat} {s : Shape} {m : Message}, m.Valid s → m.nesting ≤ budget →
    m.size < 2 ^ 64 → merge budget s [] m.encode = some (settleInto s [] m) := by
  intro budget s m hv hn hsize
  have hinside : EnterSettles budget (inside budget) := by
    cases budget with
    | zero => exact fun _ h => absurd h (by omega)
    | succ budget => exact fun hv hn hsize => merge_encode hv (by omega) hsize
  have hreadable : ∀ f ∈ m, Record.Readable s.isKeyed f := fun f hf => readable_of_fits (hv.of_mem hf)
  rw [merge_eq, encode, Record.readAll_writeAll hreadable hsize]
  exact putRecords_toRecord hinside hv hn hsize (by simp)

/-- A value is read back from its encoding, in whatever order the entries of its maps are written. -/
theorem IsValue.decode?_encode {t : MessageType} {m m' : Message} (hm : m.IsValue t)
    (h : Rearranged (.type t) m m') : decode? t m'.encode = some m := by
  have hs := h.settlesAlike hm.canonical.valid
  rw [decode?, merge_encode hs.valid (h.nesting_eq ▸ hm.nesting) (h.size_eq ▸ hm.size), hs.settleInto_eq,
    Field.settleInto_of_canonical _ _ _ hm.canonical, List.nil_append]

/-- **Wire round trip.** A value is read back from its encoding, in whatever order the entries of
its maps are written, and the encoding has the length that is computed. What is read from any bytes,
of which a machine holds fewer than `2 ^ 63`, is such a value. -/
theorem roundTrip (t : MessageType) :
    (∀ m m', m.IsValue t → Rearranged (.type t) m m' →
      decode? t m'.encode = some m ∧ m'.encode.length = m'.size) ∧
    (∀ bytes m, bytes.length < 2 ^ 63 → decode? t bytes = some m →
      m.IsValue t ∧ decode? t m.encode = some m) := by
  refine ⟨fun m m' hm h => ⟨hm.decode?_encode h, length_encode m'⟩, fun bytes m hb h => ?_⟩
  have hm := isValue_of_decode? hb h
  exact ⟨hm, hm.decode?_encode (.refl m)⟩

/-- Two configuration groups, of which the second has a version. -/
def twoGroups : Message :=
  [.message 2 [.scalar 1 (.text "a")],
    .message 2 [.scalar 1 (.text "b"), .message 2 [.scalar 1 (.uint64 7)]]]

/-- They are read from bytes with the first group sent twice, and from their encodings in either order. -/
theorem roundTrip_twoGroups :
    decode? .configGroup [18, 3, 10, 1, 97, 18, 7, 10, 1, 98, 18, 2, 8, 7, 18, 3, 10, 1, 97] = some twoGroups ∧
      twoGroups.IsValue .configGroup ∧
      decode? .configGroup twoGroups.encode = some twoGroups ∧
      decode? .configGroup (Message.encode (List.reverse twoGroups)) = some twoGroups ∧
      (Message.encode (List.reverse twoGroups)).length = 14 :=
  have hread : decode? .configGroup [18, 3, 10, 1, 97, 18, 7, 10, 1, 98, 18, 2, 8, 7, 18, 3, 10, 1, 97] =
      some twoGroups := by decide
  have ⟨hvalue, hagain⟩ := (roundTrip .configGroup).2 _ _ (by decide) hread
  have hmap : (Shape.type .configGroup).field? 2 = some (.messageMap 2 .configGroup) := rfl
  have hswap : Rearranged (.type .configGroup) twoGroups (List.reverse twoGroups) := .swap [] hmap rfl rfl
  have ⟨hother, hlen⟩ := (roundTrip .configGroup).1 _ _ hvalue hswap
  ⟨hread, hvalue, hagain, hother, hlen.trans (by decide)⟩

end Message

end LedgerClient.Wire
