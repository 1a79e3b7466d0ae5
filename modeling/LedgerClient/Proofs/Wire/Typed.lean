/-
Structures that are read back from what they are written as.

A structure writes its fields by rising number, each as a segment of its own
(`Segment`); segments in that order make a canonical message (`UpTo.append`),
and every accessor finds its segment. A structure for which both hold is
`Faithful`, and encoding and decoding it gives it back (`Faithful.decode?_encode`).
-/
import LedgerClient.Wire.Typed
import LedgerClient.Proofs.Wire.RoundTrip

namespace LedgerClient.Wire

/-- Whether the fields numbered `tag` may come after fields numbered `last` at most. -/
def Shape.mayFollow (s : Shape) (last tag : Nat) : Bool :=
  last < tag &&
    match s.field? tag with
    | some ⟨_, .choice group, _⟩ => group.all fun t => last < t
    | _ => true

/-- A structure nested at most `depth` deep that is read back from its message. -/
structure Faithful {α : Type} [Typed α] (depth : Nat) (x : α) : Prop where
  canonical : (Typed.toMessage x).Canonical (.type (Typed.type α))
  nesting : (Typed.toMessage x).nesting ≤ depth
  ofMessage_toMessage : Typed.ofMessage (Typed.toMessage x) = x

namespace Message

/-! ## Segments -/

/-- A canonical message, nested at most `depth` deep, with no field numbered above `last`. -/
structure UpTo (m : Message) (s : Shape) (depth last : Nat) : Prop where
  canonical : m.Canonical s
  nesting : m.nesting ≤ depth
  tag_le : ∀ f ∈ m, f.tag ≤ last

/-- A canonical message, nested at most `depth` deep, with no fields but those numbered `tag`. -/
structure Segment (m : Message) (s : Shape) (depth tag : Nat) : Prop where
  canonical : m.Canonical s
  nesting : m.nesting ≤ depth
  tag_eq : ∀ f ∈ m, f.tag = tag

variable {s : Shape} {depth last tag : Nat} {m m' : Message}

theorem Segment.upTo (h : Segment m s depth tag) : UpTo m s depth tag :=
  ⟨h.canonical, h.nesting, fun f hf => Nat.le_of_eq (h.tag_eq f hf)⟩

theorem before_of_mayFollow {f g : Field} (h : s.mayFollow last f.tag = true)
    (hf : ∃ spec, s.field? f.tag = some spec) (hg : g.tag ≤ last) : s.Before (· < ·) g f := by
  obtain ⟨⟨t, o, c⟩, hs⟩ := hf
  simp only [Shape.mayFollow, hs, Bool.and_eq_true, decide_eq_true_eq] at h
  obtain ⟨hlt, h⟩ := h
  cases o with
  | single => exact (Shape.before_single hs rfl).2 (by omega)
  | repeated => exact (Shape.before_repeated hs rfl).2 (by omega)
  | keyed => exact (Shape.before_keyed hs rfl).2 (.inl (by omega))
  | choice group =>
    simp only [List.all_eq_true, decide_eq_true_eq] at h
    refine (Shape.before_choice hs rfl).2 ⟨by omega, fun hm => ?_⟩
    have := h g.tag hm
    omega

/-- Segments by rising number make a canonical message. -/
theorem UpTo.append (h : UpTo m s depth last) (h' : Segment m' s depth tag)
    (hb : s.mayFollow last tag = true) : UpTo (m ++ m') s depth tag := by
  have hlt : last < tag := by
    simp only [Shape.mayFollow, Bool.and_eq_true, decide_eq_true_eq] at hb
    exact hb.1
  refine ⟨⟨Field.allFit_iff.2 fun f hf => ?_, List.pairwise_append.2 ⟨h.canonical.order,
    h'.canonical.order, fun g hg f hf => ?_⟩⟩, Field.nestingAll_le_iff.2 fun f hf => ?_, fun f hf => ?_⟩
  · rcases List.mem_append.1 hf with hf | hf
    · exact h.canonical.of_mem hf
    · exact h'.canonical.of_mem hf
  · have hf' := (h'.canonical.of_mem hf).field?
    exact before_of_mayFollow (h'.tag_eq f hf ▸ hb) hf' (h.tag_le g hg)
  · rcases List.mem_append.1 hf with hf | hf
    · exact Field.nestingAll_le_iff.1 h.nesting f hf
    · exact Field.nestingAll_le_iff.1 h'.nesting f hf
  · rcases List.mem_append.1 hf with hf | hf
    · exact Nat.le_of_lt (Nat.lt_of_le_of_lt (h.tag_le f hf) hlt)
    · exact Nat.le_of_eq (h'.tag_eq f hf)

theorem Segment.scalar {v : Scalar} (hs : s.field? tag = some (.scalar tag v.kind)) :
    Segment (ofScalar tag v) s depth tag := by
  simp only [ofScalar]
  split
  · exact ⟨Fits.nil, Nat.zero_le _, by simp⟩
  · next hd =>
    have hf : (Field.scalar tag v).Fits (· < ·) s :=
      Field.fits_scalar.2 ⟨_, hs, rfl, by simpa [isWritten, FieldSpec.scalar] using hd⟩
    refine ⟨fits_cons.2 ⟨hf, Fits.nil, by simp⟩, ?_, by simp [Field.tag]⟩
    simp [Message.nesting, Field.nestingAll, Field.nesting]

/-- One field by itself. -/
theorem Segment.field {f : Field} (hf : f.Fits (· < ·) s) (hn : f.nesting ≤ depth) : Segment [f] s depth f.tag :=
  ⟨fits_cons.2 ⟨hf, Fits.nil, by simp⟩, Field.nestingAll_le_iff.2 (by simpa using hn), by simp⟩

/-- Fields that may stand beside each other. -/
theorem Segment.repeated {spec : FieldSpec} (hs : s.field? tag = some spec) (ho : spec.occurrence = .repeated)
    (hm : ∀ f ∈ m, f.tag = tag ∧ f.Fits (· < ·) s ∧ f.nesting ≤ depth) : Segment m s depth tag := by
  refine ⟨⟨Field.allFit_iff.2 fun f hf => (hm f hf).2.1, ?_⟩, Field.nestingAll_le_iff.2 fun f hf => (hm f hf).2.2,
    fun f hf => (hm f hf).1⟩
  rw [List.pairwise_iff_forall_sublist]
  intro g f hsub
  have hg := (hm g (hsub.subset (by simp))).1
  have hf := (hm f (hsub.subset (by simp))).1
  exact (Shape.before_repeated (hf ▸ hs) ho).2 (by omega)

theorem Segment.allBytes {bs : List Bytes} (hs : s.field? tag = some (.manyScalars tag .bytes)) :
    Segment (ofAllBytes tag bs) s depth tag := by
  refine .repeated hs rfl fun f hf => ?_
  obtain ⟨b, -, rfl⟩ := List.mem_map.1 hf
  exact ⟨rfl, Field.fits_scalar.2 ⟨_, hs, rfl, rfl⟩, Nat.zero_le _⟩

theorem Segment.allTexts {ts : List String} (hs : s.field? tag = some (.manyScalars tag .text)) :
    Segment (ofAllTexts tag ts) s depth tag := by
  refine .repeated hs rfl fun f hf => ?_
  obtain ⟨t, -, rfl⟩ := List.mem_map.1 hf
  exact ⟨rfl, Field.fits_scalar.2 ⟨_, hs, rfl, rfl⟩, Nat.zero_le _⟩

/-! Maps of byte strings. -/

/-- The entries of a map of byte strings. -/
def ofBytesMap (tag : Nat) (es : List (String × Bytes)) : Message :=
  ofEntries tag (es.map fun (k, v) => (k, ofBytes 2 v))

theorem eq_empty_of_isDefault {t : String} (h : (Scalar.text t).isDefault = true) : t = "" := by
  have hr := Utf8.decode?_encode t
  simp only [Scalar.isDefault, Scalar.varint?, Scalar.content, List.isEmpty_iff] at h
  rw [h] at hr
  exact (Option.some.inj hr).symm

theorem key_entry (tag : Nat) (k : String) (b : Bytes) :
    (Field.message tag (ofText 1 k ++ ofBytes 2 b)).key = k := by
  by_cases hk : (Scalar.text k).isDefault = true
  · have he := eq_empty_of_isDefault hk
    subst he
    simp only [ofText, ofScalar, if_pos hk, List.nil_append, ofBytes]
    split <;> rfl
  · simp only [ofText, ofScalar, hk]
    rfl

theorem Segment.bytesMap {es : List (String × Bytes)} (hs : s.field? tag = some (.scalarMap tag .bytes))
    (he : es.Pairwise fun a b => a.1 < b.1) : Segment (ofBytesMap tag es) s (depth + 1) tag := by
  have hmem : ∀ f ∈ ofBytesMap tag es, ∃ k b, f = .message tag (ofText 1 k ++ ofBytes 2 b) := by
    intro f hf
    simp only [ofBytesMap, ofEntries, List.map_map, List.mem_map] at hf
    obtain ⟨⟨k, b⟩, -, rfl⟩ := hf
    exact ⟨k, b, rfl⟩
  have hin : ∀ k b, UpTo (ofText 1 k ++ ofBytes 2 b) (.scalarEntry .bytes) 0 2 := fun k b =>
    (Segment.scalar rfl).upTo.append (.scalar rfl) rfl
  refine ⟨⟨Field.allFit_iff.2 fun f hf => ?_, ?_⟩, Field.nestingAll_le_iff.2 fun f hf => ?_, fun f hf => ?_⟩
  · obtain ⟨k, b, rfl⟩ := hmem f hf
    refine Field.fits_message.2 ⟨_, _, hs, rfl, (hin k b).canonical, fun _ h => ?_⟩
    simp only [ofText, ofBytes, ofScalar, List.mem_append] at h
    rcases h with h | h <;> split at h <;> simp at h
  · simp only [ofBytesMap, ofEntries, List.map_map, List.pairwise_map]
    refine he.imp fun {a b} hlt => ?_
    have hk : (Field.message tag (ofText 1 a.1 ++ ofBytes 2 a.2)).key <
        (Field.message tag (ofText 1 b.1 ++ ofBytes 2 b.2)).key := by
      simpa only [key_entry] using hlt
    exact (Shape.before_keyed (f := .message tag (ofText 1 b.1 ++ ofBytes 2 b.2)) hs rfl).2 (.inr ⟨rfl, hk⟩)
  · obtain ⟨k, b, rfl⟩ := hmem f hf
    have := (hin k b).nesting
    simp only [Field.nesting, Message.nesting] at this ⊢
    omega
  · obtain ⟨k, b, rfl⟩ := hmem f hf
    rfl

/-! Structures inside. -/

variable {α : Type} [Typed α]

theorem fits_of_faithful {x : α} {spec : FieldSpec} (hx : Faithful depth x) (hs : s.field? tag = some spec)
    (hc : spec.content = .message (.type (Typed.type α))) (ho : spec.occurrence ≠ .keyed) :
    (Field.message tag (Typed.toMessage x)).Fits (· < ·) s ∧
      (Field.message tag (Typed.toMessage x)).nesting ≤ depth + 1 := by
  refine ⟨Field.fits_message.2 ⟨_, _, hs, hc, hx.canonical, fun h => absurd h ho⟩, ?_⟩
  have := hx.nesting
  simp only [Field.nesting, Message.nesting] at this ⊢
  omega

theorem Segment.child {x : Option α} (hs : s.field? tag = some (.optional tag (Typed.type α)))
    (hx : ∀ y, x = some y → Faithful depth y) : Segment (ofTyped? tag x) s (depth + 1) tag := by
  cases x with
  | none => exact ⟨Fits.nil, Nat.zero_le _, by simp [ofTyped?, ofChild?]⟩
  | some y =>
    obtain ⟨hf, hn⟩ := fits_of_faithful (hx y rfl) hs rfl nofun
    have hy : ofTyped? tag (some y) = [.message tag (Typed.toMessage y)] := rfl
    rw [hy]
    refine ⟨fits_cons.2 ⟨hf, Fits.nil, by simp⟩, Field.nestingAll_le_iff.2 ?_, by simp [Field.tag]⟩
    simpa using hn

theorem Segment.children {xs : List α} (hs : s.field? tag = some (.many tag (Typed.type α)))
    (hx : ∀ y ∈ xs, Faithful depth y) : Segment (ofAllTyped tag xs) s (depth + 1) tag := by
  refine .repeated hs rfl fun f hf => ?_
  simp only [ofAllTyped, ofChildren, List.map_map, List.mem_map, Function.comp_apply] at hf
  obtain ⟨y, hy, rfl⟩ := hf
  obtain ⟨hfit, hn⟩ := fits_of_faithful (hx y hy) hs rfl nofun
  exact ⟨rfl, hfit, hn⟩

end Message

/-! ## Accessors -/

namespace Field

def int32? : Field → Option Int32
  | .scalar _ (.int32 n) => some n
  | _ => none

def int64? : Field → Option Int64
  | .scalar _ (.int64 n) => some n
  | _ => none

def uint32? : Field → Option UInt32
  | .scalar _ (.uint32 n) => some n
  | _ => none

def uint64? : Field → Option UInt64
  | .scalar _ (.uint64 n) => some n
  | _ => none

def bool? : Field → Option Bool
  | .scalar _ (.bool b) => some b
  | _ => none

def text? : Field → Option String
  | .scalar _ (.text s) => some s
  | _ => none

def bytes? : Field → Option Bytes
  | .scalar _ (.bytes b) => some b
  | _ => none

def fields? : Field → Option Message
  | .message _ fs => some fs
  | .scalar .. => none

end Field

namespace Message

variable (m m' : Message) (t tag : Nat)

/-! Every accessor is a reading of the first field with the number. -/

@[simp] theorem int32_eq : m.int32 tag = ((m.find? tag).bind Field.int32?).getD 0 := by
  simp only [int32]
  rcases m.find? tag with _ | (⟨_, _ | _⟩ | _) <;> rfl

@[simp] theorem int64_eq : m.int64 tag = ((m.find? tag).bind Field.int64?).getD 0 := by
  simp only [int64]
  rcases m.find? tag with _ | (⟨_, _ | _⟩ | _) <;> rfl

@[simp] theorem uint32_eq : m.uint32 tag = ((m.find? tag).bind Field.uint32?).getD 0 := by
  simp only [uint32]
  rcases m.find? tag with _ | (⟨_, _ | _⟩ | _) <;> rfl

@[simp] theorem uint64_eq : m.uint64 tag = ((m.find? tag).bind Field.uint64?).getD 0 := by
  simp only [uint64]
  rcases m.find? tag with _ | (⟨_, _ | _⟩ | _) <;> rfl

@[simp] theorem bool_eq : m.bool tag = ((m.find? tag).bind Field.bool?).getD false := by
  simp only [bool]
  rcases m.find? tag with _ | (⟨_, _ | _⟩ | _) <;> rfl

@[simp] theorem text_eq : m.text tag = ((m.find? tag).bind Field.text?).getD "" := by
  simp only [text]
  rcases m.find? tag with _ | (⟨_, _ | _⟩ | _) <;> rfl

@[simp] theorem bytes_eq : m.bytes tag = ((m.find? tag).bind Field.bytes?).getD [] := by
  simp only [bytes]
  rcases m.find? tag with _ | (⟨_, _ | _⟩ | _) <;> rfl

@[simp] theorem child?_eq : m.child? tag = (m.find? tag).bind Field.fields? := by
  simp only [child?]
  rcases m.find? tag with _ | (_ | _) <;> rfl

/-! It is found in its segment. -/

@[simp] theorem find?_append : find? (m ++ m') tag = (m.find? tag).or (m'.find? tag) := List.find?_append

variable {m t tag}

theorem find?_eq_none (hm : ∀ f ∈ m, f.tag = t) (h : t ≠ tag) : m.find? tag = none := by
  rw [find?, List.find?_eq_none]
  intro f hf
  simpa [hm f hf] using h

@[simp] theorem find?_ofScalar_of_ne (h : t ≠ tag) (v : Scalar) : find? (ofScalar t v) tag = none := by
  refine find?_eq_none (fun f hf => ?_) h
  simp only [ofScalar] at hf
  split at hf
  · simp at hf
  · simp [List.mem_singleton.1 hf, Field.tag]

@[simp] theorem find?_ofChild?_of_ne (h : t ≠ tag) (x : Option Message) : find? (ofChild? t x) tag = none := by
  refine find?_eq_none (fun f hf => ?_) h
  obtain ⟨y, -, rfl⟩ := List.mem_map.1 hf
  rfl

@[simp] theorem find?_ofChildren_of_ne (h : t ≠ tag) (ms : List Message) : find? (ofChildren t ms) tag = none := by
  refine find?_eq_none (fun f hf => ?_) h
  obtain ⟨y, -, rfl⟩ := List.mem_map.1 hf
  rfl

@[simp] theorem find?_ofAllBytes_of_ne (h : t ≠ tag) (bs : List Bytes) : find? (ofAllBytes t bs) tag = none := by
  refine find?_eq_none (fun f hf => ?_) h
  obtain ⟨y, -, rfl⟩ := List.mem_map.1 hf
  rfl

@[simp] theorem find?_ofEntries_of_ne (h : t ≠ tag) (es : List (String × Message)) :
    find? (ofEntries t es) tag = none := by
  refine find?_eq_none (fun f hf => ?_) h
  obtain ⟨y, -, rfl⟩ := List.mem_map.1 hf
  rfl

@[simp] theorem find?_ofBytesMap_of_ne (h : t ≠ tag) (es : List (String × Bytes)) :
    find? (ofBytesMap t es) tag = none := find?_ofEntries_of_ne h _

variable (tag)

/-- A scalar that is left out is the default of its accessor. -/
theorem find?_ofScalar {β : Type} {read : Field → Option β} {d x : β} {v : Scalar}
    (hr : read (.scalar tag v) = some x) (hd : v.isDefault = true → x = d) :
    ((find? (ofScalar tag v) tag).bind read).getD d = x := by
  simp only [ofScalar, find?]
  split
  · next h => exact (hd h).symm
  · simp [Field.tag, hr]

@[simp] theorem int32_self (n : Int32) : ((find? (ofScalar tag (.int32 n)) tag).bind Field.int32?).getD 0 = n := by
  refine find?_ofScalar tag rfl fun h => ?_
  have hr := ScalarKind.read_toRecord (v := .int32 n) rfl tag
  simp only [Scalar.isDefault, Scalar.varint?, beq_iff_eq] at h
  simpa [Scalar.toRecord, Scalar.varint?, Scalar.kind, ScalarKind.read, h, eq_comm] using hr

@[simp] theorem int64_self (n : Int64) : ((find? (ofScalar tag (.int64 n)) tag).bind Field.int64?).getD 0 = n := by
  refine find?_ofScalar tag rfl fun h => ?_
  have hr := ScalarKind.read_toRecord (v := .int64 n) rfl tag
  simp only [Scalar.isDefault, Scalar.varint?, beq_iff_eq] at h
  simpa [Scalar.toRecord, Scalar.varint?, Scalar.kind, ScalarKind.read, h, eq_comm] using hr

@[simp] theorem uint32_self (n : UInt32) :
    ((find? (ofScalar tag (.uint32 n)) tag).bind Field.uint32?).getD 0 = n := by
  refine find?_ofScalar tag rfl fun h => ?_
  have hr := ScalarKind.read_toRecord (v := .uint32 n) rfl tag
  simp only [Scalar.isDefault, Scalar.varint?, beq_iff_eq] at h
  simpa [Scalar.toRecord, Scalar.varint?, Scalar.kind, ScalarKind.read, h, eq_comm] using hr

@[simp] theorem uint64_self (n : UInt64) :
    ((find? (ofScalar tag (.uint64 n)) tag).bind Field.uint64?).getD 0 = n :=
  find?_ofScalar tag rfl fun h => by simpa [Scalar.isDefault, Scalar.varint?] using h

@[simp] theorem bool_self (b : Bool) : ((find? (ofScalar tag (.bool b)) tag).bind Field.bool?).getD false = b :=
  find?_ofScalar tag rfl fun h => by cases b <;> simp_all [Scalar.isDefault, Scalar.varint?]

@[simp] theorem text_self (t : String) : ((find? (ofScalar tag (.text t)) tag).bind Field.text?).getD "" = t :=
  find?_ofScalar tag rfl eq_empty_of_isDefault

@[simp] theorem bytes_self (b : Bytes) : ((find? (ofScalar tag (.bytes b)) tag).bind Field.bytes?).getD [] = b :=
  find?_ofScalar tag rfl fun h => by simpa [Scalar.isDefault, Scalar.varint?, Scalar.content] using h

@[simp] theorem child?_self (x : Option Message) : (find? (ofChild? tag x) tag).bind Field.fields? = x := by
  cases x with
  | none => rfl
  | some fs => simp [ofChild?, find?, Field.tag, Field.fields?]

/-! Accessors of all fields with a number take the segments one by one. -/

variable (m) {tag}

@[simp] theorem children_append : children (m ++ m') tag = m.children tag ++ m'.children tag :=
  List.filterMap_append

@[simp] theorem allBytes_append : allBytes (m ++ m') tag = m.allBytes tag ++ m'.allBytes tag :=
  List.filterMap_append

/-- An accessor that finds something in each field of a segment finds it field by field. -/
theorem filterMap_map_eq_map {β γ δ : Type} {f : γ → Option δ} {g : β → γ} {k : β → δ}
    (h : ∀ x, f (g x) = some (k x)) (l : List β) : (l.map g).filterMap f = l.map k := by
  rw [List.filterMap_map, show f ∘ g = some ∘ k from funext h, List.filterMap_eq_map]

theorem filterMap_map_eq_nil {β γ δ : Type} {f : γ → Option δ} {g : β → γ} (h : ∀ x, f (g x) = none) (l : List β) :
    (l.map g).filterMap f = [] := by
  rw [List.filterMap_eq_nil_iff]
  intro y hy
  obtain ⟨x, -, rfl⟩ := List.mem_map.1 hy
  exact h x

@[simp] theorem children_ofScalar (v : Scalar) : children (ofScalar t v) tag = [] := by
  simp only [ofScalar, children]
  split <;> rfl

@[simp] theorem children_ofChild?_of_ne (h : t ≠ tag) (x : Option Message) : children (ofChild? t x) tag = [] := by
  cases x with
  | none => rfl
  | some m => simp [ofChild?, children, h]

@[simp] theorem children_ofChildren (ms : List Message) : children (ofChildren tag ms) tag = ms := by
  refine (filterMap_map_eq_map ?_ ms).trans ms.map_id
  exact fun _ => if_pos rfl

@[simp] theorem children_ofChildren_of_ne (h : t ≠ tag) (ms : List Message) : children (ofChildren t ms) tag = [] := by
  refine filterMap_map_eq_nil ?_ ms
  exact fun _ => if_neg h

@[simp] theorem children_ofAllBytes (bs : List Bytes) : children (ofAllBytes t bs) tag = [] := by
  refine filterMap_map_eq_nil ?_ bs
  exact fun _ => rfl

@[simp] theorem allBytes_ofAllBytes (bs : List Bytes) : allBytes (ofAllBytes tag bs) tag = bs := by
  refine (filterMap_map_eq_map ?_ bs).trans bs.map_id
  exact fun _ => if_pos rfl

@[simp] theorem allBytes_ofScalar_of_ne (h : t ≠ tag) (v : Scalar) : allBytes (ofScalar t v) tag = [] := by
  simp only [ofScalar, allBytes]
  split
  · rfl
  · cases v <;> simp [h]

@[simp] theorem allBytes_ofChildren (ms : List Message) : allBytes (ofChildren t ms) tag = [] := by
  refine filterMap_map_eq_nil ?_ ms
  exact fun _ => rfl

@[simp] theorem allBytes_ofBytesMap (es : List (String × Bytes)) : allBytes (ofBytesMap t es) tag = [] := by
  refine filterMap_map_eq_nil ?_ _
  exact fun _ => rfl

@[simp] theorem children_ofBytesMap (es : List (String × Bytes)) :
    children (ofBytesMap tag es) tag = es.map fun (k, b) => ofText 1 k ++ ofBytes 2 b := by
  rw [children, ofBytesMap, ofEntries, List.map_map]
  refine filterMap_map_eq_map ?_ es
  exact fun _ => if_pos rfl

/-! A structure inside another one. -/

variable {α : Type} [Typed α] {depth : Nat}

theorem typed_self {x : Option α} (hx : ∀ y, x = some y → Faithful depth y) :
    (x.map Typed.toMessage).map Typed.ofMessage = x := by
  cases x with
  | none => rfl
  | some y => simp [(hx y rfl).ofMessage_toMessage]

theorem allTyped_self {xs : List α} (hx : ∀ y ∈ xs, Faithful depth y) :
    (xs.map Typed.toMessage).map Typed.ofMessage = xs := by
  induction xs with
  | nil => rfl
  | cons y xs ih =>
    simp only [List.map_cons, (hx y (by simp)).ofMessage_toMessage, ih fun z hz => hx z (by simp [hz])]

attribute [simp] ofInt32 ofInt64 ofUInt32 ofUInt64 ofBool ofText ofBytes ofTyped? ofAllTyped typed? allTyped

end Message

/-! ## Encoding and decoding -/

variable {α : Type} [Typed α] {depth : Nat} {x : α}

/-- A structure is faithful if it is read back from the segments that it writes. -/
theorem Message.UpTo.faithful {last : Nat} {m : Message} (h : m.UpTo (.type (Typed.type α)) depth last)
    (hm : Typed.toMessage x = m) (hr : Typed.ofMessage m = x) : Faithful depth x :=
  ⟨hm ▸ h.canonical, hm ▸ h.nesting, hm ▸ hr⟩

theorem Faithful.mono {depth' : Nat} (h : Faithful depth x) (hd : depth ≤ depth') : Faithful depth' x :=
  ⟨h.canonical, Nat.le_trans h.nesting hd, h.ofMessage_toMessage⟩

/-- A faithful structure is read back from its encoding, if it is nested no deeper than a reader goes. -/
theorem Faithful.decode?_encode_of_nesting (h : Faithful depth x)
    (hn : (Typed.toMessage x).nesting ≤ Message.nestingLimit) (hs : size x < 2 ^ 64) :
    decode? α (encode x) = some x := by
  have hm : (Typed.toMessage x).IsValue (Typed.type α) := ⟨h.canonical, hn, hs⟩
  rw [decode?, encode, hm.decode?_encode (.refl _), Option.map_some, h.ofMessage_toMessage]

theorem Faithful.decode?_encode (h : Faithful depth x) (hd : depth ≤ Message.nestingLimit)
    (hs : size x < 2 ^ 64) : decode? α (encode x) = some x :=
  h.decode?_encode_of_nesting (Nat.le_trans h.nesting hd) hs

theorem length_encode : (encode x).length = size x := Message.length_encode _

/-! What is inside a structure is no longer than its encoding. -/

theorem Message.length_bytes_le (m : Message) (tag : Nat) : (m.bytes tag).length ≤ m.size := by
  simp only [bytes]
  split
  · next t b h =>
    have := Field.size_le_sizeAll (List.mem_of_find?_eq_some h)
    simp only [Field.size, Scalar.size, Scalar.varint?, Scalar.content, chunkSize, Message.size] at this ⊢
    omega
  · exact Nat.zero_le _

theorem Message.size_le_of_mem {m fs : Message} {tag : Nat} (h : .message tag fs ∈ m) : fs.size ≤ m.size :=
  Nat.le_trans (Nat.le_of_lt (Field.sizeAll_lt_size tag fs)) (Field.size_le_sizeAll h)

theorem Message.length_le_of_mem_allBytes {m : Message} {tag : Nat} {b : Bytes} (h : b ∈ m.allBytes tag) :
    b.length ≤ m.size := by
  obtain ⟨f, hf, hb⟩ := List.mem_filterMap.1 h
  have hsize := Field.size_le_sizeAll hf
  split at hb
  next t b' =>
    split at hb
    next =>
      cases hb
      simp only [Field.size, Scalar.size, Scalar.varint?, Scalar.content, chunkSize] at hsize
      rw [Message.size]
      omega
    next => cases hb
  next => cases hb

theorem chunkSize_le (tag length : Nat) : chunkSize tag length ≤ length + 20 := by
  have hl := Varint.size_le_ten length.toUInt64
  have hk : keySize tag 2 ≤ 10 := Varint.size_le_ten _
  simp only [chunkSize]
  omega

/-- A scalar takes at most twenty bytes besides those of its content. -/
theorem Message.size_ofScalar_le (tag : Nat) (v : Scalar) : size (ofScalar tag v) ≤ v.content.length + 20 := by
  simp only [ofScalar]
  split
  · exact Nat.zero_le _
  · simp only [size, Field.sizeAll, Field.size, Scalar.size]
    split
    next n hn =>
      have hn := Varint.size_le_ten n
      have hk : keySize tag 0 ≤ 10 := Varint.size_le_ten _
      omega
    next => exact chunkSize_le tag _

theorem Message.size_ofBytes_le (tag : Nat) (b : Bytes) : size (ofBytes tag b) ≤ b.length + 20 :=
  size_ofScalar_le tag (.bytes b)

theorem Message.size_ofTyped?_some_le (tag : Nat) (x : α) : size (ofTyped? tag (some x)) ≤ Wire.size x + 20 :=
  chunkSize_le tag _

theorem Message.size_append : ∀ m m' : Message, size (m ++ m') = m.size + m'.size
  | [], m' => by simp [size, Field.sizeAll]
  | f :: m, m' => by
    have ih := Message.size_append m m'
    simp only [size, List.cons_append, Field.sizeAll] at ih ⊢
    omega

theorem Message.encode_append : ∀ m m' : Message, encode (m ++ m') = m.encode ++ m'.encode
  | [], m' => by simp [encode, Field.writeAll]
  | f :: m, m' => by
    have ih := Message.encode_append m m'
    simp only [encode, List.cons_append, Field.writeAll, List.append_assoc] at ih ⊢
    rw [ih]

theorem Message.size_ofAllTyped_concat_le (tag : Nat) (xs : List α) (x : α) :
    size (ofAllTyped tag (xs ++ [x])) ≤ size (ofAllTyped tag xs) + Wire.size x + 20 := by
  have hx : size (ofAllTyped tag [x]) ≤ Wire.size x + 20 := chunkSize_le tag _
  have hsplit : ofAllTyped tag (xs ++ [x]) = ofAllTyped tag xs ++ ofAllTyped tag [x] := by
    simp only [ofAllTyped, ofChildren, List.map_append]
  rw [hsplit, size_append]
  omega

variable {β : Type} [Typed β] {y : β}

theorem size_le_of_bytes (tag : Nat) (h : (Typed.toMessage x).bytes tag = encode y) : size y ≤ size x := by
  have := Message.length_bytes_le (Typed.toMessage x) tag
  rwa [h, length_encode] at this

theorem size_le_of_mem (tag : Nat) (h : .message tag (Typed.toMessage y) ∈ Typed.toMessage x) : size y ≤ size x :=
  Message.size_le_of_mem h

/-- A faithful structure that stands encoded inside another is read back. -/
theorem Faithful.decode?_inside (hy : Faithful depth y) (hd : depth ≤ Message.nestingLimit) (x : α) (tag : Nat)
    (h : (Typed.toMessage x).bytes tag = encode y) (hs : size x < 2 ^ 64) :
    decode? β (encode y) = some y ∧ size y < 2 ^ 64 := by
  have hsize : size y < 2 ^ 64 := Nat.lt_of_le_of_lt (size_le_of_bytes tag h) hs
  exact ⟨hy.decode?_encode hd hsize, hsize⟩

end LedgerClient.Wire
