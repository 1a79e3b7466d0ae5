/-
The values of a message type.

Not every list of fields is one. Its fields have to be declared, hold what
their declaration says and stand by rising number; a scalar that is written
only when it is not zero, false or empty is not; a group of alternatives has at
most one member; the keys of a map are distinct. A value is `Canonical` when
the entries of its maps, at every depth, stand by rising key: so a canonical
value stands for all the orders in which its maps may be written, and
`Rearranged` says what those are.
-/
import LedgerClient.Wire.Decode
import Mathlib.Algebra.Group.Nat.Defs

namespace LedgerClient.Wire

def Scalar.kind : Scalar → ScalarKind
  | int32 _ => .int32
  | int64 _ => .int64
  | uint32 _ => .uint32
  | uint64 _ => .uint64
  | bool _ => .bool
  | text _ => .text
  | bytes _ => .bytes

/-- Whether `g` may stand anywhere before `f` in a message of shape `s`. Two entries of one map may
when `r` holds of their keys. -/
def Shape.Before (s : Shape) (r : String → String → Prop) (g f : Field) : Prop :=
  match s.field? f.tag with
  | none => False
  | some spec =>
    match spec.occurrence with
    | .single => g.tag < f.tag
    | .repeated => g.tag ≤ f.tag
    | .keyed => g.tag < f.tag ∨ g.tag = f.tag ∧ r g.key f.key
    | .choice group => g.tag < f.tag ∧ g.tag ∉ group

mutual
/-- What a field of a message of shape `s` may hold. -/
def Field.Fits (r : String → String → Prop) (s : Shape) : Field → Prop
  | .scalar tag v =>
    match s.field? tag with
    | some ⟨_, occurrence, .scalar kind⟩ =>
      v.kind = kind ∧ Message.isWritten occurrence (.scalar tag v) = true
    | _ => False
  | .message tag fs =>
    match s.field? tag with
    | some ⟨_, occurrence, .message inner⟩ =>
      Field.AllFit r inner fs ∧ fs.Pairwise (inner.Before r) ∧
        (occurrence = .keyed → .message 2 [] ∉ fs)
    | _ => False

def Field.AllFit (r : String → String → Prop) (s : Shape) : List Field → Prop
  | [] => True
  | f :: fs => f.Fits r s ∧ Field.AllFit r s fs
end

namespace Message

/-- A message of shape `s`, the keys of each map in it related by `r` from front to back. -/
structure Fits (r : String → String → Prop) (s : Shape) (m : Message) : Prop where
  fields : Field.AllFit r s m
  order : m.Pairwise (s.Before r)

/-- The entries of each map have distinct keys and stand in any order. -/
abbrev Valid (s : Shape) (m : Message) : Prop := m.Fits (· ≠ ·) s

/-- The entries of each map stand by rising key. -/
abbrev Canonical (s : Shape) (m : Message) : Prop := m.Fits (· < ·) s

/-- `m'` is `m` with the entries of maps, at any depth, in another order. -/
inductive Rearranged : Shape → Message → Message → Prop where
  | refl {s} (m) : Rearranged s m m
  | cons {s m m'} (f) : Rearranged s m m' → Rearranged s (f :: m) (f :: m')
  | inside {s tag spec inner fs fs'} (m) : s.field? tag = some spec → spec.content = .message inner →
      Rearranged inner fs fs' → Rearranged s (.message tag fs :: m) (.message tag fs' :: m)
  | swap {s spec f g} (m) : s.field? f.tag = some spec → spec.occurrence = .keyed → f.tag = g.tag →
      Rearranged s (f :: g :: m) (g :: f :: m)
  | trans {s m₁ m₂ m₃} : Rearranged s m₁ m₂ → Rearranged s m₂ m₃ → Rearranged s m₁ m₃

namespace Rearranged

variable {s : Shape} {spec : FieldSpec} {tag : Nat} {m m' : Message}

theorem append_left (h : Rearranged s m m') : ∀ front : Message, Rearranged s (front ++ m) (front ++ m')
  | [] => h
  | f :: front => .cons f (h.append_left front)

/-- The entries of one map in whatever order. -/
theorem of_perm (hs : s.field? tag = some spec) (ho : spec.occurrence = .keyed) (h : List.Perm m m')
    (ht : ∀ f ∈ m, f.tag = tag) : Rearranged s m m' := by
  induction h with
  | nil => exact .refl []
  | cons f _ ih => exact .cons f (ih fun g hg => ht g (List.mem_cons_of_mem f hg))
  | swap f g m =>
    have hg : g.tag = tag := ht g (by simp)
    have hf : f.tag = tag := ht f (by simp)
    exact .swap m (hg.symm ▸ hs) ho (hg.trans hf.symm)
  | trans h _ ih ih' => exact .trans (ih ht) (ih' fun f hf => ht f (h.mem_iff.2 hf))

end Rearranged

end Message

mutual
/-- How many messages are nested in a field. -/
def Field.nesting : Field → Nat
  | .scalar .. => 0
  | .message _ fs => 1 + Field.nestingAll fs

def Field.nestingAll : List Field → Nat
  | [] => 0
  | f :: fs => max f.nesting (Field.nestingAll fs)
end

def Message.nesting (m : Message) : Nat := Field.nestingAll m

/-- A value of a message type that a reader accepts: the nesting is within its limit, and the length
of the encoding is a number of 64 bits. -/
structure Message.IsValue (t : MessageType) (m : Message) : Prop where
  canonical : m.Canonical (.type t)
  nesting : m.nesting ≤ Message.nestingLimit
  size : m.size < 2 ^ 64

/-! ## The schema -/

/-- What the declarations of a shape have in common: numbers that fit a key, maps of entries, and
alternatives that know each other. -/
def Shape.isSound (s : Shape) : Bool :=
  s.fields.all fun f => 0 < f.tag && f.tag < 2 ^ 29 &&
    match f.occurrence with
    | .single | .repeated => true
    | .keyed =>
      match f.content with
      | .message (.scalarEntry _) | .message (.messageEntry _) => true
      | _ => false
    | .choice group =>
      group.contains f.tag &&
        s.fields.all fun g => !group.contains g.tag || g.occurrence == .choice group

theorem Shape.isSound_eq_true (s : Shape) : s.isSound = true := by
  cases s with
  | type t => cases t <;> rfl
  | scalarEntry k => cases k <;> rfl
  | messageEntry t => rfl

namespace Shape

variable {s : Shape} {tag : Nat} {spec : FieldSpec}

theorem tag_of_field? (h : s.field? tag = some spec) : spec.tag = tag := by
  simpa using List.find?_some h

theorem mem_of_field? (h : s.field? tag = some spec) : spec ∈ s.fields := List.mem_of_find?_eq_some h

theorem tag_pos_of_field? (h : s.field? tag = some spec) : 0 < tag ∧ tag < 2 ^ 29 := by
  have hs := s.isSound_eq_true
  simp only [isSound, List.all_eq_true, Bool.and_eq_true, decide_eq_true_eq] at hs
  have := hs spec (mem_of_field? h)
  rw [tag_of_field? h] at this
  exact this.1

theorem isKeyed_of_field? (h : s.field? tag = some spec) : s.isKeyed tag = (spec.occurrence == .keyed) := by
  simp only [isKeyed, h]

/-- A shape with a key and a value. -/
def IsEntry : Shape → Prop
  | type _ => False
  | scalarEntry _ | messageEntry _ => True

theorem content_of_keyed (h : s.field? tag = some spec) (ho : spec.occurrence = .keyed) :
    ∃ inner, spec.content = .message inner ∧ inner.IsEntry := by
  have hs := s.isSound_eq_true
  simp only [isSound, List.all_eq_true, Bool.and_eq_true, decide_eq_true_eq] at hs
  have hk := (hs spec (mem_of_field? h)).2
  rw [ho] at hk
  match hc : spec.content with
  | .scalar _ => simp [hc] at hk
  | .message (.type _) => simp [hc] at hk
  | .message (.scalarEntry k) => exact ⟨_, rfl, trivial⟩
  | .message (.messageEntry t) => exact ⟨_, rfl, trivial⟩

/-- No map has scalars for entries. -/
theorem isKeyed_of_scalar {k : ScalarKind} (h : s.field? tag = some spec) (hc : spec.content = .scalar k) :
    s.isKeyed tag = false := by
  rw [isKeyed_of_field? h, beq_eq_false_iff_ne]
  intro ho
  obtain ⟨inner, hc', -⟩ := content_of_keyed h ho
  rw [hc] at hc'
  cases hc'

theorem IsEntry.single (hs : s.IsEntry) (h : s.field? tag = some spec) : spec.occurrence = .single := by
  have hm := mem_of_field? h
  cases s with
  | type _ => exact hs.elim
  | scalarEntry k | messageEntry t =>
    simp only [fields, FieldSpec.scalar, FieldSpec.optional, List.mem_cons, List.not_mem_nil, or_false] at hm
    rcases hm with rfl | rfl <;> rfl

/-- An entry holds no map itself. -/
theorem IsEntry.isKeyed_eq (hs : s.IsEntry) (tag : Nat) : s.isKeyed tag = false := by
  rw [isKeyed]
  split
  next spec h => rw [hs.single h]; rfl
  next => rfl

theorem mem_of_choice {group : List Nat} (h : s.field? tag = some spec)
    (ho : spec.occurrence = .choice group) : tag ∈ group := by
  have hs := s.isSound_eq_true
  simp only [isSound, List.all_eq_true, Bool.and_eq_true, decide_eq_true_eq] at hs
  have hk := (hs spec (mem_of_field? h)).2
  simp only [ho, Bool.and_eq_true, List.contains_eq_mem, decide_eq_true_eq, tag_of_field? h] at hk
  exact hk.1

theorem choice_of_mem {group : List Nat} (h : s.field? tag = some spec)
    (ho : spec.occurrence = .choice group) {tag' : Nat} {spec' : FieldSpec}
    (h' : s.field? tag' = some spec') (hm : tag' ∈ group) : spec'.occurrence = .choice group := by
  have hs := s.isSound_eq_true
  simp only [isSound, List.all_eq_true, Bool.and_eq_true, decide_eq_true_eq] at hs
  have hk := (hs spec (mem_of_field? h)).2
  simp only [ho, Bool.and_eq_true, List.all_eq_true, List.contains_eq_mem, Bool.or_eq_true,
    Bool.not_eq_true', decide_eq_false_iff_not, beq_iff_eq] at hk
  have := hk.2 spec' (mem_of_field? h')
  rw [tag_of_field? h'] at this
  exact this.resolve_left fun hn => hn hm

/-! ## What may stand before a field -/

variable {r : String → String → Prop} {f g : Field}

theorem before_single (h : s.field? f.tag = some spec) (ho : spec.occurrence = .single) :
    s.Before r g f ↔ g.tag < f.tag := by simp only [Before, h, ho]

theorem before_repeated (h : s.field? f.tag = some spec) (ho : spec.occurrence = .repeated) :
    s.Before r g f ↔ g.tag ≤ f.tag := by simp only [Before, h, ho]

theorem before_keyed (h : s.field? f.tag = some spec) (ho : spec.occurrence = .keyed) :
    s.Before r g f ↔ g.tag < f.tag ∨ g.tag = f.tag ∧ r g.key f.key := by simp only [Before, h, ho]

theorem before_choice {group : List Nat} (h : s.field? f.tag = some spec)
    (ho : spec.occurrence = .choice group) : s.Before r g f ↔ g.tag < f.tag ∧ g.tag ∉ group := by
  simp only [Before, h, ho]

/-- Only the numbers of two fields matter, and of map entries the keys. -/
theorem Before.congr {f' g' : Field} (h : s.Before r g f) (hf : f.tag = f'.tag) (hg : g.tag = g'.tag)
    (hfk : s.isKeyed f.tag = true → f.key = f'.key) (hgk : s.isKeyed g.tag = true → g.key = g'.key) :
    s.Before r g' f' := by
  simp only [Before, ← hf, ← hg] at h ⊢
  split at h
  · exact h
  next spec hs =>
  split at h
  · exact h
  · exact h
  · next ho =>
    refine h.imp_right fun ⟨ht, hr⟩ => ⟨ht, ?_⟩
    have hk : s.isKeyed f.tag = true := by simp [isKeyed_of_field? hs, ho]
    rwa [← hfk hk, ← hgk (ht ▸ hk)]
  · exact h

theorem Before.mono {r' : String → String → Prop} (hr : ∀ {k l}, r k l → r' k l) (h : s.Before r g f) :
    s.Before r' g f := by
  simp only [Before] at h ⊢
  split at h
  · exact h
  · split at h
    · exact h
    · exact h
    · exact h.imp_right fun ⟨ht, hk⟩ => ⟨ht, hr hk⟩
    · exact h

theorem Before.tag_le (h : s.Before r g f) : g.tag ≤ f.tag := by
  simp only [Before] at h
  split at h
  · exact h.elim
  · split at h <;> omega

end Shape

/-! ## Fields that fit -/

namespace Field

variable {r : String → String → Prop} {s : Shape} {tag : Nat}

theorem fits_scalar {v : Scalar} : (Field.scalar tag v).Fits r s ↔
    ∃ spec, s.field? tag = some spec ∧ spec.content = .scalar v.kind ∧
      Message.isWritten spec.occurrence (.scalar tag v) = true := by
  simp only [Fits]
  constructor
  · intro h
    split at h
    · next hs => exact ⟨_, hs, by rw [h.1], h.2⟩
    · exact h.elim
  · rintro ⟨⟨t, o, c⟩, hs, hc, hw⟩
    simp only at hc hw
    subst hc
    simp only [hs]
    exact ⟨trivial, hw⟩

theorem fits_message {fs : List Field} : (Field.message tag fs).Fits r s ↔
    ∃ spec inner, s.field? tag = some spec ∧ spec.content = .message inner ∧
      Message.Fits r inner fs ∧ (spec.occurrence = .keyed → .message 2 [] ∉ fs) := by
  simp only [Fits]
  constructor
  · intro h
    split at h
    · next hs => exact ⟨_, _, hs, rfl, ⟨h.1, h.2.1⟩, h.2.2⟩
    · exact h.elim
  · rintro ⟨⟨t, o, c⟩, inner, hs, hc, hf, hk⟩
    simp only at hc hk
    subst hc
    simp only [hs]
    exact ⟨hf.fields, hf.order, hk⟩

theorem Fits.field? {f : Field} (h : f.Fits r s) : ∃ spec, s.field? f.tag = some spec := by
  cases f with
  | scalar tag v =>
    obtain ⟨spec, hs, -⟩ := fits_scalar.1 h
    exact ⟨spec, hs⟩
  | message tag fs =>
    obtain ⟨spec, -, hs, -⟩ := fits_message.1 h
    exact ⟨spec, hs⟩

mutual
theorem Fits.mono {r' : String → String → Prop} (hr : ∀ {k l}, r k l → r' k l) :
    (s : Shape) → (f : Field) → f.Fits r s → f.Fits r' s
  | _, .scalar _ _, h => h
  | _, .message _ fs, h => by
    obtain ⟨spec, inner, hs, hc, hfit, hne⟩ := fits_message.1 h
    have hall := AllFit.mono hr inner fs hfit.fields
    exact fits_message.2 ⟨spec, inner, hs, hc, ⟨hall, hfit.order.imp fun hb => hb.mono hr⟩, hne⟩

theorem AllFit.mono {r' : String → String → Prop} (hr : ∀ {k l}, r k l → r' k l) :
    (s : Shape) → (fs : List Field) → AllFit r s fs → AllFit r' s fs
  | _, [], _ => trivial
  | s, f :: fs, h => ⟨Fits.mono hr s f h.1, AllFit.mono hr s fs h.2⟩
end

theorem allFit_iff {fs : List Field} : AllFit r s fs ↔ ∀ f ∈ fs, f.Fits r s := by
  induction fs with
  | nil => simp [AllFit]
  | cons f fs ih => simp [AllFit, ih]

theorem nestingAll_le_iff {fs : List Field} {n : Nat} : nestingAll fs ≤ n ↔ ∀ f ∈ fs, f.nesting ≤ n := by
  induction fs with
  | nil => simp [nestingAll]
  | cons f fs ih =>
    simp only [nestingAll, Nat.max_le, ih, List.mem_cons, forall_eq_or_imp]

end Field

namespace Message

variable {r : String → String → Prop} {s : Shape}

theorem Fits.nil : Fits r s [] := ⟨trivial, .nil⟩

theorem fits_cons {f : Field} {m : Message} :
    Fits r s (f :: m) ↔ f.Fits r s ∧ Fits r s m ∧ ∀ g ∈ m, s.Before r f g := by
  constructor
  · rintro ⟨hf, ho⟩
    exact ⟨hf.1, ⟨hf.2, (List.pairwise_cons.1 ho).2⟩, (List.pairwise_cons.1 ho).1⟩
  · rintro ⟨hf, hm, hb⟩
    exact ⟨⟨hf, hm.fields⟩, List.pairwise_cons.2 ⟨hb, hm.order⟩⟩

theorem Fits.of_mem {m : Message} (h : Fits r s m) {f : Field} (hf : f ∈ m) : f.Fits r s :=
  Field.allFit_iff.1 h.fields f hf

theorem Fits.sublist {m m' : Message} (h : Fits r s m) (hs : m'.Sublist m) : Fits r s m' :=
  ⟨Field.allFit_iff.2 fun _ hf => h.of_mem (hs.subset hf), h.order.sublist hs⟩

theorem Canonical.valid {m : Message} (h : m.Canonical s) : m.Valid s :=
  have hne : ∀ {k l : String}, k < l → k ≠ l := fun hlt he => String.lt_irrefl _ (he ▸ hlt)
  ⟨Field.AllFit.mono hne s m h.fields, h.order.imp fun hb => hb.mono hne⟩

end Message

end LedgerClient.Wire
