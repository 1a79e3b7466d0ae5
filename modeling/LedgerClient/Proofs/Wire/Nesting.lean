/-
How deep a message may be nested to be read.

A reader that may go deeper reads no less (`merge_mono`). So what a reader makes
of the encoding of a message that is nested too deep for it, a reader without
such a limit makes of it as well: the message itself. But nothing that is read
within a limit is nested deeper than that (`within_merge`), so there is nothing
that it could make of it (`merge_encode_eq_none`).
-/
import LedgerClient.Proofs.Wire.Typed

namespace LedgerClient.Wire

namespace Message

variable {enter enter' : Shape → Message → Bytes → Option Message} {budget budget' : Nat} {s : Shape}

/-- Whatever the one reads, the other reads too. -/
def Extends (enter' enter : Shape → Message → Bytes → Option Message) : Prop :=
  ∀ s m bytes m', enter s m bytes = some m' → enter' s m bytes = some m'

theorem putRecord_mono (he : Extends enter' enter) (hb : budget ≤ budget') {m m' : Message} {r : Record}
    (h : putRecord enter budget s m r = some m') : putRecord enter' budget' s m r = some m' := by
  unfold putRecord at h ⊢
  split at h
  next =>
    split at h
    next hd => rwa [if_pos (Nat.le_trans hd hb)]
    next => cases h
  next spec _ =>
    split at h
    next hc => simpa only [hc] using h
    next inner tag bytes hc =>
      obtain ⟨fs, hfs, hm⟩ := Option.map_eq_some_iff.1 h
      simp only [he _ _ _ _ hfs, Option.map_some, hm]
    next => cases h

theorem putRecords_mono (he : Extends enter' enter) (hb : budget ≤ budget') {m' : Message} :
    ∀ {rs : List Record} {m : Message}, rs.foldlM (putRecord enter budget s) m = some m' →
      rs.foldlM (putRecord enter' budget' s) m = some m'
  | [], _, h => h
  | r :: rs, m, h => by
    rw [List.foldlM_cons] at h ⊢
    obtain ⟨m₁, hm₁, h⟩ := Option.bind_eq_some_iff.1 h
    rw [putRecord_mono he hb hm₁]
    exact putRecords_mono he hb h

theorem extends_merge (he : Extends (inside budget') (inside budget)) (hb : budget ≤ budget') :
    Extends (merge budget') (merge budget) := by
  intro s m bytes m' h
  rw [merge_eq, Option.bind_eq_some_iff] at h ⊢
  obtain ⟨rs, hrs, h⟩ := h
  exact ⟨rs, hrs, putRecords_mono he hb h⟩

theorem extends_merge_succ : ∀ budget : Nat, Extends (merge (budget + 1)) (merge budget)
  | 0 => extends_merge (fun _ _ _ _ h => by cases h) (Nat.le_succ 0)
  | budget + 1 => extends_merge (extends_merge_succ budget) (Nat.le_succ _)

/-- A reader that may go deeper reads no less. -/
theorem merge_mono (hb : budget ≤ budget') : Extends (merge budget') (merge budget) := by
  induction hb with
  | refl => exact fun _ _ _ _ h => h
  | step _ ih => exact fun s m bytes m' h => extends_merge_succ _ s m bytes m' (ih s m bytes m' h)

/-- A message that is nested deeper than a reader goes is not read. -/
theorem merge_encode_eq_none {m : Message} (hm : m.Canonical s) (hn : budget < m.nesting) (hs : m.size < 2 ^ 63) :
    merge budget s [] m.encode = none := by
  rw [Option.eq_none_iff_forall_not_mem]
  intro m' h
  have hread : merge m.nesting s [] m.encode = some m := by
    rw [merge_encode hm.valid (Nat.le_refl _) (by omega), Field.settleInto_of_canonical s m [] hm, List.nil_append]
  obtain rfl : m' = m := Option.some.inj ((merge_mono (Nat.le_of_lt hn) _ _ _ _ h).symm.trans hread)
  have hnil : Within s budget 0 [] := Within.nil
  have hwithin := within_merge h hnil (by rw [length_encode]; omega)
  exact absurd hwithin.nesting (by omega)

end Message

/-! ## The nesting of what is written -/

theorem Field.nestingAll_append (fs gs : List Field) :
    nestingAll (fs ++ gs) = max (nestingAll fs) (nestingAll gs) := by
  induction fs with
  | nil => exact (Nat.zero_max _).symm
  | cons f fs ih => rw [List.cons_append, nestingAll, nestingAll, ih, Nat.max_assoc]

theorem Field.nestingAll_ofScalar (tag : Nat) (v : Scalar) : nestingAll (Message.ofScalar tag v) = 0 := by
  rw [Message.ofScalar]
  split <;> rfl

theorem Field.nestingAll_singleton (f : Field) : nestingAll [f] = f.nesting := Nat.max_zero _

/-! ## Structures -/

/-- A structure is read back from its encoding if it is nested no deeper than a reader goes, and otherwise nothing
is. -/
theorem Faithful.decode?_encode_eq {α : Type} [Typed α] {x : α} {depth : Nat} (h : Faithful depth x)
    (hs : size x < 2 ^ 63) :
    decode? α (encode x) = if (Typed.toMessage x).nesting ≤ Message.nestingLimit then some x else none := by
  split
  next hn => exact h.decode?_encode_of_nesting hn (by omega)
  next hn =>
    have hnone := Message.merge_encode_eq_none h.canonical (Nat.lt_of_not_le hn) hs
    rw [decode?, encode, Message.decode?, hnone, Option.map_none]

end LedgerClient.Wire
