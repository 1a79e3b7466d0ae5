/-
Putting a field into a message.

`insert_cons` and `put_eq` say what `insert` and `put` do; the rest is derived
from them. Putting a field that fits into a canonical message gives a canonical
message (`Canonical.put`), and entries of one map with distinct keys may be put
in either order (`insert_comm`).
-/
import LedgerClient.Proofs.Wire.Value

namespace LedgerClient.Wire.Message

open insert (before)

/-! ## Inserting -/

theorem before_iff {keyed : Bool} {f g : Field} :
    before keyed f g = true ↔ g.tag < f.tag ∨ g.tag = f.tag ∧ (keyed = true → g.key ≤ f.key) := by
  cases keyed <;> simp [before]

theorem insert_cons (keyed : Bool) (f g : Field) (m : Message) :
    insert keyed f (g :: m) = if before keyed f g then g :: insert keyed f m else f :: g :: m := by
  by_cases h : before keyed f g = true
  · simp [insert, h]
  · simp [insert, h]

theorem mem_insert {keyed : Bool} {f g : Field} {m : Message} :
    g ∈ insert keyed f m ↔ g = f ∨ g ∈ m := by
  induction m with
  | nil => simp [insert]
  | cons h m ih =>
    rw [insert_cons]
    split
    · simp only [List.mem_cons, ih]
      exact or_left_comm
    · simp only [List.mem_cons]

/-- A field goes last when all others belong before it. -/
theorem insert_eq_append {keyed : Bool} {f : Field} {m : Message}
    (h : ∀ g ∈ m, before keyed f g = true) : insert keyed f m = m ++ [f] := by
  induction m with
  | nil => rfl
  | cons g m ih =>
    rw [insert_cons, if_pos (h g (by simp)), ih fun x hx => h x (by simp [hx]), List.cons_append]

/-- Two entries of one map may be inserted in either order. -/
theorem insert_comm {f g : Field} (ht : f.tag = g.tag) (hk : f.key ≠ g.key) (m : Message) :
    insert true f (insert true g m) = insert true g (insert true f m) := by
  have one : ∀ {x y : Field}, x.tag = y.tag → (before true x y = true ↔ y.key ≤ x.key) := fun h => by
    simp [before_iff, h]
  induction m with
  | nil =>
    rcases String.le_total f.key g.key with hle | hle
    · have hn : ¬ before true f g = true := fun h => hk (String.le_antisymm hle ((one ht).1 h))
      have hp : before true g f = true := (one ht.symm).2 hle
      simp [insert, hn, hp]
    · have hn : ¬ before true g f = true := fun h => hk (String.le_antisymm ((one ht.symm).1 h) hle)
      have hp : before true f g = true := (one ht).2 hle
      simp [insert, hn, hp]
  | cons x m ih =>
    by_cases hf : before true f x = true <;> by_cases hg : before true g x = true
    · rw [insert_cons, if_pos hg, insert_cons, if_pos hf, insert_cons, if_pos hf, insert_cons, if_pos hg, ih]
    · -- `g` belongs before `x`, and `x` before `f`
      have hlt : g.key ≤ f.key := by
        simp only [before_iff, ht, forall_const, not_or, not_and, String.not_le] at hf hg
        rcases hf with hf | ⟨hxt, hf⟩
        · exact absurd hf hg.1
        · exact String.le_trans (String.not_lt.1 (String.lt_asymm (hg.2 hxt))) hf
      rw [insert_cons, if_neg hg, insert_cons, if_pos ((one ht).2 hlt), insert_cons, if_pos hf, insert_cons,
        if_neg hg]
    · have hlt : f.key ≤ g.key := by
        simp only [before_iff, ht, forall_const, not_or, not_and, String.not_le] at hf hg
        rcases hg with hg | ⟨hxt, hg⟩
        · exact absurd hg hf.1
        · exact String.le_trans (String.not_lt.1 (String.lt_asymm (hf.2 hxt))) hg
      rw [insert_cons, if_pos hg, insert_cons, if_neg hf, insert_cons, if_neg hf, insert_cons,
        if_pos ((one ht.symm).2 hlt), insert_cons, if_pos hg]
    · rw [insert_cons, if_neg hg, insert_cons, insert_cons, if_neg hf, insert_cons]
      rcases String.le_total f.key g.key with hle | hle
      · rw [if_neg fun h => hk (String.le_antisymm hle ((one ht).1 h)), if_pos ((one ht.symm).2 hle),
          insert_cons, if_neg hg]
      · rw [if_pos ((one ht).2 hle), if_neg fun h => hk (String.le_antisymm ((one ht.symm).1 h) hle)]

theorem sizeAll_insert (keyed : Bool) (f : Field) (m : Message) :
    Field.sizeAll (insert keyed f m) = f.size + Field.sizeAll m := by
  induction m with
  | nil => rfl
  | cons g m ih =>
    rw [insert_cons]
    split
    · simp only [Field.sizeAll, ih]
      omega
    · rfl

/-! ## What a field replaces -/

theorem replaces_false_iff {occurrence : Occurrence} {f g : Field} :
    replaces occurrence f g = false ↔
      match occurrence with
      | .single => g.tag ≠ f.tag
      | .repeated => True
      | .keyed => g.tag = f.tag → g.key ≠ f.key
      | .choice group => g.tag ∉ group := by
  cases occurrence <;> simp [replaces]

/-- What may stand before a field is not replaced by it. -/
theorem replaces_of_before {s : Shape} {f g : Field} {spec : FieldSpec} (hs : s.field? f.tag = some spec)
    (h : s.Before (· ≠ ·) g f) : replaces spec.occurrence f g = false := by
  rw [replaces_false_iff]
  match ho : spec.occurrence with
  | .single =>
    have := (Shape.before_single hs ho).1 h
    simp only
    omega
  | .repeated => trivial
  | .keyed =>
    have := (Shape.before_keyed hs ho).1 h
    simp only
    intro ht
    rcases this with hlt | ⟨-, hk⟩
    · omega
    · exact hk
  | .choice group => exact ((Shape.before_choice hs ho).1 h).2

/-! ## Order -/

/-- What an inserted field follows may stand before it. -/
theorem before_of_insert {s : Shape} {f g : Field} {spec : FieldSpec} (hs : s.field? f.tag = some spec)
    (hr : replaces spec.occurrence f g = false) (hb : before (spec.occurrence == .keyed) f g = true) :
    s.Before (· < ·) g f := by
  rw [replaces_false_iff] at hr
  rw [before_iff] at hb
  match ho : spec.occurrence with
  | .single =>
    rw [ho] at hr
    simp only at hr
    exact (Shape.before_single hs ho).2 (by omega)
  | .repeated => exact (Shape.before_repeated hs ho).2 (by omega)
  | .keyed =>
    rw [ho] at hr hb
    simp only [beq_self_eq_true, forall_const] at hr hb
    refine (Shape.before_keyed hs ho).2 (hb.imp_right fun ⟨ht, hk⟩ => ⟨ht, ?_⟩)
    exact String.not_le.1 fun hle => hr ht (String.le_antisymm hk hle)
  | .choice group =>
    rw [ho] at hr
    simp only at hr
    have := Shape.mem_of_choice hs ho
    refine (Shape.before_choice hs ho).2 ⟨?_, hr⟩
    rcases hb with hlt | ⟨ht, -⟩
    · exact hlt
    · exact absurd (ht ▸ this) hr

/-- A field that does not follow `g` may stand before it and all that `g` may stand before. -/
theorem insert_before {s : Shape} {f g x : Field} {spec : FieldSpec} (hs : s.field? f.tag = some spec)
    (hb : ¬ before (spec.occurrence == .keyed) f g = true) (hx : ∃ spec', s.field? x.tag = some spec')
    (hr : replaces spec.occurrence f x = false) (hg : x = g ∨ s.Before (· < ·) g x) :
    s.Before (· < ·) f x := by
  obtain ⟨spec', hs'⟩ := hx
  rw [before_iff, not_or, not_and] at hb
  obtain ⟨hge, hb⟩ := hb
  -- either `g` has a larger number, or it is an entry of the same map with a larger key
  have hcase : f.tag < g.tag ∨ f.tag = g.tag ∧ spec.occurrence = .keyed ∧ f.key < g.key := by
    by_cases ht : g.tag = f.tag
    · have := hb ht
      simp only [beq_iff_eq, Classical.not_imp, String.not_le] at this
      exact .inr ⟨ht.symm, this⟩
    · exact .inl (by omega)
  have hle : g.tag ≤ x.tag := by
    rcases hg with rfl | hg
    · exact Nat.le_refl _
    · exact hg.tag_le
  -- where the numbers are equal, `x` is an entry of that map too
  have hlt : spec'.occurrence ≠ .keyed → f.tag < x.tag := by
    intro hn
    rcases hcase with h | ⟨h, ho, -⟩
    · omega
    · have : f.tag ≠ x.tag := fun he => by
        rw [he, hs'] at hs
        cases hs
        exact hn ho
      omega
  match ho : spec'.occurrence with
  | .single => exact (Shape.before_single hs' ho).2 (hlt (by simp [ho]))
  | .repeated => exact (Shape.before_repeated hs' ho).2 (Nat.le_of_lt (hlt (by simp [ho])))
  | .keyed =>
    refine (Shape.before_keyed hs' ho).2 ?_
    rcases hcase with h | ⟨h, -, hk⟩
    · exact .inl (by omega)
    · rcases hg with rfl | hg
      · exact .inr ⟨h, hk⟩
      · rcases (Shape.before_keyed hs' ho).1 hg with hg | ⟨ht, hk'⟩
        · exact .inl (by omega)
        · exact .inr ⟨h.trans ht, String.lt_trans hk hk'⟩
  | .choice group =>
    refine (Shape.before_choice hs' ho).2 ⟨hlt (by simp [ho]), fun hm => ?_⟩
    rw [Shape.choice_of_mem hs' ho hs hm, replaces_false_iff] at hr
    exact hr (Shape.mem_of_choice hs' ho)

theorem pairwise_insert {s : Shape} {f : Field} {spec : FieldSpec} (hs : s.field? f.tag = some spec) :
    ∀ {m : Message}, m.Pairwise (s.Before (· < ·)) →
      (∀ g ∈ m, replaces spec.occurrence f g = false ∧ ∃ spec', s.field? g.tag = some spec') →
      (insert (spec.occurrence == .keyed) f m).Pairwise (s.Before (· < ·))
  | [], _, _ => by simp [insert]
  | g :: m, hm, h => by
    obtain ⟨hg, hm⟩ := List.pairwise_cons.1 hm
    rw [insert_cons]
    split
    · next hb =>
      refine List.pairwise_cons.2 ⟨fun x hx => ?_, pairwise_insert hs hm fun x hx => h x (by simp [hx])⟩
      rcases mem_insert.1 hx with rfl | hx
      · exact before_of_insert hs (h g (by simp)).1 hb
      · exact hg x hx
    · next hb =>
      refine List.pairwise_cons.2 ⟨fun x hx => ?_, List.pairwise_cons.2 ⟨hg, hm⟩⟩
      refine insert_before hs hb (h x hx).2 (h x hx).1 ?_
      exact (List.mem_cons.1 hx).imp_right fun hx => hg x hx

/-! ## Putting -/

/-- Where nothing is replaced, a field that is written is inserted. -/
theorem put_eq {occurrence : Occurrence} {f : Field} {m : Message}
    (hr : ∀ g ∈ m, replaces occurrence f g = false) (hw : isWritten occurrence f = true) :
    put occurrence f m = insert (occurrence == .keyed) f m := by
  have : m.filter (fun g => !replaces occurrence f g) = m := by
    rw [List.filter_eq_self]
    intro g hg
    simp [hr g hg]
  simp only [put, this, if_pos hw]

theorem Canonical.put {s : Shape} {f : Field} {m : Message} {spec : FieldSpec} (hm : m.Canonical s)
    (hs : s.field? f.tag = some spec) (hf : isWritten spec.occurrence f = true → f.Fits (· < ·) s) :
    (put spec.occurrence f m).Canonical s := by
  have hk := hm.sublist (List.filter_sublist (p := fun g => !replaces spec.occurrence f g))
  simp only [Message.put]
  split
  · next hw =>
    refine ⟨Field.allFit_iff.2 fun g hg => ?_, pairwise_insert hs hk.order fun g hg => ?_⟩
    · rcases mem_insert.1 hg with rfl | hg
      · exact hf hw
      · exact hk.of_mem hg
    · exact ⟨by simpa using (List.mem_filter.1 hg).2, (hk.of_mem hg).field?⟩
  · exact hk

theorem nesting_put {occurrence : Occurrence} {f : Field} {m : Message} {n : Nat} (hm : m.nesting ≤ n)
    (hf : f.nesting ≤ n) : (put occurrence f m).nesting ≤ n := by
  have hk : ∀ g ∈ m.filter (fun g => !replaces occurrence f g), g.nesting ≤ n := fun g hg =>
    Field.nestingAll_le_iff.1 hm g (List.mem_filter.1 hg).1
  refine Field.nestingAll_le_iff.2 fun g hg => ?_
  simp only [put] at hg
  split at hg
  · rcases mem_insert.1 hg with rfl | hg
    · exact hf
    · exact hk g hg
  · exact hk g hg

theorem sizeAll_filter_le (p : Field → Bool) (m : Message) :
    Field.sizeAll (m.filter p) ≤ Field.sizeAll m := by
  induction m with
  | nil => exact Nat.le_refl _
  | cons g m ih =>
    rw [List.filter_cons]
    split <;> simp only [Field.sizeAll] <;> omega

/-- A field that is replaced makes room. -/
theorem sizeAll_filter_add_le {p : Field → Bool} {g : Field} {m : Message} (hg : g ∈ m) (hp : p g = false) :
    Field.sizeAll (m.filter p) + g.size ≤ Field.sizeAll m := by
  induction m with
  | nil => simp at hg
  | cons x m ih =>
    rcases List.mem_cons.1 hg with rfl | hg
    · have := sizeAll_filter_le p m
      simp only [List.filter_cons, hp, Bool.false_eq_true, if_false, Field.sizeAll]
      omega
    · have := ih hg
      rw [List.filter_cons]
      split <;> simp only [Field.sizeAll] <;> omega

theorem size_put_le (occurrence : Occurrence) (f : Field) (m : Message) :
    (put occurrence f m).size ≤ m.size + f.size := by
  have := sizeAll_filter_le (fun g => !replaces occurrence f g) m
  simp only [put, size]
  split
  · rw [sizeAll_insert]
    omega
  · omega

theorem size_put_add_le {occurrence : Occurrence} {f g : Field} {m : Message} (hg : g ∈ m)
    (hr : replaces occurrence f g = true) : (put occurrence f m).size + g.size ≤ m.size + f.size := by
  have := sizeAll_filter_add_le (p := fun g => !replaces occurrence f g) hg (by simp [hr])
  simp only [put, size]
  split
  · rw [sizeAll_insert]
    omega
  · omega

end LedgerClient.Wire.Message
