/-
Computations that may fail: what is known of their parts from how they end.
-/
import Mathlib.Data.List.Forall2
import LedgerClient.Decoding

namespace LedgerClient

theorem exists_of_bind_eq_ok {ε α β : Type} {x : Except ε α} {f : α → Except ε β} {b : β}
    (h : (x >>= f) = .ok b) : ∃ a, x = .ok a ∧ f a = .ok b := by
  cases x with
  | error e => cases h
  | ok a => exact ⟨a, rfl, h⟩

theorem bind_eq_ok_iff {ε α β : Type} {x : Except ε α} {f : α → Except ε β} {b : β} :
    (x >>= f) = .ok b ↔ ∃ a, x = .ok a ∧ f a = .ok b := by
  refine ⟨exists_of_bind_eq_ok, ?_⟩
  rintro ⟨a, rfl, h⟩
  exact h

theorem bind_eq_error_iff {ε α β : Type} {x : Except ε α} {f : α → Except ε β} {e : ε} :
    (x >>= f) = .error e ↔ x = .error e ∨ ∃ a, x = .ok a ∧ f a = .error e := by
  cases x <;> simp [bind, Except.bind]

theorem bind_ok_eq_error_iff {ε α β : Type} {x : Except ε α} {f : α → β} {e : ε} :
    (x >>= fun a => .ok (f a)) = .error e ↔ x = .error e := by
  cases x <;> simp [bind, Except.bind]

theorem map_eq_ok_iff {ε α β : Type} {x : Except ε α} {f : α → β} {b : β} :
    f <$> x = .ok b ↔ ∃ a, x = .ok a ∧ f a = b := by
  cases x <;> simp [Functor.map, Except.map]

theorem mapError_eq_ok_iff {ε δ α : Type} {x : Except ε α} {f : ε → δ} {a : α} :
    x.mapError f = .ok a ↔ x = .ok a := by
  cases x <;> simp [Except.mapError]

theorem mapError_eq_error_iff {ε δ α : Type} {x : Except ε α} {f : ε → δ} {e : δ} :
    x.mapError f = .error e ↔ ∃ e', x = .error e' ∧ f e' = e := by
  cases x <;> simp [Except.mapError]

/-- What depends on less is equal where that is. -/
theorem map_eq_of_map_eq {ε α β γ : Type} {x y : Except ε α} {f : α → β} {g : α → γ}
    (hg : ∀ a b, f a = f b → g a = g b) (h : x.map f = y.map f) : x.map g = y.map g := by
  cases x with
  | error e =>
    cases y with
    | error e' =>
      cases h
      rfl
    | ok b => cases h
  | ok a =>
    cases y with
    | error e' => cases h
    | ok b =>
      have hab : f a = f b := by simpa [Except.map] using h
      simp only [Except.map, hg a b hab]

/-- Where every step gives what `k` has in common with `g`, so do all of them. -/
theorem map_eq_of_mapM_eq_ok {ε α β γ : Type} {f : α → Except ε β} {g : α → γ} {k : β → γ}
    (hf : ∀ x y, f x = .ok y → g x = k y) : ∀ {xs : List α} {ys : List β}, xs.mapM f = .ok ys →
      xs.map g = ys.map k
  | [], ys, h => by
    cases h
    rfl
  | x :: xs, ys, h => by
    rw [List.mapM_cons] at h
    obtain ⟨y, hy, h⟩ := exists_of_bind_eq_ok h
    obtain ⟨ys', hys, h⟩ := exists_of_bind_eq_ok h
    cases h
    rw [List.map_cons, List.map_cons, hf x y hy, map_eq_of_mapM_eq_ok hf hys]

theorem exists_of_mapM_eq_ok {ε α β : Type} {f : α → Except ε β} {x : α} : ∀ {xs : List α} {ys : List β},
    xs.mapM f = .ok ys → x ∈ xs → ∃ y, f x = .ok y
  | z :: xs, ys, h, hx => by
    rw [List.mapM_cons] at h
    obtain ⟨y, hy, h⟩ := exists_of_bind_eq_ok h
    obtain ⟨ys', hys, -⟩ := exists_of_bind_eq_ok h
    rcases List.mem_cons.1 hx with rfl | hx
    · exact ⟨y, hy⟩
    · exact exists_of_mapM_eq_ok hys hx

theorem exists_mapM_eq_ok {ε α β : Type} {f : α → Except ε β} {xs : List α}
    (h : ∀ x ∈ xs, ∃ y, f x = .ok y) : ∃ ys, xs.mapM f = .ok ys := by
  induction xs with
  | nil => exact ⟨[], rfl⟩
  | cons x xs ih =>
    obtain ⟨y, hy⟩ := h x List.mem_cons_self
    obtain ⟨ys, hys⟩ := ih fun z hz => h z (List.mem_cons_of_mem x hz)
    refine ⟨y :: ys, ?_⟩
    rw [List.mapM_cons, hy, hys]
    rfl

/-- All steps succeed exactly if each of them does, one result a step. -/
theorem mapM_eq_ok_iff {ε α β : Type} {f : α → Except ε β} {xs : List α} {ys : List β} :
    xs.mapM f = .ok ys ↔ List.Forall₂ (fun x y => f x = .ok y) xs ys := by
  induction xs generalizing ys with
  | nil =>
    constructor
    · intro h
      cases h
      exact .nil
    · intro h
      cases h
      rfl
  | cons x xs ih =>
    simp only [List.mapM_cons, bind_eq_ok_iff, ih]
    constructor
    · rintro ⟨y, hy, ys, hys, h⟩
      cases h
      exact .cons hy hys
    · rintro (_ | ⟨hy, hys⟩)
      exact ⟨_, hy, _, hys, rfl⟩

/-- The first step that fails decides how the whole fails. -/
theorem mapM_eq_error_iff {ε α β : Type} {f : α → Except ε β} {e : ε} {xs : List α} :
    xs.mapM f = .error e ↔
      ∃ before x after, xs = before ++ x :: after ∧ (∀ y ∈ before, ∃ z, f y = .ok z) ∧ f x = .error e := by
  induction xs with
  | nil =>
    refine iff_of_false nofun ?_
    rintro ⟨before, x, after, h, -⟩
    cases before <;> cases h
  | cons x xs ih =>
    rw [List.mapM_cons]
    cases hx : f x with
    | error e' =>
      constructor
      · intro h
        cases h
        exact ⟨[], x, xs, rfl, nofun, hx⟩
      · rintro ⟨_ | ⟨y, before⟩, z, after, h, hbefore, hz⟩ <;> cases h
        · cases hx.symm.trans hz
          rfl
        · obtain ⟨_, hy⟩ := hbefore x List.mem_cons_self
          cases hx.symm.trans hy
    | ok y =>
      have hrest : (Except.ok y >>= fun y => xs.mapM f >>= fun ys => pure (y :: ys)) = Except.error e ↔
          xs.mapM f = .error e := bind_ok_eq_error_iff
      rw [hrest, ih]
      constructor
      · rintro ⟨before, z, after, rfl, hbefore, hz⟩
        exact ⟨x :: before, z, after, rfl, List.forall_mem_cons.2 ⟨⟨y, hx⟩, hbefore⟩, hz⟩
      · rintro ⟨_ | ⟨z, before⟩, w, after, h, hbefore, hw⟩ <;> cases h
        · cases hx.symm.trans hw
        · exact ⟨before, w, after, rfl, (List.forall_mem_cons.1 hbefore).2, hw⟩

/-- One check after the other: all of them pass, or the first that fails decides. -/
theorem forM_eq_ok_iff {ε α : Type} {f : α → Except ε Unit} {xs : List α} :
    xs.forM f = .ok () ↔ ∀ x ∈ xs, f x = .ok () := by
  induction xs with
  | nil => exact iff_of_true rfl nofun
  | cons x xs ih =>
    rw [List.forall_mem_cons, ← ih]
    constructor
    · intro h
      obtain ⟨⟨⟩, hx, hxs⟩ := exists_of_bind_eq_ok h
      exact ⟨hx, hxs⟩
    · rintro ⟨hx, hxs⟩
      exact bind_eq_ok_iff.2 ⟨(), hx, hxs⟩

theorem forM_eq_error_iff {ε α : Type} {f : α → Except ε Unit} {e : ε} {xs : List α} :
    xs.forM f = .error e ↔
      ∃ before x after, xs = before ++ x :: after ∧ (∀ y ∈ before, f y = .ok ()) ∧ f x = .error e := by
  induction xs with
  | nil =>
    refine iff_of_false nofun ?_
    rintro ⟨before, x, after, h, -⟩
    cases before <;> cases h
  | cons x xs ih =>
    constructor
    · intro h
      rcases bind_eq_error_iff.1 h with hx | ⟨⟨⟩, hx, hxs⟩
      · exact ⟨[], x, xs, rfl, nofun, hx⟩
      · obtain ⟨before, y, after, rfl, hbefore, hy⟩ := ih.1 hxs
        exact ⟨x :: before, y, after, rfl, List.forall_mem_cons.2 ⟨hx, hbefore⟩, hy⟩
    · rintro ⟨_ | ⟨z, before⟩, y, after, h, hbefore, hy⟩ <;> cases h
      · exact bind_eq_error_iff.2 (.inl hy)
      · obtain ⟨hx, hbefore⟩ := List.forall_mem_cons.1 hbefore
        exact bind_eq_error_iff.2 (.inr ⟨(), hx, ih.2 ⟨before, y, after, rfl, hbefore, hy⟩⟩)

theorem toOption_eq_some_iff {ε α : Type} {x : Except ε α} {a : α} : x.toOption = some a ↔ x = .ok a := by
  cases x <;> simp [Except.toOption]

theorem eq_ok_of_toOption {ε α : Type} {x : Except ε α} {a : α} (h : x.toOption = some a) : x = .ok a :=
  toOption_eq_some_iff.1 h

/-! ## Steps of decoding -/

section Decoding

variable {α : Type} {what : String} {x : α} {error : DecodeError}

theorem decodeAs_eq_ok_iff [Wire.Typed α] {bytes : Bytes} :
    decodeAs α what bytes = .ok x ↔ Wire.decode? α bytes = some x := by
  unfold decodeAs
  cases Wire.decode? α bytes <;> simp

theorem decodeAs_eq_error_iff [Wire.Typed α] {bytes : Bytes} :
    decodeAs α what bytes = .error error ↔ Wire.decode? α bytes = none ∧ error = .malformed what := by
  unfold decodeAs
  cases Wire.decode? α bytes <;> simp [eq_comm]

theorem require_eq_ok_iff {part : Option α} : require what part = .ok x ↔ part = some x := by
  cases part <;> simp [require]

theorem require_eq_error_iff {part : Option α} :
    require what part = .error error ↔ part = none ∧ error = .missing what := by
  cases part <;> simp [require, eq_comm]

end Decoding

end LedgerClient
