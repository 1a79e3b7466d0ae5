/-
Lists made entry by entry, where each entry gives one result or none.

Both views of a block are such lists: what an entry gives is known from the
entry and its position, and the result keeps the position. So an entry that
gives nothing leaves no trace in what is said about the others.
-/

namespace LedgerClient.Block

variable {α β γ : Type} {f g : Nat → α → Option β} {xs ys : List α}

/-- What the entries of a list give at their positions. -/
def collect (f : Nat → α → Option β) (xs : List α) : List β := (xs.mapIdx f).filterMap id

theorem collect_eq_filterMap_zipIdx (f : Nat → α → Option β) (xs : List α) :
    collect f xs = xs.zipIdx.filterMap fun p => f p.2 p.1 := by
  simp only [collect, List.mapIdx_eq_zipIdx_map, List.filterMap_map]
  rfl

theorem mem_collect {b : β} : b ∈ collect f xs ↔ ∃ i a, xs[i]? = some a ∧ f i a = some b := by
  simp only [collect_eq_filterMap_zipIdx, List.mem_filterMap, Prod.exists, List.mem_zipIdx_iff_getElem?]
  exact exists_comm

/-- One more entry adds what it gives at its position. -/
theorem collect_concat (f : Nat → α → Option β) (xs : List α) (x : α) :
    collect f (xs ++ [x]) = collect f xs ++ (f xs.length x).toList := by
  rw [collect, collect, List.mapIdx_concat, List.filterMap_append]
  cases f xs.length x <;> simp

theorem collect_congr (h : ∀ i, xs[i]?.map (f i) = ys[i]?.map (g i)) : collect f xs = collect g ys := by
  have hmap : xs.mapIdx f = ys.mapIdx g := List.ext_getElem? fun i => by
    simpa only [List.getElem?_mapIdx] using h i
  rw [collect, hmap, collect]

theorem filterMap_collect (g : β → Option γ) :
    (collect f xs).filterMap g = collect (fun i a => (f i a).bind g) xs := by
  simp only [collect_eq_filterMap_zipIdx, List.filterMap_filterMap]

theorem filter_collect (p : β → Bool) :
    (collect f xs).filter p = collect (fun i a => (f i a).filter p) xs := by
  simp only [collect_eq_filterMap_zipIdx, List.filter_filterMap]

theorem pairwise_zipIdx (xs : List α) : xs.zipIdx.Pairwise fun p q => p.2 < q.2 := by
  rw [← List.pairwise_map, List.zipIdx_map_snd]
  exact List.pairwise_lt_range'

section Position

variable {position : β → Nat} (hf : ∀ i a b, f i a = some b → position b = i)
include hf

theorem pairwise_collect : (collect f xs).Pairwise fun b c => position b < position c := by
  rw [collect_eq_filterMap_zipIdx, List.pairwise_filterMap]
  refine (pairwise_zipIdx xs).imp fun {p q} hpq b hb c hc => ?_
  rw [hf _ _ _ hb, hf _ _ _ hc]
  exact hpq

/-- What is collected from one position is what the entry there gives. -/
theorem filter_collect_eq (i : Nat) :
    (collect f xs).filter (fun b => position b == i) = (xs[i]?.bind (f i)).toList := by
  have hmem : ∀ b, b ∈ (collect f xs).filter (fun b => position b == i) ↔ xs[i]?.bind (f i) = some b := by
    intro b
    simp only [List.mem_filter, mem_collect, beq_iff_eq, Option.bind_eq_some_iff]
    constructor
    · rintro ⟨⟨k, a, ha, hb⟩, rfl⟩
      rw [hf k a b hb]
      exact ⟨a, ha, hb⟩
    · rintro ⟨a, ha, hb⟩
      exact ⟨⟨i, a, ha, hb⟩, hf i a b hb⟩
  have hlt : ((collect f xs).filter fun b => position b == i).Pairwise fun b c => position b < position c :=
    (pairwise_collect hf).filter _
  generalize (collect f xs).filter (fun b => position b == i) = found at hmem hlt
  match found with
  | [] =>
    cases h : xs[i]?.bind (f i) with
    | none => rfl
    | some b => cases (hmem b).2 h
  | [b] =>
    rw [(hmem b).1 List.mem_cons_self]
    rfl
  | b :: c :: _ =>
    -- two of them would be the same one, at a smaller position than its own
    have hb := (hmem b).1 List.mem_cons_self
    have hc := (hmem c).1 (List.mem_cons_of_mem b List.mem_cons_self)
    have hbc := List.rel_of_pairwise_cons hlt List.mem_cons_self
    rw [Option.some.inj (hb.symm.trans hc)] at hbc
    exact absurd hbc (Nat.lt_irrefl _)

/-- What is collected from elsewhere does not depend on the entry at `j`. -/
theorem filter_collect_congr {j : Nat} (hlength : xs.length = ys.length) (h : ∀ i, i ≠ j → xs[i]? = ys[i]?) :
    (collect f xs).filter (fun b => position b ≠ j) = (collect f ys).filter (fun b => position b ≠ j) := by
  have hnone : ∀ a, (f j a).filter (fun b => position b ≠ j) = none := fun a => by
    rw [Option.filter_eq_none_iff]
    intro b hb
    simp [hf j a b hb]
  rw [filter_collect, filter_collect]
  refine collect_congr fun i => ?_
  by_cases hi : i = j
  · subst hi
    -- both lists end before `i`, or neither does
    by_cases hx : i < xs.length
    · simp only [List.getElem?_eq_getElem hx, List.getElem?_eq_getElem (hlength ▸ hx), Option.map_some, hnone]
    · simp only [List.getElem?_eq_none (Nat.le_of_not_lt hx),
        List.getElem?_eq_none (hlength ▸ Nat.le_of_not_lt hx), Option.map_none]
  · rw [h i hi]

end Position

end LedgerClient.Block
