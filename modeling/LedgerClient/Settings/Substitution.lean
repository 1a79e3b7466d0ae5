/-
Variables in a text of settings.

A reference is a dollar sign and a name in braces; the name runs up to the
first closing brace. References are replaced in one pass from the left: a value
is not looked at again, and a reference to a variable that is not set stays as
it is, as does the rest of the text after one that is not closed.
-/

namespace LedgerClient.Settings

/-- The text up to the first reference, its name, and the rest; nothing if no reference follows. -/
def splitReference? : List Char → Option (List Char × List Char × List Char)
  | [] => none
  | '$' :: '{' :: rest =>
    match rest.dropWhile (· != '}') with
    | [] => none
    | _ :: after => some ([], rest.takeWhile (· != '}'), after)
  | c :: rest => (splitReference? rest).map fun (before, name, after) => (c :: before, name, after)

theorem length_of_splitReference? {cs before name after : List Char}
    (h : splitReference? cs = some (before, name, after)) : after.length < cs.length := by
  induction cs using splitReference?.induct generalizing before with
  | case1 => simp [splitReference?] at h
  | case2 rest hd => simp [splitReference?, hd] at h
  | case3 rest c tail hd =>
    simp only [splitReference?, hd, Option.some.injEq, Prod.mk.injEq] at h
    have := (List.dropWhile_suffix (· != '}') (l := rest)).length_le
    rw [hd] at this
    simp only [List.length_cons] at this ⊢
    rw [← h.2.2]
    omega
  | case4 c rest hne ih =>
    rw [splitReference?] at h
    · obtain ⟨⟨b, n, a⟩, hs, he⟩ := Option.map_eq_some_iff.1 h
      simp only [Prod.mk.injEq] at he
      have hs : splitReference? rest = some (b, name, after) := by rw [hs, he.2.1, he.2.2]
      have := ih hs
      simp only [List.length_cons]
      omega
    · exact hne

/-- Replaces references, with `value?` for what is set. -/
def substituteChars (value? : String → Option String) (cs : List Char) : List Char :=
  match _h : splitReference? cs with
  | none => cs
  | some (before, name, after) =>
    before ++
      (match value? (String.ofList name) with
        | some v => v.toList
        | none => '$' :: '{' :: name ++ ['}']) ++
      substituteChars value? after
termination_by cs.length
decreasing_by exact length_of_splitReference? (by assumption)

/-- The text with its references replaced. -/
def substitute (value? : String → Option String) (text : String) : String :=
  String.ofList (substituteChars value? text.toList)

end LedgerClient.Settings
