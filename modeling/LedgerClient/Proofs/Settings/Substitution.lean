/-
How variables are replaced in a text.

A text has exactly one reading as references, each with the text before it, and
a rest: a reference starts at the leftmost opener of what is left and runs up to
the first closing brace (`exists_isReading`, `IsReading.unique`). Replacing
variables keeps this reading and puts a value in place of each reference whose
name is set (`IsReading.substituteChars_eq`). The reading is that of the text
alone, so no value is looked at again, by itself or with the text around it.
-/
import LedgerClient.Proofs.Policy.Lexeme
import LedgerClient.Settings.Document

namespace LedgerClient.Settings

/-- What a reference starts with. -/
def opener : List Char := ['$', '{']

/-- A reference in a text: what stands between it and the one before, and its name. -/
structure Reference where
  before : List Char
  name : List Char
  deriving DecidableEq, Repr

namespace Reference

def spelling (r : Reference) : List Char := opener ++ r.name ++ ['}']

/-- The value of the name if it is set, and otherwise the reference as it stands. -/
def replacement (value? : String → Option String) (r : Reference) : List Char :=
  ((value? (String.ofList r.name)).map (·.toList)).getD r.spelling

end Reference

/-- The text of references, with what is put in the place of each, and of the rest after them. -/
def expand (put : Reference → List Char) (refs : List Reference) (rest : List Char) : List Char :=
  refs.flatMap (fun r => r.before ++ put r) ++ rest

theorem expand_cons (put : Reference → List Char) (r : Reference) (refs : List Reference) (rest : List Char) :
    expand put (r :: refs) rest = r.before ++ put r ++ expand put refs rest := by
  simp only [expand, List.flatMap_cons, List.append_assoc]

/-- A text is read as references and a rest. -/
structure IsReading (cs : List Char) (refs : List Reference) (rest : List Char) : Prop where
  eq : cs = expand (·.spelling) refs rest
  /-- A reference starts at the first opener after the one before. -/
  leftmost : ∀ r ∈ refs, ¬ opener <:+: r.before
  /-- Its name ends at the first closing brace. -/
  closed : ∀ r ∈ refs, '}' ∉ r.name
  /-- No opener in the rest is closed. -/
  unclosed : ∀ before after, rest = before ++ opener ++ after → '}' ∉ after

variable {value? : String → Option String} {cs before name after rest rest' : List Char} {c : Char} {r : Reference}
  {refs refs' : List Reference}

/-! ## The first reference -/

theorem splitReference?_opener (cs : List Char) : splitReference? (opener ++ cs) =
    match cs.dropWhile (· != '}') with
    | [] => none
    | _ :: after => some ([], cs.takeWhile (· != '}'), after) := by
  cases h : cs.dropWhile (· != '}') with
  | nil => simp [opener, splitReference?, h]
  | cons brace after => simp [opener, splitReference?, h]

theorem splitReference?_cons (h : ¬ opener <+: c :: cs) : splitReference? (c :: cs) =
    (splitReference? cs).map fun (before, name, after) => (c :: before, name, after) := by
  rw [splitReference?]
  rintro rest rfl rfl
  exact h ⟨rest, rfl⟩

/-- An opener does not reach over the start of the next one. -/
theorem opener_isPrefix_of_append (h : opener <+: c :: (before ++ (opener ++ cs))) : opener <+: c :: before := by
  cases before with
  | nil => simp [opener] at h
  | cons d before =>
    simp only [opener, List.cons_append, List.cons_prefix_cons] at h ⊢
    exact ⟨h.1, h.2.1, List.nil_prefix⟩

theorem splitReference?_eq_some_iff : splitReference? cs = some (before, name, after) ↔
    cs = before ++ (opener ++ (name ++ '}' :: after)) ∧ ¬ opener <:+: before ∧ '}' ∉ name := by
  constructor
  · intro h
    induction cs generalizing before with
    | nil => cases h
    | cons c cs ih =>
      by_cases ho : opener <+: c :: cs
      · obtain ⟨tail, htail⟩ := ho
        rw [← htail, splitReference?_opener] at h
        split at h
        next => cases h
        next d _ hd =>
          obtain ⟨rfl, hn, htext⟩ := Policy.eq_append_of_dropWhile hd
          cases h
          exact ⟨by rw [← htail, List.nil_append, ← htext], by decide, hn⟩
      · rw [splitReference?_cons ho] at h
        obtain ⟨⟨before', _, _⟩, hsplit, hparts⟩ := Option.map_eq_some_iff.1 h
        cases hparts
        obtain ⟨rfl, hb, hn⟩ := ih hsplit
        refine ⟨rfl, fun hinfix => ?_, hn⟩
        rcases List.infix_cons_iff.1 hinfix with hp | hp
        · exact ho (hp.trans (List.prefix_append (c :: before') _))
        · exact hb hp
  · rintro ⟨rfl, hb, hn⟩
    induction before with
    | nil =>
      have hname : ∀ d ∈ name, (d != '}') = true := fun d hd => bne_iff_ne.2 fun h => hn (h ▸ hd)
      rw [List.nil_append, splitReference?_opener, List.takeWhile_append_of_pos hname,
        List.dropWhile_append_of_pos hname]
      simp
    | cons c before ih =>
      rw [List.infix_cons_iff, not_or] at hb
      rw [List.cons_append, splitReference?_cons fun h => hb.1 (opener_isPrefix_of_append h), ih hb.2]
      rfl

theorem splitReference?_eq_none_iff :
    splitReference? cs = none ↔ ∀ before after, cs = before ++ opener ++ after → '}' ∉ after := by
  constructor
  · intro h before after hcs hmem
    induction cs generalizing before with
    | nil => cases before <;> cases hcs
    | cons c cs ih =>
      by_cases ho : opener <+: c :: cs
      · -- the text behind a later opener is behind the first one too
        obtain ⟨tail, htail⟩ := ho
        have hle : after.length ≤ tail.length := by
          have hlength := congrArg List.length (htail.trans hcs)
          simp only [List.length_append] at hlength
          omega
        have hsuffix : after <:+ tail := List.suffix_of_suffix_length_le ⟨_, hcs.symm⟩ ⟨opener, htail⟩ hle
        rw [← htail, splitReference?_opener] at h
        split at h
        next hd => exact absurd (List.dropWhile_eq_nil_iff.1 hd '}' (hsuffix.subset hmem)) (by decide)
        next => cases h
      · cases before with
        | nil => exact ho ⟨after, hcs.symm⟩
        | cons d before =>
          rw [splitReference?_cons ho, Option.map_eq_none_iff] at h
          exact ih h before (List.cons.inj hcs).2
  · intro h
    rw [Option.eq_none_iff_forall_ne_some]
    rintro ⟨before, name, after⟩ hsplit
    obtain ⟨hcs, -, -⟩ := splitReference?_eq_some_iff.1 hsplit
    rw [← List.append_assoc] at hcs
    exact h before _ hcs (List.mem_append_right name List.mem_cons_self)

/-! ## Readings -/

theorem IsReading.nil_iff : IsReading cs [] rest ↔ cs = rest ∧ splitReference? cs = none := by
  rw [splitReference?_eq_none_iff]
  constructor
  · intro h
    obtain rfl : cs = rest := h.eq
    exact ⟨rfl, h.unclosed⟩
  · rintro ⟨rfl, h⟩
    exact ⟨rfl, nofun, nofun, h⟩

/-- After its first reference a text is read on in the same way. -/
theorem IsReading.cons_iff : IsReading cs (r :: refs) rest ↔
    ∃ after, splitReference? cs = some (r.before, r.name, after) ∧ IsReading after refs rest := by
  simp only [splitReference?_eq_some_iff]
  constructor
  · intro h
    obtain ⟨hb, hbs⟩ := List.forall_mem_cons.1 h.leftmost
    obtain ⟨hn, hns⟩ := List.forall_mem_cons.1 h.closed
    refine ⟨_, ⟨?_, hb, hn⟩, rfl, hbs, hns, h.unclosed⟩
    rw [h.eq, expand_cons, Reference.spelling]
    simp only [List.append_assoc, List.singleton_append]
  · rintro ⟨after, ⟨rfl, hb, hn⟩, h⟩
    refine ⟨?_, List.forall_mem_cons.2 ⟨hb, h.leftmost⟩, List.forall_mem_cons.2 ⟨hn, h.closed⟩, h.unclosed⟩
    rw [h.eq, expand_cons, Reference.spelling]
    simp only [List.append_assoc, List.singleton_append]

theorem IsReading.unique (h : IsReading cs refs rest) (h' : IsReading cs refs' rest') :
    refs = refs' ∧ rest = rest' := by
  induction refs generalizing cs refs' with
  | nil =>
    obtain ⟨rfl, hnone⟩ := nil_iff.1 h
    cases refs' with
    | nil => exact ⟨rfl, (nil_iff.1 h').1⟩
    | cons r' refs' =>
      obtain ⟨_, hsome, -⟩ := cons_iff.1 h'
      cases hnone.symm.trans hsome
  | cons r refs ih =>
    obtain ⟨after, hsome, hafter⟩ := cons_iff.1 h
    cases refs' with
    | nil => cases (nil_iff.1 h').2.symm.trans hsome
    | cons r' refs' =>
      obtain ⟨after', hsome', hafter'⟩ := cons_iff.1 h'
      obtain ⟨hbefore, hname, rfl⟩ : r.before = r'.before ∧ r.name = r'.name ∧ after = after' := by
        simpa using hsome.symm.trans hsome'
      obtain rfl : r = r' := by rw [Reference.mk.injEq]; exact ⟨hbefore, hname⟩
      obtain ⟨rfl, rfl⟩ := ih hafter hafter'
      exact ⟨rfl, rfl⟩

/-- Each reference takes some of the text, so that there is an end to them. -/
theorem exists_isReading (cs : List Char) : ∃ refs rest, IsReading cs refs rest := by
  cases h : splitReference? cs with
  | none => exact ⟨[], cs, IsReading.nil_iff.2 ⟨rfl, h⟩⟩
  | some found =>
    obtain ⟨before, name, after⟩ := found
    obtain ⟨refs, rest, hafter⟩ := exists_isReading after
    exact ⟨⟨before, name⟩ :: refs, rest, IsReading.cons_iff.2 ⟨after, h, hafter⟩⟩
termination_by cs.length
decreasing_by exact length_of_splitReference? h

/-! ## Replacing -/

theorem substituteChars_of_none (h : splitReference? cs = none) : substituteChars value? cs = cs := by
  rw [substituteChars]
  split
  next => rfl
  next hsome => cases h.symm.trans hsome

theorem substituteChars_of_some (h : splitReference? cs = some (r.before, r.name, after)) :
    substituteChars value? cs = r.before ++ r.replacement value? ++ substituteChars value? after := by
  rw [substituteChars]
  split
  next hnone => cases h.symm.trans hnone
  next hsome =>
    cases h.symm.trans hsome
    rw [Reference.replacement]
    cases value? (String.ofList r.name) <;> rfl

theorem IsReading.substituteChars_eq (h : IsReading cs refs rest) :
    substituteChars value? cs = expand (·.replacement value?) refs rest := by
  induction refs generalizing cs with
  | nil =>
    obtain ⟨rfl, hnone⟩ := nil_iff.1 h
    exact substituteChars_of_none hnone
  | cons r refs ih =>
    obtain ⟨after, hsome, hafter⟩ := cons_iff.1 h
    rw [substituteChars_of_some hsome, ih hafter, expand_cons]

theorem toList_substitute (value? : String → Option String) {text : String} (h : IsReading text.toList refs rest) :
    (substitute value? text).toList = expand (·.replacement value?) refs rest := by
  rw [substitute, String.toList_ofList, h.substituteChars_eq]

/-- Where no name in a text is set, the text stays as it is. -/
theorem substitute_of_unset {text : String} (h : IsReading text.toList refs rest)
    (hunset : ∀ r ∈ refs, value? (String.ofList r.name) = none) : substitute value? text = text := by
  rw [← String.toList_inj, toList_substitute value? h, h.eq, expand, expand]
  refine congrArg (· ++ rest) (List.flatMap_congr fun r hr => ?_)
  rw [Reference.replacement, hunset r hr, Option.map_none, Option.getD_none]

/-- Settings are read from the replaced text, in which nothing more is replaced. -/
theorem parse_eq_parse_substitute (value? : String → Option String) (yaml : String) :
    parse value? yaml = parse (fun _ => none) (substitute value? yaml) := by
  obtain ⟨refs, rest, h⟩ := exists_isReading (substitute value? yaml).toList
  have hunset : substitute (fun _ => none) (substitute value? yaml) = substitute value? yaml :=
    substitute_of_unset h fun _ _ => rfl
  rw [parse, parse, hunset]

/-- **Variables are replaced in one pass from the left.** A text has one reading as references and a rest, whatever
the variables are. Replacing them keeps the reading but for the references whose names are set, which have their
values instead; if none is set the text stays as it is. Settings are read from what this gives, with nothing
replaced in it a second time. -/
theorem substitutes_in_one_pass (text : String) : ∃ refs rest, IsReading text.toList refs rest ∧
    (∀ refs' rest', IsReading text.toList refs' rest' → refs' = refs ∧ rest' = rest) ∧
    ∀ value? : String → Option String,
      (substitute value? text).toList = expand (·.replacement value?) refs rest ∧
      ((∀ r ∈ refs, value? (String.ofList r.name) = none) → substitute value? text = text) ∧
      parse value? text = parse (fun _ => none) (substitute value? text) := by
  obtain ⟨refs, rest, h⟩ := exists_isReading text.toList
  refine ⟨refs, rest, h, fun refs' rest' h' => h'.unique h, fun value? => ⟨?_, ?_, ?_⟩⟩
  · exact toList_substitute value? h
  · exact substitute_of_unset h
  · exact parse_eq_parse_substitute value? text

/-- A dollar sign for a value makes no reference with the braces behind it, and an unclosed opener stays. -/
theorem substitutes_in_one_pass_joined :
    let value? (name : String) := if name = "A" then some "$" else if name = "B" then some "x" else none
    (substitute value? (String.ofList ['$', '$', '{', 'A', '}', '{', 'B', '}', '$', '{'])).toList =
      ['$', '$', '{', 'B', '}', '$', '{'] := by
  intro value?
  obtain ⟨refs, rest, -, hunique, hvalues⟩ :=
    substitutes_in_one_pass (String.ofList ['$', '$', '{', 'A', '}', '{', 'B', '}', '$', '{'])
  rw [String.toList_ofList] at hunique
  obtain ⟨rfl, rfl⟩ := hunique [⟨['$'], ['A']⟩] ['{', 'B', '}', '$', '{']
    (IsReading.cons_iff.2 ⟨_, rfl, IsReading.nil_iff.2 ⟨rfl, rfl⟩⟩)
  rw [(hvalues value?).1]
  rfl

end LedgerClient.Settings
