/-
Which texts are policies.

A policy is a quoted principal, or an operator with its operands in
parentheses. The grammar is stated on token lists, apart from the parser, and
`parseExpr_eq_ok_iff` says that the parser reads exactly what the grammar
derives: a step lemma for each of its two functions, then an induction on the
number of tokens they may take for either direction. The parser is never short
of that number, so operators may nest as deep as a text allows.
-/
import LedgerClient.Error
import LedgerClient.Policy.Parser
import LedgerClient.Proofs.Policy.Lexeme
import LedgerClient.Proofs.Protocol.Codes

namespace LedgerClient.Policy

open Protocol

/-! ## The grammar -/

/-- The texts of a principal: its organization, a dot and its role. No role has a dot in its name,
so the dot is the last one of the text. -/
def Principal.IsSpelledBy (p : Principal) (text : String) : Prop :=
  p.mspId ≠ "" ∧ text = p.mspId ++ "." ++ p.role.policyName

/-- What stands before the operands of a threshold of `n` out of `k`. -/
inductive Opens (k : Nat) : Nat → List Token → Prop
  | and {name : String} (hname : name.map Char.toLower = "and") : Opens k k [.ident name, .openParen]
  | or {name : String} (hname : name.map Char.toLower = "or") : Opens k 1 [.ident name, .openParen]
  | outOf {name : String} {n : Nat} (hname : name.map Char.toLower = "outof") (hpos : 1 ≤ n) (hle : n ≤ k) :
      Opens k n [.ident name, .openParen, .number n, .comma]

mutual
/-- The token lists of an expression. -/
inductive Spells : Expr → List Token → Prop
  | principal {p : Principal} {text : String} (h : p.IsSpelledBy text) : Spells (.principal p) [.quoted text]
  | outOf {n : Nat} {es : List Expr} {ts us : List Token} (ho : Opens es.length n ts) (h : SpellsAll es us) :
      Spells (.outOf n es) (ts ++ us ++ [.closeParen])

/-- The token lists of one expression or more, with a comma between two of them. -/
inductive SpellsAll : List Expr → List Token → Prop
  | one {e : Expr} {ts : List Token} (h : Spells e ts) : SpellsAll [e] ts
  | more {e : Expr} {es : List Expr} {ts us : List Token} (h : Spells e ts) (hs : SpellsAll es us) :
      SpellsAll (e :: es) (ts ++ .comma :: us)
end

/-- The texts of an expression. -/
def Expr.IsSpelledBy (e : Expr) (s : String) : Prop := ∃ ts, Splits s.toList ts ∧ Spells e ts

/-! ## Principals -/

theorem splitAtLastDot?_eq_some_iff {cs msp role : List Char} :
    splitAtLastDot? cs = some (msp, role) ↔ cs = msp ++ '.' :: role ∧ '.' ∉ role := by
  constructor
  · intro h
    rw [splitAtLastDot?] at h
    split at h
    · cases h
    next before hdrop =>
      obtain ⟨-, hnot, hcs⟩ := eq_append_of_dropWhile hdrop
      cases h
      refine ⟨?_, by simpa using hnot⟩
      have := congrArg List.reverse hcs
      simpa using this
  · rintro ⟨rfl, hnot⟩
    have hrole : ∀ c ∈ role.reverse, (c != '.') = true := by
      intro c hc
      simp only [bne_iff_ne, ne_eq]
      rintro rfl
      exact hnot (List.mem_reverse.1 hc)
    simp only [splitAtLastDot?, List.reverse_append, List.reverse_cons, List.append_assoc, List.singleton_append,
      List.dropWhile_append_of_pos hrole, List.takeWhile_append_of_pos hrole]
    simp

theorem dot_not_mem_policyName (r : Role) : '.' ∉ r.policyName.toList := by
  cases r <;> decide

theorem principalOf_eq_ok_iff {text : String} {p : Principal} :
    principalOf text = .ok p ↔ p.IsSpelledBy text := by
  have hread : principalOf text = .ok p ↔ ∃ msp role, splitAtLastDot? text.toList = some (msp, role) ∧
      msp ≠ [] ∧ Role.ofPolicyName? (String.ofList role) = some p.role ∧ String.ofList msp = p.mspId := by
    obtain ⟨mspId, role⟩ := p
    rw [principalOf]
    split
    next h => simp [h]
    next msp role h =>
      split
      next hmsp => simp [h, List.isEmpty_iff.1 hmsp]
      next hmsp =>
        have hne : msp ≠ [] := by simpa using hmsp
        split
        next hrole =>
          refine iff_of_false nofun ?_
          rintro ⟨_, _, hsome, -, hr, -⟩
          cases h.symm.trans hsome
          exact nomatch hrole.symm.trans hr
        next r hrole =>
          rw [h]
          constructor
          · rintro ⟨⟩
            exact ⟨msp, role, rfl, hne, hrole, rfl⟩
          · rintro ⟨_, _, ⟨⟩, -, hr, rfl⟩
            cases hrole.symm.trans hr
            rfl
  simp only [hread, splitAtLastDot?_eq_some_iff, Role.ofPolicyName?_eq_some_iff, Principal.IsSpelledBy]
  constructor
  · rintro ⟨msp, role, ⟨htext, -⟩, hne, hrole, hmsp⟩
    rw [← hrole, ← hmsp, ← String.toList_inj, htext]
    simp [hne]
  · rintro ⟨hne, rfl⟩
    refine ⟨p.mspId.toList, p.role.policyName.toList, ⟨by simp, dot_not_mem_policyName _⟩, ?_, ?_, ?_⟩ <;> simp [hne]

/-! ## The parser step by step -/

variable {fuel : Nat} {ts rest : List Token} {e : Expr} {es : List Expr}

/-- The operands of an operator, up to the closing parenthesis. -/
def readOperands (fuel : Nat) (ts : List Token) : Except Fault (List Expr × List Token) := do
  let (first, ts) ← readExpr fuel ts
  let (others, ts) ← readOthers fuel ts
  .ok (first :: others, ts)

theorem readOperands_eq_ok_iff : readOperands fuel ts = .ok (es, rest) ↔
    ∃ first others us, readExpr fuel ts = .ok (first, us) ∧ readOthers fuel us = .ok (others, rest) ∧
      es = first :: others := by
  simp only [readOperands, bind_eq_ok_iff, Prod.exists, Except.ok.injEq, Prod.mk.injEq]
  constructor
  · rintro ⟨first, us, hfirst, others, _, hothers, rfl, rfl⟩
    exact ⟨first, others, us, hfirst, hothers, rfl⟩
  · rintro ⟨first, others, us, hfirst, hothers, rfl⟩
    exact ⟨first, us, hfirst, others, rest, hothers, rfl, rfl⟩

theorem readOthers_eq_ok_iff : readOthers (fuel + 1) ts = .ok (es, rest) ↔
    ts = .closeParen :: rest ∧ es = [] ∨ ∃ us, ts = .comma :: us ∧ readOperands fuel us = .ok (es, rest) := by
  cases ts with
  | nil => simp [readOthers, next, bind, Except.bind]
  | cons t ts => cases t <;> simp [readOthers, next, bind, Except.bind, readOperands, and_comm]

theorem next_eq_ok_iff {t : Token} : next ts = .ok (t, rest) ↔ ts = t :: rest := by
  cases ts <;> simp [next]

theorem expect_eq_ok_iff {t : Token} : expect t ts = .ok rest ↔ ts = t :: rest := by
  simp only [expect, bind_eq_ok_iff, Prod.exists, next_eq_ok_iff]
  constructor
  · rintro ⟨found, us, rfl, h⟩
    split at h
    next heq =>
      cases h
      rw [heq]
    next => cases h
  · rintro rfl
    exact ⟨t, rest, rfl, if_pos rfl⟩

theorem readCount_outOf_eq_ok_iff {count : Option Nat} : readCount .outOf ts = .ok (count, rest) ↔
    ∃ n, 1 ≤ n ∧ count = some n ∧ ts = .number n :: .comma :: rest := by
  simp only [readCount, bind_eq_ok_iff, Prod.exists, next_eq_ok_iff]
  constructor
  · rintro ⟨t, us, rfl, h⟩
    cases t with
    | number n =>
      dsimp only at h
      split at h
      next => cases h
      next hn =>
        obtain ⟨_, hcomma, h⟩ := bind_eq_ok_iff.1 h
        cases h
        exact ⟨n, Nat.one_le_iff_ne_zero.2 hn, rfl, by rw [expect_eq_ok_iff.1 hcomma]⟩
    | openParen | closeParen | comma | ident | quoted => cases h
  · rintro ⟨n, hn, rfl, rfl⟩
    refine ⟨.number n, .comma :: rest, rfl, ?_⟩
    dsimp only
    rw [if_neg (Nat.one_le_iff_ne_zero.1 hn), bind_eq_ok_iff]
    exact ⟨rest, expect_eq_ok_iff.2 rfl, rfl⟩

/-- The name of an operator, in small letters. -/
def Operator.word : Operator → String
  | and => "and"
  | or => "or"
  | outOf => "outof"

theorem Operator.ofName?_eq_some_iff {name : String} {op : Operator} :
    Operator.ofName? name = some op ↔ name.map Char.toLower = op.word := by
  constructor
  · intro h
    rw [ofName?] at h
    split at h
    next hname => cases h; exact hname
    next hname => cases h; exact hname
    next hname => cases h; exact hname
    next => cases h
  · intro h
    rw [ofName?, h]
    cases op <;> rfl

theorem threshold_eq_ok_iff {count : Option Nat} : threshold count es = .ok e ↔
    count.getD es.length ≤ es.length ∧ e = .outOf (count.getD es.length) es := by
  rw [threshold]
  split
  next h => simp [h, eq_comm]
  next h => exact iff_of_false nofun fun h' => h h'.1

/-- The tokens that open a threshold are those that give its count. -/
theorem exists_opens_iff {n : Nat} {us : List Token} (hes : 1 ≤ es.length) :
    (∃ hs, Opens es.length n hs ∧ ts = hs ++ us) ↔
      ∃ name op count vs, ts = .ident name :: .openParen :: vs ∧ Operator.ofName? name = some op ∧
        readCount op vs = .ok (count, us) ∧ threshold count es = .ok (.outOf n es) := by
  simp only [threshold_eq_ok_iff, Operator.ofName?_eq_some_iff, Expr.outOf.injEq, and_true]
  constructor
  · rintro ⟨_, ho, rfl⟩
    cases ho with
    | and hname => exact ⟨_, .and, none, us, rfl, hname, rfl, Nat.le_refl _, rfl⟩
    | or hname => exact ⟨_, .or, some 1, us, rfl, hname, rfl, hes, rfl⟩
    | outOf hname hpos hle =>
      exact ⟨_, .outOf, some n, _, rfl, hname, readCount_outOf_eq_ok_iff.2 ⟨n, hpos, rfl, rfl⟩, hle, rfl⟩
  · rintro ⟨name, op, count, vs, rfl, hname, hcount, hle, rfl⟩
    cases op with
    | and =>
      cases hcount
      exact ⟨_, .and hname, rfl⟩
    | or =>
      cases hcount
      exact ⟨_, .or hname, rfl⟩
    | outOf =>
      obtain ⟨n, hpos, rfl, rfl⟩ := readCount_outOf_eq_ok_iff.1 hcount
      exact ⟨_, .outOf hname hpos hle, rfl⟩

/-- A read expression is a principal, or a threshold over its operands. -/
theorem readExpr_eq_ok_iff : readExpr (fuel + 1) ts = .ok (e, rest) ↔
    (∃ text p, ts = .quoted text :: rest ∧ p.IsSpelledBy text ∧ e = .principal p) ∨
      ∃ n es hs us, Opens es.length n hs ∧ ts = hs ++ us ∧ readOperands fuel us = .ok (es, rest) ∧
        e = .outOf n es := by
  rw [readExpr, bind_eq_ok_iff]
  constructor
  · rintro ⟨⟨t, us⟩, hnext, h⟩
    obtain rfl := next_eq_ok_iff.1 hnext
    cases t with
    | quoted text =>
      obtain ⟨p, hp, h⟩ := bind_eq_ok_iff.1 h
      cases h
      exact .inl ⟨text, p, rfl, principalOf_eq_ok_iff.1 hp, rfl⟩
    | ident name =>
      obtain ⟨vs, hopen, hop⟩ := bind_eq_ok_iff.1 h
      obtain rfl := expect_eq_ok_iff.1 hopen
      dsimp only at hop
      split at hop
      next => cases hop
      next op hname =>
        obtain ⟨⟨count, ws⟩, hcount, h⟩ := bind_eq_ok_iff.1 hop
        obtain ⟨⟨first, xs⟩, hfirst, h⟩ := bind_eq_ok_iff.1 h
        obtain ⟨⟨others, ys⟩, hothers, h⟩ := bind_eq_ok_iff.1 h
        obtain ⟨e', he, h⟩ := bind_eq_ok_iff.1 h
        cases h
        have hes : readOperands fuel ws = .ok (first :: others, ys) :=
          readOperands_eq_ok_iff.2 ⟨first, others, xs, hfirst, hothers, rfl⟩
        obtain ⟨-, rfl⟩ := threshold_eq_ok_iff.1 he
        obtain ⟨hs, ho, hts⟩ := (exists_opens_iff (by simp)).2 ⟨name, op, count, vs, rfl, hname, hcount, he⟩
        exact .inr ⟨_, _, hs, ws, ho, hts, hes, rfl⟩
    | openParen | closeParen | comma | number => cases h
  · rintro (⟨text, p, rfl, hp, rfl⟩ | ⟨n, es, hs, us, ho, hts, hes, rfl⟩)
    · refine ⟨_, next_eq_ok_iff.2 rfl, bind_eq_ok_iff.2 ⟨p, principalOf_eq_ok_iff.2 hp, rfl⟩⟩
    · obtain ⟨first, others, xs, hfirst, hothers, rfl⟩ := readOperands_eq_ok_iff.1 hes
      obtain ⟨name, op, count, vs, rfl, hname, hcount, he⟩ := (exists_opens_iff (by simp)).1 ⟨hs, ho, hts⟩
      refine ⟨_, next_eq_ok_iff.2 rfl, bind_eq_ok_iff.2 ⟨vs, expect_eq_ok_iff.2 rfl, ?_⟩⟩
      simp only [hname, hcount, hfirst, hothers, he, bind, Except.bind]

/-! ## The parser and the grammar -/

theorem Opens.two_le_length {k n : Nat} (h : Opens k n ts) : 2 ≤ ts.length := by
  cases h <;> simp

theorem Spells.length_pos (h : Spells e ts) : 0 < ts.length := by
  cases h with
  | principal => exact Nat.one_pos
  | outOf =>
    rw [List.length_append]
    exact Nat.succ_pos _

/-- What the parser reads is derived. -/
theorem spells_of_read : ∀ {fuel : Nat},
    (∀ {ts e rest}, readExpr fuel ts = .ok (e, rest) → ∃ us, Spells e us ∧ ts = us ++ rest) ∧
    (∀ {ts es rest}, readOperands fuel ts = .ok (es, rest) →
      ∃ us, SpellsAll es us ∧ ts = us ++ .closeParen :: rest)
  | 0 => by
    refine ⟨fun h => ?_, fun h => ?_⟩
    · cases h
    · cases h
  | fuel + 1 => by
    have ih := @spells_of_read fuel
    have hexpr : ∀ {ts e rest}, readExpr (fuel + 1) ts = .ok (e, rest) → ∃ us, Spells e us ∧ ts = us ++ rest := by
      intro ts e rest h
      rcases readExpr_eq_ok_iff.1 h with ⟨text, p, rfl, hp, rfl⟩ | ⟨n, es, hs, us, ho, rfl, hes, rfl⟩
      · exact ⟨_, .principal hp, rfl⟩
      · obtain ⟨vs, hvs, rfl⟩ := ih.2 hes
        exact ⟨_, .outOf ho hvs, by simp⟩
    refine ⟨hexpr, fun h => ?_⟩
    obtain ⟨first, others, us, hfirst, hothers, rfl⟩ := readOperands_eq_ok_iff.1 h
    obtain ⟨vs, hvs, rfl⟩ := hexpr hfirst
    rcases readOthers_eq_ok_iff.1 hothers with ⟨rfl, rfl⟩ | ⟨ws, rfl, hws⟩
    · exact ⟨_, .one hvs, rfl⟩
    · obtain ⟨xs, hxs, rfl⟩ := ih.2 hws
      exact ⟨_, .more hvs hxs, by simp⟩

/-- What is derived is read, by a parser that may take as many tokens. -/
theorem read_of_spells : ∀ {fuel : Nat},
    (∀ {e us rest}, Spells e us → us.length ≤ fuel → readExpr fuel (us ++ rest) = .ok (e, rest)) ∧
    (∀ {es us rest}, SpellsAll es us → us.length < fuel →
      readOperands fuel (us ++ .closeParen :: rest) = .ok (es, rest))
  | 0 => ⟨fun h hlen => absurd h.length_pos (by omega), fun _ hlen => absurd hlen (by omega)⟩
  | fuel + 1 => by
    have ih := @read_of_spells fuel
    have hexpr : ∀ {e us rest}, Spells e us → us.length ≤ fuel + 1 →
        readExpr (fuel + 1) (us ++ rest) = .ok (e, rest) := by
      intro e us rest h hlen
      rw [readExpr_eq_ok_iff]
      cases h with
      | principal hp => exact .inl ⟨_, _, rfl, hp, rfl⟩
      | @outOf n es ts us ho hus =>
        have hts := ho.two_le_length
        have hlt : us.length < fuel := by
          simp only [List.length_append, List.length_cons, List.length_nil] at hlen
          omega
        exact .inr ⟨n, es, ts, us ++ .closeParen :: rest, ho, by simp, ih.2 hus hlt, rfl⟩
    refine ⟨hexpr, fun {es us rest} h hlen => ?_⟩
    rw [readOperands_eq_ok_iff]
    cases h with
    | one h =>
      exact ⟨_, [], .closeParen :: rest, hexpr h (Nat.le_of_lt hlen), readOthers_eq_ok_iff.2 (.inl ⟨rfl, rfl⟩), rfl⟩
    | @more e es ts us h hs =>
      have hts := h.length_pos
      simp only [List.length_append, List.length_cons] at hlen
      have hothers : readOthers (fuel + 1) (.comma :: us ++ .closeParen :: rest) = .ok (es, rest) :=
        readOthers_eq_ok_iff.2 (.inr ⟨_, rfl, ih.2 hs (by omega)⟩)
      refine ⟨e, es, .comma :: us ++ .closeParen :: rest, ?_, hothers, rfl⟩
      rw [List.append_assoc]
      exact hexpr h (by omega)

/-- The parser reads the expression that a text spells, and no other text. -/
theorem parseExpr_eq_ok_iff {s : String} : parseExpr s = .ok e ↔ e.IsSpelledBy s := by
  rw [parseExpr, bind_eq_ok_iff, Expr.IsSpelledBy]
  simp only [tokens_eq_ok_iff]
  constructor
  · rintro ⟨ts, hts, h⟩
    obtain ⟨⟨e', rest⟩, he, hrest⟩ := bind_eq_ok_iff.1 h
    obtain ⟨us, hus, hus'⟩ := spells_of_read.1 he
    cases rest with
    | nil =>
      cases hrest
      exact ⟨us, by rwa [hus', List.append_nil] at hts, hus⟩
    | cons => cases hrest
  · rintro ⟨ts, hts, h⟩
    have hread : readExpr (ts.length + 1) (ts ++ []) = .ok (e, []) := read_of_spells.1 h (Nat.le_succ _)
    rw [List.append_nil] at hread
    exact ⟨ts, hts, bind_eq_ok_iff.2 ⟨_, hread, rfl⟩⟩

theorem ofPolicy_eq_ok_iff {α : Type} {x : Except Fault α} {y : α} :
    ClientError.ofPolicy x = .ok y ↔ x = .ok y :=
  mapError_eq_ok_iff

theorem exists_ofPolicy_eq_error_iff {α : Type} {x : Except Fault α} :
    (∃ fault, ClientError.ofPolicy x = .error (.invalidPolicy fault)) ↔ ¬ ∃ y, x = .ok y := by
  constructor
  · rintro ⟨fault, h⟩ ⟨y, rfl⟩
    cases h
  · intro h
    cases x with
    | ok y => exact absurd ⟨y, rfl⟩ h
    | error fault => exact ⟨fault, rfl⟩

/-- **Exactly the grammar is accepted.** A text is accepted as a policy if and only if it spells an
expression, however deep operators nest in it, and what is returned is that expression's policy.
Every other text is refused as an invalid policy. -/
theorem parse_accepts_grammar (s : String) :
    (∀ policy, ClientError.ofPolicy (parse s) = .ok policy ↔ ∃ e : Expr, e.IsSpelledBy s ∧ e.toPolicy = policy) ∧
      ((∃ fault, ClientError.ofPolicy (parse s) = .error (.invalidPolicy fault)) ↔
        ¬ ∃ e : Expr, e.IsSpelledBy s) := by
  have hok : ∀ policy, parse s = .ok policy ↔ ∃ e : Expr, e.IsSpelledBy s ∧ e.toPolicy = policy := fun policy => by
    simp only [parse, map_eq_ok_iff, parseExpr_eq_ok_iff]
  refine ⟨fun policy => ofPolicy_eq_ok_iff.trans (hok policy), exists_ofPolicy_eq_error_iff.trans (not_congr ?_)⟩
  constructor
  · rintro ⟨policy, h⟩
    obtain ⟨e, he, -⟩ := (hok policy).1 h
    exact ⟨e, he⟩
  · rintro ⟨e, he⟩
    exact ⟨e.toPolicy, (hok _).2 ⟨e, he, rfl⟩⟩

end LedgerClient.Policy
