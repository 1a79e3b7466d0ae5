/-
What the policy of a text looks like.

A text's quoted tokens are the principals of its expression in reading order
(`spelled_principals`), and every threshold in it can be met (`Spells.sound`).
The rule of an expression names the places of its principals one after the other
from its own start on (`Expr.places_rule`). So the list of identities follows the
quoted texts one by one, repetitions kept, and the rule counts through it.
-/
import LedgerClient.Proofs.Policy.Grammar
import LedgerClient.Proofs.Policy.Meaning

namespace LedgerClient

open Protocol Policy

/-! ## Rules -/

namespace Protocol.SignaturePolicy

mutual
/-- The places in the list of identities that a rule names, from left to right. -/
def places : SignaturePolicy → List Int32
  | unset => []
  | signedBy index => [index]
  | nOutOf _ rules => placesOf rules

def placesOf : List SignaturePolicy → List Int32
  | [] => []
  | r :: rs => r.places ++ placesOf rs
end

/-- Every threshold in the rule is over one rule at least, and asks for one of them at least and for no more than
there are. -/
inductive Meetable : SignaturePolicy → Prop
  | signedBy {index : Int32} : Meetable (signedBy index)
  | nOutOf {n : Int32} {rules : List SignaturePolicy} (hne : rules ≠ []) (hpos : 1 ≤ n.toInt)
      (hle : n.toInt ≤ rules.length) (h : ∀ r ∈ rules, Meetable r) : Meetable (nOutOf n rules)

end Protocol.SignaturePolicy

/-- The identity is of the kind that is a role, classification 0, and is the role that a quoted text spells. -/
def Protocol.MspPrincipal.Names (m : MspPrincipal) (text : String) : Prop :=
  ∃ p : Principal, p.IsSpelledBy text ∧ m.classification = 0 ∧
    Wire.decode? MspRole m.principal = some { mspId := p.mspId, role := p.role.code }

namespace Policy

namespace Expr

mutual
/-- A rule names the places from its start on, one for each principal. -/
theorem places_rule : ∀ (e : Expr) (start : Nat),
    (e.rule start).places = (List.range' start e.principals.length).map Int32.ofNat
  | .principal _, _ => rfl
  | .outOf _ es, start => places_rulesFrom es start

theorem places_rulesFrom : ∀ (es : List Expr) (start : Nat), SignaturePolicy.placesOf (rulesFrom start es) =
    (List.range' start (principalsOfAll es).length).map Int32.ofNat
  | [], _ => rfl
  | e :: es, start => by
    rw [rulesFrom, SignaturePolicy.placesOf, places_rule, places_rulesFrom, principalsOfAll, List.length_append,
      ← List.range'_append_1, List.map_append]
end

theorem length_rulesFrom : ∀ (es : List Expr) (start : Nat), (rulesFrom start es).length = es.length
  | [], _ => rfl
  | _ :: es, _ => congrArg (· + 1) (length_rulesFrom es _)

mutual
theorem Sound.meetable_rule : ∀ {e : Expr} {start : Nat}, e.Sound → e.principals.length < 2 ^ 31 →
    (e.rule start).Meetable
  | .principal _, _, _, _ => .signedBy
  | .outOf n es, start, hsound, hlength => by
    cases hsound with
    | outOf hpos hle hes =>
      rw [principals] at hlength
      have hcount := length_le_principals hes
      have hrules := length_rulesFrom es start
      have hn : (Int32.ofNat n).toInt = n := Int32.toInt_ofNat_of_lt (by omega)
      exact .nOutOf (List.ne_nil_of_length_pos (by omega)) (by omega) (by omega) (meetable_rulesFrom hes hlength)

theorem meetable_rulesFrom : ∀ {es : List Expr} {start : Nat}, (∀ e ∈ es, e.Sound) →
    (principalsOfAll es).length < 2 ^ 31 → ∀ r ∈ rulesFrom start es, r.Meetable
  | [], _, _, _ => nofun
  | e :: es, _, hsound, hlength => by
    rw [principalsOfAll, List.length_append] at hlength
    refine List.forall_mem_cons.2 ⟨(hsound e List.mem_cons_self).meetable_rule (by omega), ?_⟩
    exact meetable_rulesFrom (fun x hx => hsound x (List.mem_cons_of_mem e hx)) (by omega)
end

end Expr

/-! ## Texts -/

/-- The quoted texts among tokens. -/
def quotedTexts (ts : List Token) : List String :=
  ts.filterMap fun
    | .quoted text => some text
    | _ => none

section Texts

variable {e : Expr} {es : List Expr} {k n : Nat} {cs : List Char} {ts us : List Token} {text : String}

theorem quotedTexts_append : quotedTexts (ts ++ us) = quotedTexts ts ++ quotedTexts us := List.filterMap_append

theorem mem_quotedTexts : text ∈ quotedTexts ts ↔ .quoted text ∈ ts := by
  simp only [quotedTexts, List.mem_filterMap]
  constructor
  · rintro ⟨t, ht, h⟩
    split at h
    next =>
      cases h
      exact ht
    next => cases h
  · exact fun h => ⟨_, h, rfl⟩

theorem Opens.quotedTexts (h : Opens k n ts) : quotedTexts ts = [] := by
  cases h <;> rfl

mutual
/-- The quoted texts spell the principals, one by one. -/
theorem spelled_principals : ∀ {e : Expr} {ts : List Token}, Spells e ts →
    List.Forall₂ (fun text p => p.IsSpelledBy text) (quotedTexts ts) e.principals
  | _, _, .principal h => .cons h .nil
  | _, _, @Spells.outOf n es ts us ho h => by
    have hclose : quotedTexts [.closeParen] = [] := rfl
    rw [quotedTexts_append, quotedTexts_append, ho.quotedTexts, hclose, List.nil_append, List.append_nil,
      Expr.principals]
    exact spelled_principalsOfAll h

theorem spelled_principalsOfAll : ∀ {es : List Expr} {ts : List Token}, SpellsAll es ts →
    List.Forall₂ (fun text p => p.IsSpelledBy text) (quotedTexts ts) (Expr.principalsOfAll es)
  | _, _, @SpellsAll.one e ts h => by
    rw [Expr.principalsOfAll, Expr.principalsOfAll, List.append_nil]
    exact spelled_principals h
  | _, _, @SpellsAll.more e es ts us h hs => by
    have hcomma : quotedTexts (.comma :: us) = quotedTexts us := rfl
    rw [quotedTexts_append, hcomma, Expr.principalsOfAll]
    exact List.rel_append (spelled_principals h) (spelled_principalsOfAll hs)
end

theorem SpellsAll.length_pos (h : SpellsAll es ts) : 1 ≤ es.length := by
  cases h <;> simp

theorem Opens.bounds (h : Opens k n ts) (hk : 1 ≤ k) : 1 ≤ n ∧ n ≤ k := by
  cases h with
  | and => exact ⟨hk, Nat.le_refl _⟩
  | or => exact ⟨Nat.le_refl _, hk⟩
  | outOf _ hpos hle => exact ⟨hpos, hle⟩

mutual
theorem Spells.sound : ∀ {e : Expr} {ts : List Token}, Spells e ts → e.Sound
  | _, _, .principal _ => .principal
  | _, _, .outOf ho h => .outOf (ho.bounds h.length_pos).1 (ho.bounds h.length_pos).2 h.sound

theorem SpellsAll.sound : ∀ {es : List Expr} {ts : List Token}, SpellsAll es ts → ∀ e ∈ es, e.Sound
  | _, _, .one h => List.forall_mem_cons.2 ⟨h.sound, nofun⟩
  | _, _, .more h hs => List.forall_mem_cons.2 ⟨h.sound, hs.sound⟩
end

theorem Lexeme.length_lt (h : Lexeme cs (some (.quoted text))) : text.length < cs.length := by
  cases h with
  | mark hc => simp [marks] at hc
  | quoted hq h =>
    simp only [String.length_ofList, List.length_cons, List.length_append, List.length_nil]
    omega

/-- Every token takes a character at least, and a quoted one more than are in its text. -/
theorem Splits.length_le (h : Splits cs ts) :
    ts.length ≤ cs.length ∧ ∀ text ∈ quotedTexts ts, text.length ≤ cs.length := by
  induction h with
  | nil => exact ⟨Nat.le_refl _, nofun⟩
  | @cons _ rest t? ts h _ _ ih =>
    obtain ⟨lexeme, rfl, hlex, -⟩ := h
    have hpos : 0 < lexeme.length := List.length_pos_iff.2 hlex.ne_nil
    simp only [List.length_append, quotedTexts_append, List.mem_append]
    refine ⟨?_, ?_⟩
    · have ht : t?.toList.length ≤ 1 := by cases t? <;> simp
      omega
    · rintro text (ht | ht)
      · rw [Option.mem_toList.1 (mem_quotedTexts.1 ht)] at hlex
        have := hlex.length_lt
        omega
      · have := ih.2 text ht
        omega

end Texts

/-! ## Policies -/

/-- The identity of a principal names its text. -/
theorem Principal.IsSpelledBy.names {p : Principal} {text : String} (h : p.IsSpelledBy text)
    (hlength : text.length < 2 ^ 31) : p.toMsp.Names text := by
  have hmsp : p.mspId.length ≤ text.length := by
    rw [h.2, String.length_append, String.length_append]
    omega
  have hstorable : p.IsStorable := by
    have := Utf8.length_encode_le p.mspId
    rw [Principal.IsStorable]
    omega
  exact ⟨p, h, rfl, decode_toMsp hstorable⟩

/-- **The shape of accepted policies.** The identities are the principals that the quoted texts spell, in the order in
which the texts are read and as often; the rule names their places one after the other; every threshold is over one
rule at least and asks for one at least and for no more than there are. -/
theorem identities_in_reading_order {s : String} {policy : SignaturePolicyEnvelope} (hlength : s.length < 2 ^ 31)
    (h : parse s = .ok policy) : ∃ ts rule, Splits s.toList ts ∧ policy.rule = some rule ∧
      List.Forall₂ (fun text m => m.Names text) (quotedTexts ts) policy.identities ∧
      rule.places.map (·.toInt) = (List.range (quotedTexts ts).length).map Int.ofNat ∧ rule.Meetable := by
  obtain ⟨e, he, rfl⟩ := map_eq_ok_iff.1 h
  obtain ⟨ts, hts, hspells⟩ := parseExpr_eq_ok_iff.1 he
  have hspelled := spelled_principals hspells
  obtain ⟨hcount, htexts⟩ := hts.length_le
  have hle : (quotedTexts ts).length ≤ ts.length := List.length_filterMap_le _ _
  have hprincipals : e.principals.length < 2 ^ 31 := by
    rw [← hspelled.length_eq]
    exact Nat.lt_of_le_of_lt (Nat.le_trans hle hcount) hlength
  refine ⟨ts, e.rule 0, hts, rfl, ?_, ?_, hspells.sound.meetable_rule hprincipals⟩
  · have hnamed :
        List.Forall₂ (fun text p => text.length < 2 ^ 31 ∧ p.IsSpelledBy text) (quotedTexts ts) e.principals :=
      (List.forall₂_and_left _ _).2 ⟨fun text ht => Nat.lt_of_le_of_lt (htexts text ht) hlength, hspelled⟩
    exact List.forall₂_map_right_iff.2 (hnamed.imp fun _ _ h => h.2.names h.1)
  · rw [Expr.places_rule, hspelled.length_eq, List.map_map, List.range_eq_range']
    refine List.map_congr_left fun i hi => ?_
    exact Int32.toInt_ofNat_of_lt (Nat.lt_trans (by simpa using hi) hprincipals)

def repeatedText : String := "OutOf(2, 'A.member', or('B.c.peer', \"A.member\"))"

def repeatedTokens : List Token :=
  [.ident "OutOf", .openParen, .number 2, .comma, .quoted "A.member", .comma, .ident "or", .openParen,
    .quoted "B.c.peer", .comma, .quoted "A.member", .closeParen, .closeParen]

def repeatedExpr : Expr :=
  .outOf 2 [.principal ⟨"A", .member⟩, .outOf 1 [.principal ⟨"B.c", .peer⟩, .principal ⟨"A", .member⟩]]

theorem tokens_repeatedText : tokens repeatedText = .ok repeatedTokens := by decide +kernel

theorem parseExpr_repeatedText : parseExpr repeatedText = .ok repeatedExpr := by
  have hmember : Spells (.principal ⟨"A", .member⟩) [.quoted "A.member"] := .principal ⟨by decide, by decide⟩
  have hpeer : Spells (.principal ⟨"B.c", .peer⟩) [.quoted "B.c.peer"] := .principal ⟨by decide, by decide⟩
  have hspells : Spells repeatedExpr repeatedTokens :=
    .outOf (.outOf (by decide +kernel) (by decide) (by decide))
      (.more hmember (.one (.outOf (.or (by decide +kernel)) (.more hpeer (.one hmember)))))
  exact parseExpr_eq_ok_iff.2 ⟨_, tokens_eq_ok_iff.1 tokens_repeatedText, hspells⟩

/-- An organization that is named twice has two entries, and the dot in a name is not the last one. -/
theorem identities_in_reading_order_repeated : ∃ policy ts rule, parse repeatedText = .ok policy ∧
    policy.rule = some rule ∧ quotedTexts ts = ["A.member", "B.c.peer", "A.member"] ∧
    List.Forall₂ (fun text m => m.Names text) (quotedTexts ts) policy.identities ∧
    rule.places.map (·.toInt) = [0, 1, 2] ∧ rule.Meetable := by
  have hparse : parse repeatedText = .ok repeatedExpr.toPolicy := map_eq_ok_iff.2 ⟨_, parseExpr_repeatedText, rfl⟩
  obtain ⟨ts, rule, hts, hrule, hnames, hplaces, hmeetable⟩ := identities_in_reading_order (by decide) hparse
  obtain rfl : ts = repeatedTokens := Except.ok.inj ((tokens_eq_ok_iff.2 hts).symm.trans tokens_repeatedText)
  exact ⟨_, _, rule, hparse, hrule, rfl, hnames, hplaces, hmeetable⟩

end Policy

end LedgerClient
