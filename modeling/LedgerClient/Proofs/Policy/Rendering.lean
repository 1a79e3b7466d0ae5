/-
Policies mean what they say.

A formula is a tree of AND, OR and OutOf over principals. Its text is a row of
pieces with any white space between them (`Layout`); a name or a number always
has a mark behind it, so that no two pieces run into one token
(`reads_run`). Whatever follows, the pieces of a formula split into tokens that
spell its expression (`reads_pieces`), and the policy of that expression is
satisfied by whoever makes the formula true (`policies_mean_what_they_say`).
-/
import LedgerClient.Proofs.Policy.Grammar
import LedgerClient.Proofs.Policy.Meaning

namespace LedgerClient.Policy

/-! ## Formulas -/

/-- How a formula takes its operands together. -/
inductive Gate where
  | and
  | or
  /-- At least `n` of them. -/
  | outOf (n : Nat)
  deriving DecidableEq

/-- A policy as it is meant. -/
inductive Formula where
  | principal (p : Principal)
  | gate (g : Gate) (fs : List Formula)

namespace Gate

def holds : Gate → List Bool → Bool
  | and, bs => bs.all id
  | or, bs => bs.any id
  | outOf n, bs => n ≤ bs.count true

/-- How many of `k` operands are asked for. -/
def threshold (k : Nat) : Gate → Nat
  | and => k
  | or => 1
  | outOf n => n

/-- A number of operands to choose is at least one, and there are as many. -/
def Fits (k : Nat) : Gate → Prop
  | and | or => 1 ≤ k
  | outOf n => 1 ≤ n ∧ n ≤ k

instance (k : Nat) : (g : Gate) → Decidable (g.Fits k)
  | and | or => inferInstanceAs (Decidable (1 ≤ k))
  | outOf n => inferInstanceAs (Decidable (1 ≤ n ∧ n ≤ k))

theorem Fits.threshold {k : Nat} {g : Gate} (h : g.Fits k) : 1 ≤ g.threshold k ∧ g.threshold k ≤ k := by
  cases g with
  | and => exact ⟨h, Nat.le_refl k⟩
  | or => exact ⟨Nat.le_refl 1, h⟩
  | outOf n => exact h

theorem holds_eq (g : Gate) (bs : List Bool) : g.holds bs = decide (g.threshold bs.length ≤ bs.count true) := by
  cases g with
  | and =>
    have hall : bs.length ≤ bs.count true ↔ ∀ b ∈ bs, true = b := by
      rw [← List.count_eq_length]
      exact ⟨fun h => Nat.le_antisymm List.count_le_length h, fun h => Nat.le_of_eq h.symm⟩
    rw [Bool.eq_iff_iff, decide_eq_true_iff, threshold, hall]
    exact List.all_eq_true.trans (forall₂_congr fun _ _ => eq_comm)
  | or =>
    have hany : 1 ≤ bs.count true ↔ true ∈ bs := List.count_pos_iff
    rw [Bool.eq_iff_iff, decide_eq_true_iff, threshold, hany]
    simp [holds]
  | outOf n => rfl

end Gate

namespace Formula

mutual
def holds (v : Principal → Bool) : Formula → Bool
  | principal p => v p
  | gate g fs => g.holds (holdsOf v fs)

def holdsOf (v : Principal → Bool) : List Formula → List Bool
  | [] => []
  | f :: fs => f.holds v :: holdsOf v fs
end

mutual
/-- The principals, each as often as it occurs. -/
def principals : Formula → List Principal
  | principal p => [p]
  | gate _ fs => principalsOf fs

def principalsOf : List Formula → List Principal
  | [] => []
  | f :: fs => f.principals ++ principalsOf fs
end

/-- Every gate has operands, and as many as it asks for; every organization has a name. -/
inductive WellFormed : Formula → Prop
  | principal {p : Principal} (h : p.mspId ≠ "") : WellFormed (principal p)
  | gate {g : Gate} {fs : List Formula} (hg : g.Fits fs.length) (h : ∀ f ∈ fs, WellFormed f) :
      WellFormed (gate g fs)

mutual
/-- The formula as thresholds. -/
def toExpr : Formula → Expr
  | principal p => .principal p
  | gate g fs => .outOf (g.threshold fs.length) (toExprs fs)

def toExprs : List Formula → List Expr
  | [] => []
  | f :: fs => f.toExpr :: toExprs fs
end

theorem length_toExprs : ∀ fs : List Formula, (toExprs fs).length = fs.length
  | [] => rfl
  | _ :: fs => congrArg Nat.succ (length_toExprs fs)

theorem length_holdsOf (v : Principal → Bool) : ∀ fs : List Formula, (holdsOf v fs).length = fs.length
  | [] => rfl
  | _ :: fs => congrArg Nat.succ (length_holdsOf v fs)

theorem exists_of_mem_toExprs {e : Expr} : ∀ {fs : List Formula}, e ∈ toExprs fs → ∃ f ∈ fs, f.toExpr = e
  | f :: fs, h => by
    rcases List.mem_cons.1 h with rfl | h
    · exact ⟨f, List.mem_cons_self, rfl⟩
    · obtain ⟨f', hf', he⟩ := exists_of_mem_toExprs h
      exact ⟨f', List.mem_cons_of_mem f hf', he⟩

mutual
theorem principals_toExpr : ∀ f : Formula, f.toExpr.principals = f.principals
  | principal _ => rfl
  | gate _ fs => principalsOf_toExprs fs

theorem principalsOf_toExprs : ∀ fs : List Formula, Expr.principalsOfAll (toExprs fs) = principalsOf fs
  | [] => rfl
  | f :: fs => by
    rw [toExprs, Expr.principalsOfAll, principals_toExpr f, principalsOf_toExprs fs, principalsOf]
end

mutual
theorem holds_toExpr (v : Principal → Bool) : ∀ f : Formula, f.toExpr.holds v = f.holds v
  | principal _ => rfl
  | gate g fs => by
    rw [toExpr, Expr.holds, holdsOf_toExprs v fs, holds, Gate.holds_eq, length_holdsOf]

theorem holdsOf_toExprs (v : Principal → Bool) : ∀ fs : List Formula, Expr.holdsOf v (toExprs fs) = holdsOf v fs
  | [] => rfl
  | f :: fs => by rw [toExprs, Expr.holdsOf, holds_toExpr v f, holdsOf_toExprs v fs, holdsOf]
end

theorem WellFormed.sound {f : Formula} (h : f.WellFormed) : f.toExpr.Sound := by
  induction h with
  | principal => exact .principal
  | @gate g fs hg h ih =>
    obtain ⟨hpos, hle⟩ := hg.threshold
    refine .outOf hpos (by rwa [length_toExprs]) fun e he => ?_
    obtain ⟨f, hf, rfl⟩ := exists_of_mem_toExprs he
    exact ih f hf

/-- There are no more operands than principals. -/
theorem length_le_principalsOf {fs : List Formula} (h : ∀ f ∈ fs, f.WellFormed) :
    fs.length ≤ (principalsOf fs).length := by
  rw [← length_toExprs, ← principalsOf_toExprs]
  refine Expr.length_le_principals fun e he => ?_
  obtain ⟨f, hf, rfl⟩ := exists_of_mem_toExprs he
  exact (h f hf).sound

end Formula

/-! ## Renderings -/

/-- A principal as it stands between quotes. -/
def Principal.text (p : Principal) : List Char := p.mspId.toList ++ '.' :: p.role.policyName.toList

/-- The pieces up to the first operand: a name in any case, and the count with any zeros in front. -/
inductive Gate.Opening : Gate → List (List Char) → Prop
  | and {name : String} (h : name.map Char.toLower = "and") : Opening .and [name.toList, ['(']]
  | or {name : String} (h : name.map Char.toLower = "or") : Opening .or [name.toList, ['(']]
  | outOf {name : String} {n zeros : Nat} (h : name.map Char.toLower = "outof") :
      Opening (.outOf n) [name.toList, ['('], List.replicate zeros '0' ++ Nat.toDigits 10 n, [',']]

mutual
/-- The pieces of a formula's text. -/
inductive Pieces : Formula → List (List Char) → Prop
  | principal {p : Principal} {q : Char} (hq : q = '\'' ∨ q = '"') (h : q ∉ p.text) :
      Pieces (.principal p) [q :: (p.text ++ [q])]
  | gate {g : Gate} {fs : List Formula} {ps qs : List (List Char)} (hg : g.Opening ps) (h : PiecesOf fs qs) :
      Pieces (.gate g fs) (ps ++ qs ++ [[')']])

/-- The pieces of one operand or more, with a comma between two of them. -/
inductive PiecesOf : List Formula → List (List Char) → Prop
  | one {f : Formula} {ps : List (List Char)} (h : Pieces f ps) : PiecesOf [f] ps
  | more {f : Formula} {fs : List Formula} {ps qs : List (List Char)} (h : Pieces f ps) (hs : PiecesOf fs qs) :
      PiecesOf (f :: fs) (ps ++ [','] :: qs)
end

/-- Pieces in a row, with any white space before each of them and after the last. -/
inductive Layout : List (List Char) → List Char → Prop
  | nil {blanks : List Char} (hb : ∀ c ∈ blanks, Text.isBlank c) : Layout [] blanks
  | cons {blanks piece cs : List Char} {ps : List (List Char)} (hb : ∀ c ∈ blanks, Text.isBlank c)
      (h : Layout ps cs) : Layout (piece :: ps) (blanks ++ piece ++ cs)

/-- The texts of a formula. -/
def Formula.IsRenderedBy (f : Formula) (s : String) : Prop := ∃ ps, Pieces f ps ∧ Layout ps s.toList

/-! ## Pieces and tokens -/

/-- However these pieces are laid out, the text splits into these tokens. -/
def SplitsTo (ps : List (List Char)) (ts : List Token) : Prop := ∀ cs, Layout ps cs → Splits cs ts

/-- The pieces give these tokens, whatever follows. -/
def Reads (ps : List (List Char)) (ts : List Token) : Prop :=
  ∀ qs us, SplitsTo qs us → SplitsTo (ps ++ qs) (ts ++ us)

section Reads

variable {ps qs : List (List Char)} {ts us : List Token} {cs : List Char} {c : Char} {t : Token}

theorem splits_append_of_blank : ∀ {blanks : List Char}, (∀ c ∈ blanks, Text.isBlank c) → Splits cs ts →
    Splits (blanks ++ cs) ts
  | [], _, h => h
  | c :: blanks, hb, h => by
    have hc : Text.isBlank c := hb c List.mem_cons_self
    have hlong : Longest (c :: (blanks ++ cs)) none (blanks ++ cs) :=
      .of_single (.blank hc) fun _ _ hlex => (hlex.of_isBlank hc).2
    exact .cons hlong nofun (splits_append_of_blank (fun d hd => hb d (List.mem_cons_of_mem c hd)) h)

theorem splitsTo_nil : SplitsTo [] [] := by
  rintro cs ⟨hb⟩
  rw [← cs.append_nil]
  exact splits_append_of_blank hb .nil

theorem Reads.append (h : Reads ps ts) (h' : Reads qs us) : Reads (ps ++ qs) (ts ++ us) := by
  intro rs vs hrest
  rw [List.append_assoc, List.append_assoc]
  exact h _ _ (h' _ _ hrest)

theorem Reads.splitsTo (h : Reads ps ts) : SplitsTo ps ts := by
  have hall := h [] [] splitsTo_nil
  rwa [List.append_nil, List.append_nil] at hall

/-- A piece that is a token whatever stands behind it. -/
theorem reads_of_longest {piece : List Char} (hlong : ∀ cs, Longest (piece ++ cs) (some t) cs) (ht : t.InRange) :
    Reads [piece] [t] := by
  rintro qs us hrest _ (_ | ⟨hb, hl⟩)
  rw [List.append_assoc]
  exact splits_append_of_blank hb (.cons (hlong _) (by rintro _ ⟨⟩; exact ht) (hrest _ hl))

theorem reads_mark (h : (c, t) ∈ marks) (ht : t.InRange) : Reads [[c]] [t] :=
  reads_of_longest (fun _ => .of_single (.mark h) fun _ _ hlex => (hlex.of_mark h).2) ht

theorem reads_quoted {q : Char} {text : List Char} (hq : q = '\'' ∨ q = '"') (h : q ∉ text) :
    Reads [q :: (text ++ [q])] [.quoted (String.ofList text)] := by
  refine reads_of_longest (fun cs => ?_) trivial
  have hlong : Longest (q :: (text ++ q :: cs)) _ cs := .of_quoted hq h
  simpa using hlong

/-- A piece that is a token unless it is carried on, in front of a mark that does not carry it on. -/
theorem reads_run {piece : List Char} {k : Char → Bool} {t' : Token}
    (hlong : ∀ cs, (∀ d ∈ cs.head?, ¬ k d) → Longest (piece ++ cs) (some t) cs) (ht : t.InRange)
    (hblank : ∀ d, Text.isBlank d → ¬ k d) (hm : (c, t') ∈ marks) (hc : ¬ k c) (ht' : t'.InRange) :
    Reads [piece, [c]] [t, t'] := by
  rintro qs us hrest _ (_ | @⟨blanks, _, cs, _, hb, hl⟩)
  rw [List.append_assoc]
  refine splits_append_of_blank hb (.cons (hlong cs ?_) (by rintro _ ⟨⟩; exact ht)
    (reads_mark hm ht' qs us hrest cs hl))
  -- what follows the piece is white space or the mark
  rcases hl with _ | @⟨blanks, _, cs, _, hb, _⟩
  cases blanks with
  | nil =>
    rintro d ⟨⟩
    exact hc
  | cons d blanks =>
    rintro _ ⟨⟩
    exact hblank d (hb d List.mem_cons_self)

/-! Runs of letters and digits. -/

theorem takeWhile_append_stop {k : Char → Bool} {run : List Char} (h : ∀ d ∈ run, k d)
    (hcs : ∀ d ∈ cs.head?, ¬ k d) : (run ++ cs).takeWhile k = run ∧ (run ++ cs).dropWhile k = cs := by
  rw [List.takeWhile_append_of_pos h, List.dropWhile_append_of_pos h]
  cases cs with
  | nil => simp
  | cons d cs => simp [hcs d rfl]

theorem longest_ident {name : List Char} (hc : c.isAlpha) (h : ∀ d ∈ name, d.isAlphanum)
    (hcs : ∀ d ∈ cs.head?, ¬ d.isAlphanum) :
    Longest (c :: name ++ cs) (some (.ident (String.ofList (c :: name)))) cs := by
  have hlong : Longest (c :: (name ++ cs)) _ _ := .of_isAlpha hc
  obtain ⟨htake, hdrop⟩ := takeWhile_append_stop h hcs
  rwa [htake, hdrop] at hlong

theorem longest_number {digits : List Char} (hne : digits ≠ []) (h : ∀ d ∈ digits, d.isDigit)
    (hcs : ∀ d ∈ cs.head?, ¬ d.isDigit) : Longest (digits ++ cs) (some (.number (numberOf digits))) cs := by
  obtain ⟨c, digits, rfl⟩ := List.exists_cons_of_ne_nil hne
  have hlong : Longest (c :: (digits ++ cs)) _ _ := .of_isDigit (h c List.mem_cons_self)
  obtain ⟨htake, hdrop⟩ := takeWhile_append_stop (fun d hd => h d (List.mem_cons_of_mem c hd)) hcs
  rwa [htake, hdrop] at hlong

theorem isAlpha_of_toLower (h : c.toLower.isAlpha) : c.isAlpha := by
  by_cases hc : c.val ≥ 'A'.val ∧ c.val ≤ 'Z'.val
  · exact Bool.or_eq_true_iff.2 (.inl (decide_eq_true hc))
  · have hsame : c.toLower = c := dif_neg hc
    rwa [hsame] at h

theorem reads_name {name word : String} (h : name.map Char.toLower = word) (hne : word ≠ "")
    (hword : word.toList.all Char.isAlpha) : Reads [name.toList, ['(']] [.ident name, .openParen] := by
  have hlist : name.toList.map Char.toLower = word.toList := by rw [← h, String.toList_map]
  have halpha : ∀ c ∈ name.toList, c.isAlpha := fun c hc =>
    isAlpha_of_toLower (List.all_eq_true.1 hword _ (hlist ▸ List.mem_map_of_mem hc))
  obtain ⟨c, cs, hname⟩ : ∃ c cs, name.toList = c :: cs := by
    refine List.exists_cons_of_ne_nil fun hnil => hne ?_
    rw [hnil, List.map_nil] at hlist
    exact String.toList_eq_nil_iff.1 hlist.symm
  rw [hname] at halpha ⊢
  have hident : Token.ident name = .ident (String.ofList (c :: cs)) := by rw [← hname, String.ofList_toList]
  rw [hident]
  refine reads_run (fun rest => longest_ident (halpha c List.mem_cons_self) fun d hd => ?_) trivial
    (fun d hd hk => ?_) (by decide) (by decide) trivial
  · exact Bool.or_eq_true_iff.2 (.inl (halpha d (List.mem_cons_of_mem c hd)))
  · rcases Bool.or_eq_true_iff.1 hk with hk | hk
    · exact absurd hd (by simp [isBlank_of_isAlpha hk])
    · exact absurd hd (by simp [isBlank_of_isDigit hk])

theorem numberOf_rendered (zeros n : Nat) : numberOf (List.replicate zeros '0' ++ Nat.toDigits 10 n) = n := by
  have heq (digits : List Char) : numberOf digits = Nat.ofDigitChars 10 digits 0 :=
    Nat.ofDigitChars_eq_foldl.symm
  rw [heq, Nat.ofDigitChars_append, Nat.ofDigitChars_replicate_zero, Nat.mul_zero, Nat.ofDigitChars_ten_toDigits]

theorem reads_number {zeros n : Nat} (hn : n < 2 ^ 31) :
    Reads [List.replicate zeros '0' ++ Nat.toDigits 10 n, [',']] [.number n, .comma] := by
  have hdigits : ∀ d ∈ List.replicate zeros '0' ++ Nat.toDigits 10 n, d.isDigit := by
    intro d hd
    rcases List.mem_append.1 hd with hd | hd
    · rw [(List.mem_replicate.1 hd).2]
      rfl
    · exact Nat.isDigit_of_mem_toDigits (by decide) (by decide) hd
  have hne : List.replicate zeros '0' ++ Nat.toDigits 10 n ≠ [] :=
    List.append_ne_nil_of_right_ne_nil _ Nat.toDigits_ne_nil
  rw [← numberOf_rendered zeros n] at hn
  have hreads : Reads [List.replicate zeros '0' ++ Nat.toDigits 10 n, [',']] [.number (numberOf _), .comma] :=
    reads_run (fun rest => longest_number hne hdigits) hn
      (fun d hd hk => absurd hd (by simp [isBlank_of_isDigit hk])) (by decide) (by decide) trivial
  rwa [numberOf_rendered] at hreads

/-- What opens a gate is read as what opens a threshold. -/
theorem Gate.Opening.exists_opens {g : Gate} {k : Nat} (h : g.Opening ps) (hg : g.Fits k) (hk : k < 2 ^ 31) :
    ∃ ts, Opens k (g.threshold k) ts ∧ Reads ps ts := by
  cases h with
  | and h => exact ⟨_, .and h, reads_name h (by decide) (by decide)⟩
  | or h => exact ⟨_, .or h, reads_name h (by decide) (by decide)⟩
  | outOf h =>
    have hn := Nat.lt_of_le_of_lt hg.2 hk
    exact ⟨_, .outOf h hg.1 hg.2, (reads_name h (by decide) (by decide)).append (reads_number hn)⟩

end Reads

/-! ## Formulas and their texts -/

theorem Principal.isSpelledBy_text {p : Principal} (h : p.mspId ≠ "") : p.IsSpelledBy (String.ofList p.text) := by
  refine ⟨h, ?_⟩
  rw [← String.toList_inj]
  simp [Principal.text]

mutual
/-- The pieces of a formula are read as tokens of its expression. -/
theorem exists_spells : ∀ {f : Formula} {ps : List (List Char)}, Pieces f ps → f.WellFormed →
    f.principals.length < 2 ^ 31 → ∃ ts, Spells f.toExpr ts ∧ Reads ps ts
  | _, _, .principal hq h, hf, _ => by
    cases hf with
    | principal hmsp => exact ⟨_, .principal (Principal.isSpelledBy_text hmsp), reads_quoted hq h⟩
  | .gate g fs, _, .gate hg h, hf, hlength => by
    cases hf with
    | gate hfits hfs =>
      have hk : fs.length < 2 ^ 31 := Nat.lt_of_le_of_lt (Formula.length_le_principalsOf hfs) hlength
      obtain ⟨ts, hopens, hreads⟩ := hg.exists_opens hfits hk
      obtain ⟨us, hspells, hreads'⟩ := exists_spellsAll h hfs hlength
      have hclose : Reads [[')']] [.closeParen] := reads_mark (by decide) trivial
      rw [← Formula.length_toExprs fs] at hopens
      refine ⟨ts ++ us ++ [.closeParen], ?_, (hreads.append hreads').append hclose⟩
      rw [Formula.toExpr, ← Formula.length_toExprs fs]
      exact .outOf hopens hspells

theorem exists_spellsAll : ∀ {fs : List Formula} {ps : List (List Char)}, PiecesOf fs ps →
    (∀ f ∈ fs, f.WellFormed) → (Formula.principalsOf fs).length < 2 ^ 31 →
      ∃ ts, SpellsAll (Formula.toExprs fs) ts ∧ Reads ps ts
  | [f], _, .one h, hf, hlength => by
    have hlength' : f.principals.length < 2 ^ 31 := by simpa [Formula.principalsOf] using hlength
    obtain ⟨ts, hspells, hreads⟩ := exists_spells h (hf f List.mem_cons_self) hlength'
    exact ⟨ts, .one hspells, hreads⟩
  | f :: fs, _, .more h hs, hf, hlength => by
    rw [Formula.principalsOf, List.length_append] at hlength
    obtain ⟨ts, hspells, hreads⟩ := exists_spells h (hf f List.mem_cons_self) (by omega)
    obtain ⟨us, hspells', hreads'⟩ :=
      exists_spellsAll hs (fun x hx => hf x (List.mem_cons_of_mem f hx)) (by omega)
    have hcomma : Reads [[',']] [.comma] := reads_mark (by decide) trivial
    exact ⟨ts ++ .comma :: us, .more hspells hspells', hreads.append (hcomma.append hreads')⟩
end

/-- A text of a formula spells its expression. -/
theorem Formula.IsRenderedBy.isSpelledBy {f : Formula} {s : String} (h : f.IsRenderedBy s) (hf : f.WellFormed)
    (hlength : f.principals.length < 2 ^ 31) : f.toExpr.IsSpelledBy s := by
  obtain ⟨ps, hps, hlayout⟩ := h
  obtain ⟨ts, hspells, hreads⟩ := exists_spells hps hf hlength
  exact ⟨ts, hreads.splitsTo _ hlayout, hspells⟩

/-! ## Any member of an organization -/

theorem layout_row : ∀ {row : List (List Char × List Char)}, (row.all fun x => x.1.all Text.isBlank) →
    Layout (row.map (·.2)) (row.flatMap fun x => x.1 ++ x.2)
  | [], _ => .nil nofun
  | x :: row, h => by
    rw [List.all_cons, Bool.and_eq_true] at h
    exact .cons (List.all_eq_true.1 h.1) (layout_row h.2)

/-- One of any members of an organization. -/
def Formula.anyMember (mspId : String) : Formula := .gate (.outOf 1) [.principal ⟨mspId, .member⟩]

/-- Without a quote in its name, an organization can stand between quotes. -/
theorem Formula.anyMember_isRenderedBy {mspId : String} (hq : '\'' ∉ mspId.toList) :
    (anyMember mspId).IsRenderedBy ("OutOf(1, '" ++ mspId ++ ".member')") := by
  have htext : Principal.text ⟨mspId, .member⟩ = mspId.toList ++ ".member".toList := by
    simp [Principal.text, Protocol.Role.policyName]
  have hquoted : '\'' ∉ Principal.text ⟨mspId, .member⟩ := by simp [htext, hq]
  have hgate : Gate.Opening (.outOf 1) ["OutOf".toList, ['('], List.replicate 0 '0' ++ Nat.toDigits 10 1, [',']] :=
    .outOf (by decide +kernel)
  have hpieces : Pieces (anyMember mspId) _ := .gate hgate (.one (.principal (.inl rfl) hquoted))
  -- the one blank stands behind the comma
  let row : List (List Char × List Char) :=
    [([], "OutOf".toList), ([], ['(']), ([], ['1']), ([], [',']),
      ([' '], '\'' :: (mspId.toList ++ ".member".toList ++ ['\''])), ([], [')'])]
  have hlayout : Layout (row.map (·.2)) (row.flatMap fun x => x.1 ++ x.2) := layout_row rfl
  have hdigits : Nat.toDigits 10 1 = ['1'] := rfl
  rw [htext, hdigits] at hpieces
  refine ⟨_, hpieces, ?_⟩
  simpa [row] using hlayout

/-- The policy that any member of an organization satisfies is that of its text. -/
theorem parse_anyMember {mspId : String} (hne : mspId ≠ "") (hq : '\'' ∉ mspId.toList) :
    parse ("OutOf(1, '" ++ mspId ++ ".member')") = .ok (signedByMember mspId) := by
  have hf : (Formula.anyMember mspId).WellFormed :=
    .gate ⟨Nat.le_refl 1, Nat.le_refl 1⟩ fun f h => List.mem_singleton.1 h ▸ .principal hne
  have hlength : (Formula.anyMember mspId).principals.length < 2 ^ 31 := Nat.lt_of_le_of_lt (Nat.le_refl 1) (by decide)
  have hspelled : (Expr.anyMember mspId).IsSpelledBy _ :=
    (Formula.anyMember_isRenderedBy hq).isSpelledBy hf hlength
  exact map_eq_ok_iff.2 ⟨_, parseExpr_eq_ok_iff.2 hspelled, rfl⟩

/-- **Policies mean what they say.** However a formula is written, with names in any case, any white
space between its parts, either kind of quotes and any zeros before a number, its text is accepted, and
the policy that it becomes is satisfied exactly when the formula is true. -/
theorem policies_mean_what_they_say {f : Formula} {s : String} (hf : f.WellFormed)
    (hlength : f.principals.length < 2 ^ 31) (hstorable : ∀ p ∈ f.principals, p.IsStorable)
    (hs : f.IsRenderedBy s) :
    ∃ policy, ClientError.ofPolicy (parse s) = .ok policy ∧ ∀ v, policy.satisfied v = f.holds v := by
  have hparse : parse s = .ok f.toExpr.toPolicy :=
    map_eq_ok_iff.2 ⟨_, parseExpr_eq_ok_iff.2 (hs.isSpelledBy hf hlength), rfl⟩
  rw [← Formula.principals_toExpr] at hlength hstorable
  refine ⟨_, ofPolicy_eq_ok_iff.2 hparse, fun v => ?_⟩
  rw [Expr.satisfied_toPolicy hf.sound hlength hstorable, Formula.holds_toExpr]

/-! Both of a peer and of two more, of whom one has a quote in its organization's name. -/

def samplePeer : Formula := .principal ⟨"A", .peer⟩

def sampleFormula : Formula :=
  .gate (.outOf 2) [samplePeer, .gate .and [.principal ⟨"b'c", .admin⟩, samplePeer]]

def sampleRow : List (List Char × List Char) :=
  [(" ", "oUTof"), ("", "("), (" ", "02"), ("", ","), ("", "'A.peer'"), ("", ","), ("\t", "AND"), (" ", "("),
    ("", "\"b'c.admin\""), (" ", ","), ("", "'A.peer'"), ("", ")"), ("\n", ")")].map
      fun (blanks, piece) => (blanks.toList, piece.toList)

theorem sampleFormula_isRenderedBy :
    sampleFormula.IsRenderedBy " oUTof( 02,'A.peer',\tAND (\"b'c.admin\" ,'A.peer')\n)" := by
  have hpeer : Pieces samplePeer ["'A.peer'".toList] := .principal (.inl rfl) (by decide)
  have hadmin : Pieces (.principal ⟨"b'c", .admin⟩) ["\"b'c.admin\"".toList] := .principal (.inr rfl) (by decide)
  have hand : Gate.Opening .and ["AND".toList, ['(']] := .and (by decide +kernel)
  have htwo : Gate.Opening (.outOf 2) ["oUTof".toList, ['('], List.replicate 1 '0' ++ Nat.toDigits 10 2, [',']] :=
    .outOf (by decide +kernel)
  have hpieces : Pieces sampleFormula (sampleRow.map (·.2)) :=
    .gate htwo (.more hpeer (.one (.gate hand (.more hadmin (.one hpeer)))))
  exact ⟨_, hpieces, layout_row (by decide)⟩

theorem policies_mean_what_they_say_nested :
    ∃ policy, ClientError.ofPolicy (parse " oUTof( 02,'A.peer',\tAND (\"b'c.admin\" ,'A.peer')\n)") = .ok policy ∧
      policy.satisfied (fun _ => true) = true ∧ policy.satisfied (· == ⟨"A", .peer⟩) = false := by
  have hadmin : (Formula.principal ⟨"b'c", .admin⟩).WellFormed := .principal (by decide)
  have hpeer : samplePeer.WellFormed := .principal (by decide)
  have hand : (Formula.gate .and [.principal ⟨"b'c", .admin⟩, samplePeer]).WellFormed :=
    .gate (by decide) (by simp [hadmin, hpeer])
  have hf : sampleFormula.WellFormed := .gate (by decide) (by simp [hpeer, hand])
  obtain ⟨policy, hpolicy, hmeans⟩ := policies_mean_what_they_say hf (by decide) (by decide +kernel)
    sampleFormula_isRenderedBy
  exact ⟨policy, hpolicy, (hmeans _).trans (by decide), (hmeans _).trans (by decide)⟩

end LedgerClient.Policy
