import QueryGate.Proofs.CappedText
import QueryGate.Proofs.Extension.Derived

namespace QueryGate

open Sql

/-!
# What a capped statement is read as

A statement with a limit behind it, or as a derived table, is read as the grammar reads its tokens.
That depends on what the statement ends in, and on a few words in it; so there are conditions on a
text that make sure of the reading, and that are found out from its tokens:

* `standsBeforeLimit` — then the text with a limit behind it is the query that it is without, where
  it has a reading (`parse_append`);
* `standsInParentheses` with `nestedQuery?` — then the text as a derived table is a selection from
  that query (`parse_wrap`).
-/

variable {d : Dialect} {cs : List Char} {ts : List Token} {m : Nat}

/-! ### The lexemes of the rewrites -/

namespace Sql.Parser

/-- The first lexeme is the first token that is no trivia. -/
theorem lexemes_head? (attached : Bool) (ts : List Token) :
    (lexemes attached ts).head?.map (·.token) = (significant ts).head? := by
  induction ts generalizing attached with
  | nil => rfl
  | cons t ts ih =>
    rw [lexemes, significant, List.dropWhile_cons]
    split
    · exact ih false
    · rfl

/-- A limit behind a text is a limit behind its lexemes. -/
theorem lexemes_append_limit (h : tokens d cs = .ok ts) (hd : ¬Dangling d ts) (m : Nat) :
    ∃ us a, tokens d (RowLimit.append cs m (endsInLineComment ts)) = .ok us ∧
      lexemes false us = lexemes false ts ++ limit a (String.ofList (digits m)) := by
  obtain ⟨core, gap, gap', rfl, hgap, hout⟩ := tokens_append_gap h hd m
  obtain ⟨hgap, hgap'⟩ := List.forall_mem_append.mp hgap
  obtain ⟨a, ha⟩ := lexemes_gap_append core hgap hgap' false
  exact ⟨_, a, hout, ha _⟩

/-- The lexemes of a text as a derived table. -/
theorem lexemes_wrap (h : tokens d cs = .ok ts)
    (hlast : ∀ t ∈ ts.getLast?, Lexer.isOperator t = false)
    (m : Nat) : ∃ us a b, tokens d (RowLimit.wrap cs m (endsInLineComment ts)) = .ok us ∧
      lexemes false us = derivedLexemes (lexemes true ts) a b (String.ofList (digits m)) := by
  obtain ⟨core, gap, seam, rfl, -, hseam, hout⟩ := tokens_derivedTable_seam h
  obtain ⟨hgap, gap', hgap', rfl⟩ := hseam hlast
  generalize hus : frontTokens ++ (core ++ (gap' ++ [Token.symbol ")"]) ++ aliasTokens) = us at hout
  have hcomment : endsInLineComment us = false := by
    subst hus
    simp [endsInLineComment, aliasTokens]
  have hdangling : ¬Dangling d us := by
    rintro ⟨-, vs, hvs⟩
    have hlast := congrArg List.getLast? (hvs.trans hus.symm)
    simp [aliasTokens] at hlast
  obtain ⟨vs, b, hvs, hlexemes⟩ := lexemes_append_limit hout hdangling m
  obtain ⟨a, ha⟩ := lexemes_gap_append core hgap hgap' true
  refine ⟨vs, a, b, ?_, hlexemes.trans ?_⟩
  · rwa [wrap_eq_append, ← hcomment]
  · have hfront : lexemes false us = ⟨.word "SELECT" none, "SELECT", false⟩ :: (starFromFront ++
        opening false :: lexemes true (core ++ gap' ++ (.symbol ")" :: aliasTokens))) := by
      subst hus
      simp only [List.append_assoc, List.singleton_append]
      rfl
    have halias : lexemes a (.symbol ")" :: aliasTokens) = closing a :: aliasLexemes := rfl
    rw [hfront, ha, halias, derivedLexemes]
    simp only [List.append_assoc, List.cons_append]

end Sql.Parser

/-! ### Conditions on a statement -/

/-- Whether the lexemes of a text may stand before a limit. -/
def standsBeforeLimit (d : Dialect) (cs : List Char) : Bool :=
  match tokens d cs with
  | .ok ts => Parser.isFit true 0 (Parser.lexemes false ts)
  | .error _ => false

/-- Whether the lexemes of a text may stand in parentheses. -/
def standsInParentheses (d : Dialect) (cs : List Char) : Bool :=
  match tokens d cs with
  | .ok ts =>
    (ts.getLast?.all fun t => !Lexer.isOperator t) && Parser.isFit false 0 (Parser.lexemes true ts)
  | .error _ => false

/-- The query that a text is to its end where it is a derived table, one level deeper than a
    statement. -/
def nestedQuery? (d : Dialect) (cs : List Char) : Option Query :=
  match tokens d cs with
  | .ok ts =>
    match Parser.queryHere (Parser.env d (Parser.levels - 3)) (Parser.lexemes true ts) with
    | .ok (q, []) => some q
    | _ => none
  | .error _ => none

/-- The scan of a text decides the condition on its tokens for an appended limit. -/
theorem fit_of_standsBeforeLimit (hts : tokens d cs = .ok ts) (h : standsBeforeLimit d cs = true) :
    Parser.Fit true (Parser.lexemes false ts) := by
  rw [standsBeforeLimit, hts] at h
  exact Parser.fit_of_isFit h

/-- The scan of a text decides the condition on its tokens for a closing parenthesis. -/
theorem fit_of_standsInParentheses (hts : tokens d cs = .ok ts)
    (h : standsInParentheses d cs = true) :
    (∀ t ∈ ts.getLast?, Lexer.isOperator t = false) ∧ Parser.Fit false (Parser.lexemes true ts) := by
  rw [standsInParentheses, hts] at h
  obtain ⟨hlast, hfit⟩ := Bool.and_eq_true_iff.mp h
  refine ⟨fun t ht => ?_, Parser.fit_of_isFit hfit⟩
  rw [Option.mem_def.mp ht] at hlast
  simpa using hlast

/-- Three levels are spent on the statement, the derived table and the query inside it. -/
theorem queryHere_of_nestedQuery? {q : Query} (hts : tokens d cs = .ok ts)
    (h : nestedQuery? d cs = some q) :
    Parser.queryHere (Parser.env d (Parser.levels - 3)) (Parser.lexemes true ts) = .ok (q, []) := by
  simp only [nestedQuery?, hts] at h
  split at h
  · next heq =>
    cases h
    exact heq
  · cases h

/-- Two dashes do not stand before a limit. -/
theorem not_dangling_of_fit (h : Parser.Fit true (Parser.lexemes false ts)) : ¬Dangling d ts := by
  rintro ⟨-, us, rfl⟩
  obtain ⟨a, ha⟩ := Parser.lexemes_append false us
  have hdashes : Parser.lexemes a [Token.symbol "-", .symbol "-"]
      = [⟨.symbol "-", "", a⟩, ⟨.symbol "-", "", true⟩] := rfl
  rw [ha, hdashes] at h
  rcases h.last rfl ⟨.symbol "-", "", true⟩ (by simp) with hclose | hasks
  · simp at hclose
  · exact absurd hasks (by decide)

/-! ### Parses of the rewrites -/

section

variable {q q' : Query}

/-- The tokens of a text that can be parsed. -/
theorem parseTokens_of_parse {ss : List Statement} (hts : tokens d cs = .ok ts)
    (h : parse d cs = .ok ss) : Parser.parseTokens d ts = .ok ss := by
  rw [parse, hts] at h
  dsimp only at h
  split at h <;> cases h
  assumption

/-- A text with a limit behind it is the query that it is without. -/
theorem parse_append (hts : tokens d cs = .ok ts) (hstart : Rules.checkStart ts = .ok ())
    (hfit : standsBeforeLimit d cs = true) (h : parse d cs = .ok [.query q])
    (h' : parse d (RowLimit.append cs m (endsInLineComment ts)) = .ok [.query q']) : q' = q := by
  have hfit := fit_of_standsBeforeLimit hts hfit
  obtain ⟨us, a, hus, hlexemes⟩ :=
    Parser.lexemes_append_limit hts (not_dangling_of_fit hfit) m
  refine Parser.parseTokens_limit hfit (fun l hl hsemicolon => ?_) hlexemes
    (parseTokens_of_parse hts h) (parseTokens_of_parse hus h')
  -- the first token is a word
  obtain ⟨t, ht, hword⟩ := (Rules.checkStart_eq_ok_iff ts).mp hstart
  have hhead := Parser.lexemes_head? false ts
  rw [Option.mem_def.mp hl, Option.mem_def.mp ht, Option.map_some, hsemicolon] at hhead
  cases hhead
  exact absurd hword (by decide)

/-- A text that stands in parentheses is wrapped into a query whose only table is itself. -/
theorem parse_wrap (hts : tokens d cs = .ok ts) (hfit : standsInParentheses d cs = true)
    (h : nestedQuery? d cs = some q) :
    parse d (RowLimit.wrap cs m (endsInLineComment ts)) = .ok [.query q.derived] := by
  obtain ⟨hlast, hfit⟩ := fit_of_standsInParentheses hts hfit
  obtain ⟨us, a, b, hus, hlexemes⟩ := Parser.lexemes_wrap hts hlast m
  rw [parse, hus]
  dsimp only
  rw [Parser.parseTokens_derived hfit hlexemes (queryHere_of_nestedQuery? hts h)]

end

end QueryGate
