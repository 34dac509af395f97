import QueryGate.Proofs.Grammar.Queries
import QueryGate.Proofs.LetterCase
import QueryGate.Proofs.Offences
import QueryGate.Proofs.TableScope

namespace QueryGate

open Sql

/-!
# Accepted queries and writing

The rules look for forbidden words among the tokens and never at the tree.  What keeps a tree from
writing is that the grammar builds a node that writes or locks only where it has read the word of
it, and the words are forbidden, all but one:

* `Sql.parse_spelled` — the words of all effects of a parsed statement stand in its text, unquoted;
* `Gate.accepted_readOnly_iff` — an accepted query has no effects iff it locks no rows by
  `FOR SHARE` and none of its effects is spelled in a way that the rules and the grammar read
  differently;
* `Gate.accepted_effects_of_ascii` — there is no such spelling in ASCII.
-/

variable {d : Dialect} {cs : List Char} {ts : List Token}

/-! ### Effects and their words -/

/-- Lexemes keep the keywords of their tokens. -/
theorem Sql.Parser.exists_token_of_mem_lexemes {attached : Bool} {l : Parser.Lexeme}
    (h : l ∈ Parser.lexemes attached ts) : ∃ t ∈ ts, l.keyword = t.keyword := by
  induction ts generalizing attached with
  | nil => cases h
  | cons t ts ih =>
    have hrest : ∀ {attached}, l ∈ Parser.lexemes attached ts →
        ∃ u ∈ t :: ts, l.keyword = u.keyword := fun hmem => by
      obtain ⟨u, hu, hl⟩ := ih hmem
      exact ⟨u, List.mem_cons_of_mem t hu, hl⟩
    rw [Parser.lexemes] at h
    split at h
    · exact hrest h
    · rcases List.mem_cons.mp h with rfl | h
      · exact ⟨t, List.mem_cons_self .., rfl⟩
      · exact hrest h

/-- **Words.** The word of every effect of a parsed query stands in the text as an unquoted word, up
    to case. -/
theorem Sql.parse_spelled {q : Query} (hts : tokens d cs = .ok ts)
    (hparse : parse d cs = .ok [.query q]) :
    ∀ e ∈ q.effects, ∃ text, .word text none ∈ ts ∧ Text.upper text = e.keyword := by
  have htwins : Parser.Twins (fun k => ∃ t ∈ ts, k = t.keyword) (Parser.lexemes false ts)
      (Parser.lexemes false ts) := .refl fun l => Parser.exists_token_of_mem_lexemes
  have hspelled := (Parser.parseTokens_twins htwins).2 _ ((parse_eq_ok_iff hts _).mp hparse)
  intro e he
  obtain ⟨t, ht, hword⟩ := hspelled.word e (List.mem_append_left _ he)
  have hnonempty : e.keyword ≠ "" := by
    cases e with
    | change kind => cases kind <;> decide
    | into => decide
    | lock kind => cases kind <;> decide
  rw [Token.keyword] at hword
  cases hbare : t.bareWord? with
  | none =>
    rw [hbare] at hword
    exact absurd hword hnonempty
  | some text =>
    rw [hbare] at hword
    refine ⟨text, ?_, hword.symm⟩
    unfold Token.bareWord? at hbare
    split at hbare
    · cases hbare
      exact ht
    · cases hbare

/-! ### Spellings -/

/-- An effect that is spelled by a word which has the upper case of its keyword but not the lower
    case: the grammar takes the word for the keyword, and the rules do not. -/
def Disguised (ts : List Token) (e : Effect) : Prop :=
  ∃ text, .word text none ∈ ts ∧ Text.upper text = e.keyword ∧
    Text.lower text ≠ Text.lower e.keyword

/-- No word in ASCII is a disguise. -/
theorem not_disguised_of_ascii (h : ∀ text, .word text none ∈ ts → ∀ c ∈ text.toList, c.toNat < 128)
    (e : Effect) : ¬Disguised ts e := by
  rintro ⟨text, hmem, hupper, hlower⟩
  have hkeyword : (∀ c ∈ e.keyword.toList, c.toNat < 128) ∧
      Text.upper e.keyword = e.keyword := by
    cases e with
    | change kind => cases kind <;> exact ⟨by decide, by cbv⟩
    | into => exact ⟨by decide, by cbv⟩
    | lock kind => cases kind <;> exact ⟨by decide, by cbv⟩
  exact hlower (Text.lower_eq_of_upper_eq (h text hmem) hkeyword.1
    (hupper.trans hkeyword.2.symm))

/-- The words of all effects are forbidden, but for that of `FOR SHARE`. -/
theorem forbidsVerb_keyword (v : Vocabulary) {e : Effect} (h : e ≠ .lock .forShare) :
    v.forbidsVerb (Text.lower e.keyword) = true := by
  have hcommon : ∀ word ∈ Dialect.commonVerbs, v.forbidsVerb word = true := fun word hword => by
    rw [Vocabulary.forbidsVerb, List.contains_iff_mem, Vocabulary.verbs, List.append_assoc]
    exact List.mem_append_left _ hword
  refine hcommon _ ?_
  cases e with
  | change kind => cases kind <;> decide
  | into => decide
  | lock kind =>
    cases kind with
    | forUpdate => decide
    | forShare => exact absurd rfl h

/-! ### Accepted queries -/

namespace Gate

variable {g : Gate} {allowed : AllowList} {maxRows : Nat} {sql out : List Char}

/-- Every effect of an accepted query is a lock by `FOR SHARE` or disguised. -/
theorem exists_query_of_accepted
    (h : (g.prepareWithin allowed maxRows sql).value = .accepted out) :
    ∃ ts q, tokens g.dialect out = .ok ts ∧ parse g.dialect out = .ok [.query q] ∧
      ∀ e ∈ q.effects, e = .lock .forShare ∨ Disguised ts e := by
  have hmeets := meets_of_accepted maxRows (.inr h)
  obtain ⟨ts, hts, -, hwords⟩ := hmeets.readable
  obtain ⟨q, hparse, -⟩ := hmeets.query
  have hharmless := (Rules.checkWords_eq_ok_iff hts).mp hwords
  refine ⟨ts, q, hts, hparse, ?_⟩
  intro e he
  obtain ⟨text, hmem, hupper⟩ := parse_spelled hts hparse e he
  by_cases hshare : e = .lock .forShare
  · exact .inl hshare
  · -- the word in lower case would be forbidden
    refine .inr ⟨text, hmem, hupper, fun hlower => ?_⟩
    have hallowed := hharmless.word hmem
    rw [hlower, forbidsVerb_keyword _ hshare] at hallowed
    cases hallowed

/-- **Read-only.** Every effect of an accepted query is a lock by `FOR SHARE` or disguised; so the
    query has no effect iff it has none of these. -/
theorem accepted_readOnly_iff (h : (g.prepareWithin allowed maxRows sql).value = .accepted out) :
    ∃ ts q, tokens g.dialect out = .ok ts ∧ parse g.dialect out = .ok [.query q] ∧
      (∀ e ∈ q.effects, e = .lock .forShare ∨ Disguised ts e) ∧
      (q.effects = [] ↔ .lock .forShare ∉ q.effects ∧ ∀ e ∈ q.effects, ¬Disguised ts e) := by
  obtain ⟨ts, q, hts, hparse, heffects⟩ := exists_query_of_accepted h
  refine ⟨ts, q, hts, hparse, heffects, fun hnone => by simp [hnone], fun ⟨hshare, hplain⟩ => ?_⟩
  refine List.eq_nil_iff_forall_not_mem.mpr fun e he => ?_
  rcases heffects e he with rfl | hdisguised
  · exact hshare he
  · exact hplain e he hdisguised

/-- An accepted query whose unquoted words are ASCII only reads, apart from locks by `FOR SHARE`. -/
theorem accepted_effects_of_ascii (h : (g.prepareWithin allowed maxRows sql).value = .accepted out)
    (hts : tokens g.dialect out = .ok ts)
    (hascii : ∀ text, .word text none ∈ ts → ∀ c ∈ text.toList, c.toNat < 128) :
    ∃ q, parse g.dialect out = .ok [.query q] ∧ ∀ e ∈ q.effects, e = .lock .forShare := by
  obtain ⟨us, q, hus, hparse, heffects⟩ := exists_query_of_accepted h
  rw [hts] at hus
  cases hus
  exact ⟨q, hparse, fun e he => (heffects e he).resolve_right (not_disguised_of_ascii hascii e)⟩

end Gate

/-! ### A query that locks -/

/-- A query that locks the row it reads. -/
def lockText : List Char := "select * from t fetch first row only for share".toList

/-- What `lockText` parses as. -/
def lockQuery : Query := .mk false [] (.select none [.relation [⟨"t", none⟩]]) [] [.forShare]

/-- The gate lets the lock through. -/
private theorem prepareWithin_lockText :
    (strictGate.prepareWithin onlyT 1000 lockText).value = .accepted lockText := by decide +kernel

/-- The parser reads the lock behind the fetch clause. -/
private theorem parse_lockText : parse .postgresql lockText = .ok [.query lockQuery] := by
  have hts : tokens .postgresql lockText = .ok [.word "select" none, .blank .space, .symbol "*",
      .blank .space, .word "from" none, .blank .space, .word "t" none, .blank .space,
      .word "fetch" none, .blank .space, .word "first" none, .blank .space, .word "row" none,
      .blank .space, .word "only" none, .blank .space, .word "for" none, .blank .space,
      .word "share" none] := by decide
  rw [parse_eq_ok_iff hts]
  cbv

/-- The query is accepted, and locks rows. -/
theorem lockText_accepted_not_readOnly :
    (strictGate.prepareWithin onlyT 1000 lockText).value = .accepted lockText ∧
      parse .postgresql lockText = .ok [.query lockQuery] ∧
      lockQuery.effects = [.lock .forShare] :=
  ⟨prepareWithin_lockText, parse_lockText, by cbv⟩

/-- What is said of the effects of that query. -/
theorem lockText_readOnly_iff :
    (strictGate.prepareWithin onlyT 1000 lockText).value = .accepted lockText ∧
    ∃ ts q, tokens strictGate.dialect lockText = .ok ts ∧
      parse strictGate.dialect lockText = .ok [.query q] ∧
      (∀ e ∈ q.effects, e = .lock .forShare ∨ Disguised ts e) ∧
      (q.effects = [] ↔ .lock .forShare ∉ q.effects ∧ ∀ e ∈ q.effects, ¬Disguised ts e) :=
  ⟨prepareWithin_lockText, Gate.accepted_readOnly_iff prepareWithin_lockText⟩

end QueryGate
