import QueryGate.Proofs.Lexing.Rewritten
import QueryGate.Rules

namespace QueryGate

open Sql

/-!
# Texts without forbidden words

The fourth rule searches the tokens of a statement, and the code in its comments, for a forbidden
word.  Here is what a search that finds nothing says of each token:

* `scanTokens_cons` — a search looks at one token after the other;
* `Harmless` — tokens that are no offence, each before those behind it;
* `Rules.checkWords_eq_ok_iff` — the rule holds iff the tokens are harmless.  How deep comments are
  searched does not matter, since their code is shorter than the text around it
  (`offenceWithin_eq`, `offenceOf_eq`);
* `Harmless.append` / `Harmless.left` / `Harmless.right` — harmless tokens side by side.
-/

variable {v : Vocabulary}

/-! ### Searching comments -/

/-- The code of a comment is shorter than the comment. -/
theorem bangCode?_length {text : String} {code : List Char} (h : bangCode? v text = some code) :
    code.length < text.toList.length := by
  unfold bangCode? at h
  split at h
  · split at h
    · next cs hcs =>
      cases h
      rw [hcs, List.length_cons]
      exact Nat.lt_succ_of_le (List.dropWhile_suffix _).length_le
    · cases h
  · cases h

/-- The text of a block comment is shorter than the text that it is read from. -/
theorem Sql.Scans.comment_length {d : Dialect} {p q : Option Token} {cs R : List Char}
    {ts : List Token} {text : String} (h : Scans d p cs ts q R)
    (hmem : .blank (.blockComment text) ∈ ts) : text.toList.length < cs.length := by
  induction h with
  | done p cs => cases hmem
  | token hstep _ ih =>
    rcases List.mem_cons.mp hmem with rfl | hmem
    · obtain ⟨-, body, rfl, hread⟩ := Lexer.step_eq_blockComment hstep
      have hlen := Lexer.blockText?_length hread
      simp only [List.length_cons]
      omega
    · have hlen := (Lexer.step_suffix hstep).length_le
      have hshorter := ih hmem
      rw [List.length_cons]
      omega

/-- A search depends on what is found in the comments only. -/
theorem firstOffence_congr {f g : List Char → Except LexicalError (Option Offence)}
    {ts : List Token} (h : ∀ text code, .blank (.blockComment text) ∈ ts →
      bangCode? v text = some code → f code = g code) :
    firstOffence v f ts = firstOffence v g ts := by
  -- along the tokens: the search below is used on the code of a comment only
  fun_induction firstOffence v f ts with
  | case1 => rfl
  | case2 text quote ts o ho => simp only [firstOffence, ho]
  | case3 text quote ts ho ih =>
    simp only [firstOffence, ho]
    exact ih fun text code hmem => h text code (List.mem_cons_of_mem _ hmem)
  | case4 text ts code hcode ih =>
    simp only [firstOffence, hcode, h text code (List.mem_cons_self ..) hcode]
    refine congrArg (g code >>= ·) (funext fun found => ?_)
    cases found with
    | none => exact ih fun text code hmem => h text code (List.mem_cons_of_mem _ hmem)
    | some o => rfl
  | case5 text ts hcode ih =>
    simp only [firstOffence, hcode]
    exact ih fun text code hmem => h text code (List.mem_cons_of_mem _ hmem)
  -- neither a word nor a comment with code
  | case6 t ts hword hcomment ih =>
    have hskip : firstOffence v g (t :: ts) = firstOffence v g ts := by
      rw [firstOffence]
      · exact hword
      · exact hcomment
    rw [hskip]
    exact ih fun text code hmem => h text code (List.mem_cons_of_mem _ hmem)

/-- A text is searched alike at all depths above its length. -/
theorem offenceWithin_eq {cs : List Char} {n m : Nat} (hn : cs.length < n) (hm : cs.length < m) :
    offenceWithin v n cs = offenceWithin v m cs := by
  -- by induction on the fuel: code is shorter than the comment that holds it
  induction n generalizing m cs with
  | zero => exact absurd hn (Nat.not_lt_zero _)
  | succ n ih =>
    cases m with
    | zero => exact absurd hm (Nat.not_lt_zero _)
    | succ m =>
      rw [offenceWithin, offenceWithin]
      cases hts : tokens v.dialect cs with
      | error e => rfl
      | ok ts =>
        obtain ⟨q, hscan⟩ := (tokens_eq_ok_iff _ _ _).mp hts
        refine firstOffence_congr fun text code hmem hcode => ?_
        have hshorter := (bangCode?_length hcode).trans (hscan.comment_length hmem)
        exact ih (by omega) (by omega)

/-! ### Searching tokens -/

/-- The first offence among tokens, the code in comments searched to its end. -/
def scanTokens (v : Vocabulary) (ts : List Token) : Except LexicalError (Option Offence) :=
  firstOffence v (findOffence v) ts

/-- A text is searched through its tokens. -/
theorem offenceOf_eq {cs : List Char} {ts : List Token} (hts : tokens v.dialect cs = .ok ts) :
    offenceOf v cs ts = scanTokens v ts := by
  obtain ⟨q, hscan⟩ := (tokens_eq_ok_iff _ _ _).mp hts
  refine firstOffence_congr fun text code hmem hcode => ?_
  have hshorter := (bangCode?_length hcode).trans (hscan.comment_length hmem)
  exact offenceWithin_eq hshorter (Nat.lt_succ_self _)

/-- The offence of one token before others, the code in comments searched to its end. -/
def tokenOffence (v : Vocabulary) (t : Token) (after : List Token) :
    Except LexicalError (Option Offence) :=
  match t with
  | .word text quote => .ok (wordOffence? v text quote after)
  | .blank (.blockComment text) => ((bangCode? v text).map (findOffence v)).getD (.ok none)
  | _ => .ok none

/-- A token that is neither a word nor a block comment is no offence. -/
theorem tokenOffence_of_other {t : Token} (hword : ∀ text quote, t ≠ .word text quote)
    (hcomment : ∀ text, t ≠ .blank (.blockComment text)) (after : List Token) :
    tokenOffence v t after = .ok none := by
  unfold tokenOffence
  split
  · exact absurd rfl (hword _ _)
  · exact absurd rfl (hcomment _)
  · rfl

/-- One token after the other. -/
theorem scanTokens_cons (v : Vocabulary) (t : Token) (ts : List Token) :
    scanTokens v (t :: ts) = match tokenOffence v t ts with
      | .ok none => scanTokens v ts
      | found => found := by
  rw [scanTokens, firstOffence.eq_def]
  split
  · next heq => cases heq
  · next text quote ts' heq =>
    cases heq
    cases ho : wordOffence? v text quote ts <;> simp [tokenOffence, ho, scanTokens]
  · next text ts' heq =>
    cases heq
    -- a comment without code is passed over; the code of another one is searched
    cases hcode : bangCode? v text with
    | none => simp [tokenOffence, hcode, scanTokens]
    | some code =>
      cases hfound : findOffence v code with
      | error e => simp [tokenOffence, hcode, hfound, bind, Except.bind]
      | ok o =>
        cases o <;>
          simp [tokenOffence, hcode, hfound, bind, Except.bind, pure, Except.pure, scanTokens]
  · next t' ts' hword hcomment heq =>
    cases heq
    rw [tokenOffence_of_other hword hcomment, scanTokens]

/-! ### Harmless tokens -/

/-- Tokens none of which is an offence before those behind it. -/
inductive Harmless (v : Vocabulary) : List Token → Prop
  | nil : Harmless v []
  | cons {t : Token} {ts : List Token} (h : tokenOffence v t ts = .ok none)
      (hts : Harmless v ts) : Harmless v (t :: ts)

/-- Harmlessness is decided token by token, each with what follows it. -/
theorem harmless_cons_iff (t : Token) (ts : List Token) :
    Harmless v (t :: ts) ↔ tokenOffence v t ts = .ok none ∧ Harmless v ts :=
  ⟨fun | .cons h hts => ⟨h, hts⟩, fun ⟨h, hts⟩ => .cons h hts⟩

/-- A search finds nothing iff the tokens are harmless. -/
theorem firstOffence_eq_none_iff (ts : List Token) :
    firstOffence v (findOffence v) ts = .ok none ↔ Harmless v ts := by
  induction ts with
  | nil => exact ⟨fun _ => .nil, fun _ => rfl⟩
  | cons t ts ih =>
    have hcons := scanTokens_cons v t ts
    rw [scanTokens, scanTokens] at hcons
    rw [hcons, harmless_cons_iff, ← ih]
    cases tokenOffence v t ts with
    | error e => simp
    | ok o => cases o <;> simp

/-- **The fourth rule.** It holds iff the tokens of the statement are harmless. -/
theorem Rules.checkWords_eq_ok_iff {r : Rules} {cs : List Char} {ts : List Token}
    (hts : tokens r.vocabulary.dialect cs = .ok ts) :
    r.checkWords cs ts = .ok () ↔ Harmless r.vocabulary ts := by
  rw [← firstOffence_eq_none_iff, ← scanTokens, ← offenceOf_eq hts, Rules.checkWords]
  cases offenceOf r.vocabulary cs ts with
  | error e => simp
  | ok o => cases o <;> simp

/-! ### Harmless tokens side by side -/

/-- What stands first among tokens, blanks and comments aside. -/
theorem significant_append (ts us : List Token) :
    (significant (ts ++ us)).head? = (significant ts).head?.or (significant us).head? := by
  induction ts with
  | nil => rfl
  | cons t ts ih =>
    cases ht : t.isTrivia with
    | true => simpa [significant, ht] using ih
    | false => simp [significant, ht]

/-- Among blanks and comments nothing stands first. -/
theorem significant_eq_nil {ts : List Token} (h : ∀ t ∈ ts, t.isTrivia = true) :
    (significant ts).head? = none := by
  rw [significant, List.dropWhile_eq_nil_iff.mpr h, List.head?_nil]

/-- A word is no offence where it is none before a parenthesis, and none if it was none before other
    tokens with a parenthesis. -/
theorem tokenOffence_of_opens {t : Token} {after after' : List Token}
    (hopens : (significant after').head? = some (.symbol "(") →
      (significant after).head? = some (.symbol "("))
    (h : tokenOffence v t after = .ok none) : tokenOffence v t after' = .ok none := by
  unfold tokenOffence at h ⊢
  split
  · next text quote =>
    have hnone : wordOffence? v text quote after = none := Except.ok.inj h
    refine congrArg Except.ok ?_
    simp only [wordOffence?, beq_iff_eq, Bool.and_eq_true] at hnone ⊢
    split at hnone
    · cases hnone
    -- the word is no verb; it is a call only before a parenthesis, which `hopens` takes back
    · next hverb =>
      rw [if_neg hverb, if_neg]
      simp only [ite_eq_right_iff, reduceCtorEq, imp_false] at hnone
      exact fun hcall => hnone ⟨hcall.1, hopens hcall.2⟩
  · exact h
  · rfl

/-- Tokens that are no offence wherever they stand. -/
def isIdle (v : Vocabulary) : Token → Bool
  | .word text _ => !v.forbidsVerb (Text.lower text) && !v.forbidsFunction (Text.lower text)
  | .blank (.blockComment _) => false
  | _ => true

/-- Blanks and comments between words are idle. -/
theorem isIdle_of_isGap {t : Token} (h : t.isGap = true) : isIdle v t = true := by
  unfold Token.isGap at h
  split at h
  · cases h
  · next hcomment =>
    unfold isIdle
    split
    · next heq => cases heq
    · next heq => exact (hcomment _ (Token.blank.inj heq)).elim
    · rfl
  · cases h

/-- An idle token is harmless before anything. -/
theorem tokenOffence_of_isIdle {t : Token} (h : isIdle v t = true) (after : List Token) :
    tokenOffence v t after = .ok none := by
  unfold isIdle at h
  split at h
  · simp only [Bool.and_eq_true, Bool.not_eq_true'] at h
    simp [tokenOffence, wordOffence?, h.1, h.2]
  · cases h
  · next hword hcomment =>
    unfold tokenOffence
    split
    · exact absurd rfl (hword _ _)
    · exact absurd rfl (hcomment _)
    · rfl

namespace Harmless

variable {ts us : List Token}

/-- No unquoted word among harmless tokens is a forbidden verb. -/
theorem word {text : String} (h : Harmless v ts) (hmem : .word text none ∈ ts) :
    v.forbidsVerb (Text.lower text) = false := by
  induction h with
  | nil => cases hmem
  | @cons t ts ht _ ih =>
    rcases List.mem_cons.mp hmem with rfl | hmem
    · rw [Bool.eq_false_iff]
      intro hverb
      have hoffence : wordOffence? v text none ts = some (.verb (Text.lower text)) := by
        simp [wordOffence?, hverb]
      rw [tokenOffence, hoffence] at ht
      cases ht
    · exact ih hmem

/-- The end of a harmless list is harmless. -/
theorem right (h : Harmless v (ts ++ us)) : Harmless v us := by
  induction ts with
  | nil => exact h
  | cons t ts ih => exact ih ((harmless_cons_iff _ _).mp h).2

/-- Without the tokens behind them, fewer words stand before a parenthesis. -/
theorem left (h : Harmless v (ts ++ us)) : Harmless v ts := by
  induction ts with
  | nil => exact .nil
  | cons t ts ih =>
    obtain ⟨ht, hts⟩ := (harmless_cons_iff _ _).mp h
    refine .cons (tokenOffence_of_opens (fun hopen => ?_) ht) (ih hts)
    exact (significant_append ts us).trans (by rw [hopen]; rfl)

/-- Harmless tokens stay so before harmless ones that do not start with a parenthesis. -/
theorem append (hts : Harmless v ts) (hus : Harmless v us)
    (hopen : (significant us).head? ≠ some (.symbol "(")) : Harmless v (ts ++ us) := by
  induction hts with
  | nil => exact hus
  | cons ht _ ih =>
    refine .cons (tokenOffence_of_opens (fun h => ?_) ht) ih
    rcases Option.or_eq_some_iff.mp ((significant_append _ us).symm.trans h) with h | ⟨-, h⟩
    · exact h
    · exact absurd h hopen

/-- Idle tokens may stand before harmless ones. -/
theorem idle_append (hts : ∀ t ∈ ts, isIdle v t = true) (hus : Harmless v us) :
    Harmless v (ts ++ us) := by
  induction ts with
  | nil => exact hus
  | cons t ts ih =>
    exact .cons (tokenOffence_of_isIdle (hts t (List.mem_cons_self ..)) _)
      (ih fun u hu => hts u (List.mem_cons_of_mem _ hu))

/-- Idle tokens may stand behind harmless ones if there is no parenthesis among them. -/
theorem append_idle (hts : Harmless v ts) (hus : ∀ t ∈ us, isIdle v t = true)
    (hopen : .symbol "(" ∉ us) : Harmless v (ts ++ us) := by
  refine hts.append ?_ fun h => hopen ?_
  · have hidle := idle_append hus (.nil : Harmless v [])
    rwa [List.append_nil] at hidle
  · exact (List.dropWhile_suffix _).subset (List.mem_of_mem_head? h)

end Harmless

end QueryGate
