import QueryGate.Proofs.Offences

namespace QueryGate

open Sql

/-!
# The search for forbidden words

What a search among tokens finds is the first offence, and it finds one wherever there is one.  Said
without the search:

* `Opens` — a parenthesis comes next;
* `NoOffence` — tokens that hold no offence, the code in their comments included;
* `FirstOffence` — what comes first among tokens that hold one, or a comment whose code cannot be
  read;
* `findOffence_eq` — a text is searched through its tokens, without a bound on the depth of comments;
* `scanTokens_exact` — a search finds the first offence;
* `scanTokens_eq_none_iff` — it finds none iff there is none.
-/

variable {v : Vocabulary}

/-! ### Offences -/

/-- Behind blanks and comments comes a parenthesis. -/
def Opens (ts : List Token) : Prop :=
  ∃ gap rest, ts = gap ++ .symbol "(" :: rest ∧ ∀ t ∈ gap, t.isTrivia = true

/-- The code that a comment holds in MySQL: what stands behind the mark and a version number. -/
def HoldsCode (v : Vocabulary) (comment : String) (code : List Char) : Prop :=
  v.dialect = .mysql ∧ ∃ body, comment.toList = '!' :: body ∧ code = body.dropWhile Char.isDigit

/-- Tokens that hold no offence before other tokens: no unquoted word is a forbidden verb, no word is
    a forbidden function that is called, and the code of every comment can be read and holds none
    either. -/
inductive NoOffence (v : Vocabulary) : List Token → List Token → Prop
  | intro {ts after : List Token}
      (verbs : ∀ text, .word text none ∈ ts → Text.lower text ∉ v.verbs)
      (calls : ∀ before text quote behind, ts = before ++ .word text quote :: behind →
        Text.lower text ∈ v.functions → ¬Opens (behind ++ after))
      (readable : ∀ text code, .blank (.blockComment text) ∈ ts → HoldsCode v text code →
        ∃ us, tokens v.dialect code = .ok us)
      (inside : ∀ text code us, .blank (.blockComment text) ∈ ts → HoldsCode v text code →
        tokens v.dialect code = .ok us → NoOffence v us []) : NoOffence v ts after

/-- What comes first among tokens: a forbidden verb, a call of a forbidden function that is no such
    verb, or a comment whose code cannot be read or holds an offence. -/
inductive FirstOffence (v : Vocabulary) : List Token → Except LexicalError Offence → Prop
  | verb {before after : List Token} {text : String} :
      NoOffence v before (.word text none :: after) → Text.lower text ∈ v.verbs →
      FirstOffence v (before ++ .word text none :: after) (.ok (.verb (Text.lower text)))
  | call {before after : List Token} {text : String} {quote : Option Char} :
      NoOffence v before (.word text quote :: after) → (quote = none → Text.lower text ∉ v.verbs) →
      Text.lower text ∈ v.functions → Opens after →
      FirstOffence v (before ++ .word text quote :: after) (.ok (.call (Text.lower text)))
  | unreadable {before after : List Token} {text : String} {code : List Char} {e : LexicalError} :
      NoOffence v before (.blank (.blockComment text) :: after) → HoldsCode v text code →
      tokens v.dialect code = .error e →
      FirstOffence v (before ++ .blank (.blockComment text) :: after) (.error e)
  | inside {before after us : List Token} {text : String} {code : List Char}
      {found : Except LexicalError Offence} :
      NoOffence v before (.blank (.blockComment text) :: after) → HoldsCode v text code →
      tokens v.dialect code = .ok us → FirstOffence v us found →
      FirstOffence v (before ++ .blank (.blockComment text) :: after) found

/-! ### The search -/

/-- **Recursion.** The search of a text is that of its tokens, whose comments are searched as texts:
    the bound on their depth is never reached. -/
theorem findOffence_eq (v : Vocabulary) (cs : List Char) :
    findOffence v cs = (tokens v.dialect cs).bind (scanTokens v) := by
  cases hts : tokens v.dialect cs with
  | error e =>
    rw [findOffence, offenceWithin, hts]
    rfl
  | ok ts =>
    rw [findOffence, offenceWithin, hts]
    exact offenceOf_eq hts

/-- Tokens none of which is an offence before those behind it and other tokens. -/
def HarmlessBefore (v : Vocabulary) (ts after : List Token) : Prop :=
  ∀ before t behind, ts = before ++ t :: behind → tokenOffence v t (behind ++ after) = .ok none

/-- Harmlessness is decided token by token, each with what follows it. -/
theorem harmlessBefore_cons {t : Token} {ts after : List Token} :
    HarmlessBefore v (t :: ts) after ↔
      tokenOffence v t (ts ++ after) = .ok none ∧ HarmlessBefore v ts after := by
  constructor
  · intro h
    exact ⟨h [] t ts rfl, fun before u behind hts => h (t :: before) u behind (by rw [hts]; rfl)⟩
  · rintro ⟨ht, hts⟩ before u behind hsplit
    cases before with
    | nil =>
      obtain ⟨rfl, rfl⟩ := List.cons_eq_cons.mp hsplit
      exact ht
    | cons b before =>
      obtain ⟨-, hsplit⟩ := List.cons_eq_cons.mp hsplit
      exact hts before u behind hsplit

/-- A search goes on behind tokens that are no offence. -/
theorem scanTokens_append {ts after : List Token} (h : HarmlessBefore v ts after) :
    scanTokens v (ts ++ after) = scanTokens v after := by
  induction ts with
  | nil => rfl
  | cons t ts ih =>
    obtain ⟨ht, hts⟩ := harmlessBefore_cons.mp h
    rw [List.cons_append, scanTokens_cons, ht]
    exact ih hts

/-- **A whole search.** It finds nothing among tokens none of which is an offence, or what the first
    one is that is. -/
theorem scanTokens_cases (v : Vocabulary) (ts : List Token) :
    (HarmlessBefore v ts [] ∧ scanTokens v ts = .ok none) ∨
    ∃ before t after, ts = before ++ t :: after ∧ HarmlessBefore v before (t :: after) ∧
      tokenOffence v t after ≠ .ok none ∧ scanTokens v ts = tokenOffence v t after := by
  -- by induction: the first token offends, or the offence is the first of the rest
  induction ts with
  | nil => exact .inl ⟨fun before t behind h => (by simp at h), rfl⟩
  | cons t ts ih =>
    rw [scanTokens_cons]
    cases ht : tokenOffence v t ts with
    | error e =>
      exact .inr ⟨[], t, ts, rfl, fun _ _ _ h => (by simp at h), by simp [ht], ht.symm⟩
    | ok o =>
      cases o with
      | some o => exact .inr ⟨[], t, ts, rfl, fun _ _ _ h => (by simp at h), by simp [ht], ht.symm⟩
      | none =>
        obtain ⟨hnone, hscan⟩ | ⟨before, u, after, rfl, hbefore, hu, hscan⟩ := ih
        · exact .inl ⟨harmlessBefore_cons.mpr ⟨by rwa [List.append_nil], hnone⟩, hscan⟩
        · exact .inr ⟨t :: before, u, after, rfl, harmlessBefore_cons.mpr ⟨ht, hbefore⟩, hu, hscan⟩

/-! ### One token -/

/-- What comes next is a parenthesis. -/
theorem opens_iff (ts : List Token) : (significant ts).head? = some (.symbol "(") ↔ Opens ts := by
  constructor
  · intro h
    obtain ⟨rest, hrest⟩ := List.head?_eq_some_iff.mp h
    refine ⟨ts.takeWhile Token.isTrivia, rest, ?_, fun t ht => List.mem_takeWhile_imp ht⟩
    rw [← hrest, significant, List.takeWhile_append_dropWhile]
  · rintro ⟨gap, rest, rfl, hgap⟩
    rw [significant_append, significant_eq_nil hgap]
    rfl

/-- A verb is forbidden exactly if the vocabulary lists it. -/
theorem forbidsVerb_iff (word : String) : v.forbidsVerb word = true ↔ word ∈ v.verbs :=
  List.contains_iff_mem

/-- A function is forbidden exactly if the vocabulary lists it. -/
theorem forbidsFunction_iff (name : String) : v.forbidsFunction name = true ↔ name ∈ v.functions :=
  List.contains_iff_mem

/-- A word is an offence as a verb, and otherwise as a call. -/
theorem wordOffence?_eq_some_iff {text : String} {quote : Option Char} {after : List Token}
    {o : Offence} : wordOffence? v text quote after = some o ↔
      (quote = none ∧ Text.lower text ∈ v.verbs ∧ o = .verb (Text.lower text)) ∨
      ((quote = none → Text.lower text ∉ v.verbs) ∧ Text.lower text ∈ v.functions ∧ Opens after ∧
        o = .call (Text.lower text)) := by
  -- the two tests of a word, in the words of the statement
  have hcalled : (v.forbidsFunction (Text.lower text) &&
      (significant after).head? == some (.symbol "(")) = true ↔
        Text.lower text ∈ v.functions ∧ Opens after := by
    rw [Bool.and_eq_true, forbidsFunction_iff, beq_iff_eq, opens_iff]
  have hspelled : (quote.isNone && v.forbidsVerb (Text.lower text)) = true ↔
      quote = none ∧ Text.lower text ∈ v.verbs := by
    rw [Bool.and_eq_true, Option.isNone_iff_eq_none, forbidsVerb_iff]
  simp only [wordOffence?, hcalled, hspelled]
  split
  · next hverb => simp [hverb.1, hverb.2, eq_comm]
  · next hverb =>
    -- a verb is reported before a call, so a call has no verb before it
    have hnot : quote = none → Text.lower text ∉ v.verbs := fun hquote hmem => hverb ⟨hquote, hmem⟩
    have hleft : ¬(quote = none ∧ Text.lower text ∈ v.verbs ∧ o = .verb (Text.lower text)) :=
      fun h => hnot h.1 h.2.1
    rw [or_iff_right hleft]
    split
    · next hcall =>
      have hcall := hcalled.mp hcall
      refine ⟨fun h => ⟨hnot, hcall.1, hcall.2, (Option.some.inj h).symm⟩, fun h => ?_⟩
      rw [h.2.2.2]
    · next hcall =>
      refine ⟨fun h => ?_, fun h => absurd (hcalled.mpr ⟨h.2.1, h.2.2.1⟩) hcall⟩
      cases h

/-- A word is no offence if it is neither. -/
theorem wordOffence?_eq_none_iff {text : String} {quote : Option Char} {after : List Token} :
    wordOffence? v text quote after = none ↔ (quote = none → Text.lower text ∉ v.verbs) ∧
      (Text.lower text ∈ v.functions → ¬Opens after) := by
  rw [Option.eq_none_iff_forall_ne_some]
  simp only [ne_eq, wordOffence?_eq_some_iff, not_or, not_and]
  constructor
  · intro h
    have hverb : quote = none → Text.lower text ∉ v.verbs :=
      fun hquote hmem => (h _).1 hquote hmem rfl
    exact ⟨hverb, fun hmem hopens => (h _).2 hverb hmem hopens rfl⟩
  · rintro ⟨hverb, hcall⟩ o
    exact ⟨fun hquote hmem => absurd hmem (hverb hquote),
      fun _ hmem hopens => absurd hopens (hcall hmem)⟩

/-- The code that a comment holds, read off or described. -/
theorem bangCode?_eq_some_iff {text : String} {code : List Char} :
    bangCode? v text = some code ↔ HoldsCode v text code := by
  have hdialect : v.dialect.runsBangComments = true ↔ v.dialect = .mysql := by
    cases v.dialect <;> decide
  rw [bangCode?, HoldsCode, ← hdialect]
  split
  · next hruns =>
    split
    · next body hbody => simp [hruns, hbody, eq_comm]
    · next hbody =>
      refine ⟨nofun, ?_⟩
      rintro ⟨-, body, htext, -⟩
      exact absurd htext (hbody body)
  · next hruns => simp [hruns]

/-- A comment is what the tokens of its code are, if it holds code. -/
theorem tokenOffence_comment {text : String} {code : List Char} (h : HoldsCode v text code)
    (after : List Token) : tokenOffence v (.blank (.blockComment text)) after =
      (tokens v.dialect code).bind (scanTokens v) := by
  rw [tokenOffence, bangCode?_eq_some_iff.mpr h, ← findOffence_eq]
  rfl

/-- A comment without code is harmless. -/
theorem tokenOffence_comment_of_not {text : String} (h : ∀ code, ¬HoldsCode v text code)
    (after : List Token) : tokenOffence v (.blank (.blockComment text)) after = .ok none := by
  have hnone : bangCode? v text = none :=
    Option.eq_none_iff_forall_ne_some.mpr fun code hcode => h code (bangCode?_eq_some_iff.mp hcode)
  rw [tokenOffence, hnone]
  rfl

/-! ### What is found is there -/

/-- Tokens that hold no offence are none. -/
theorem NoOffence.harmlessBefore {ts after : List Token} (h : NoOffence v ts after) :
    HarmlessBefore v ts after := by
  induction h with
  -- by induction on the nesting of comments; `before ++ t` lies in front of the rest
  | @intro ts after verbs calls readable _ ih =>
    rintro before t behind rfl
    have hmem : t ∈ before ++ t :: behind := by simp
    cases t with
    | word text quote =>
      refine congrArg Except.ok (wordOffence?_eq_none_iff.mpr ⟨?_, calls before text quote behind rfl⟩)
      rintro rfl
      exact verbs text hmem
    | blank content =>
      cases content with
      | blockComment text =>
        -- a comment with code is harmless since the code is
        by_cases hcode : ∃ code, HoldsCode v text code
        · obtain ⟨code, hcode⟩ := hcode
          obtain ⟨us, hus⟩ := readable text code hmem hcode
          have hnone := scanTokens_append (ih text code us hmem hcode hus)
          rw [List.append_nil] at hnone
          rw [tokenOffence_comment hcode, hus]
          exact hnone
        · exact tokenOffence_comment_of_not (not_exists.mp hcode) _
      | space | tab | newline | lineComment _ => rfl
    | number _ _ | literal _ _ | placeholder _ | symbol _ | customOperator _ => rfl

/-- What comes first is found. -/
theorem FirstOffence.scanTokens_eq {ts : List Token} {found : Except LexicalError Offence}
    (h : FirstOffence v ts found) : scanTokens v ts = found.map some := by
  -- each way to be first is one branch of the scan behind a harmless front
  induction h with
  | verb hbefore hmem =>
    rw [scanTokens_append hbefore.harmlessBefore, scanTokens_cons, tokenOffence,
      wordOffence?_eq_some_iff.mpr (.inl ⟨rfl, hmem, rfl⟩)]
    rfl
  | call hbefore hverb hmem hopens =>
    rw [scanTokens_append hbefore.harmlessBefore, scanTokens_cons, tokenOffence,
      wordOffence?_eq_some_iff.mpr (.inr ⟨hverb, hmem, hopens, rfl⟩)]
    rfl
  | unreadable hbefore hcode hread =>
    rw [scanTokens_append hbefore.harmlessBefore, scanTokens_cons, tokenOffence_comment hcode, hread]
    rfl
  | @inside before after us text code found hbefore hcode hus _ ih =>
    rw [scanTokens_append hbefore.harmlessBefore, scanTokens_cons, tokenOffence_comment hcode, hus]
    simp only [Except.bind, ih]
    cases found <;> rfl

/-! ### What is there is found -/

/-- The block comments among tokens are shorter than a bound. -/
def CommentsBelow (n : Nat) (ts : List Token) : Prop :=
  ∀ text, .blank (.blockComment text) ∈ ts → text.toList.length < n

/-- Those in the code of a comment are shorter than the comment. -/
theorem commentsBelow_of_code {n : Nat} {text : String} {code : List Char} {us : List Token}
    (hcode : HoldsCode v text code) (hus : tokens v.dialect code = .ok us)
    (hlength : text.toList.length < n + 1) : CommentsBelow n us := by
  obtain ⟨q, hscan⟩ := (tokens_eq_ok_iff _ _ _).mp hus
  intro text' hmem
  have hshorter := bangCode?_length (bangCode?_eq_some_iff.mpr hcode)
  have hinside := hscan.comment_length hmem
  omega

/-- Tokens none of which is an offence hold none. -/
theorem noOffence_of_harmlessBefore {n : Nat} {ts after : List Token} (hn : CommentsBelow n ts)
    (h : HarmlessBefore v ts after) : NoOffence v ts after := by
  induction n using Nat.strong_induction_on generalizing ts after with
  | h n ih =>
    -- the tokens of the code of a comment
    have hcode : ∀ text code, .blank (.blockComment text) ∈ ts → HoldsCode v text code →
        (tokens v.dialect code).bind (scanTokens v) = .ok none := by
      intro text code hmem hcode
      obtain ⟨before, behind, hts⟩ := List.append_of_mem hmem
      rw [← tokenOffence_comment hcode]
      exact h before _ behind hts
    have hread : ∀ text code, .blank (.blockComment text) ∈ ts → HoldsCode v text code →
        ∃ us, tokens v.dialect code = .ok us ∧ scanTokens v us = .ok none := fun text code hmem hholds =>
      bind_eq_ok_iff.mp (hcode text code hmem hholds)
    refine .intro (fun text hmem => ?_) (fun before text quote behind hts => ?_)
      (fun text code hmem hholds => ?_) fun text code us hmem hholds hus => ?_
    · obtain ⟨before, behind, hts⟩ := List.append_of_mem hmem
      exact (wordOffence?_eq_none_iff.mp (Except.ok.inj (h before _ behind hts))).1 rfl
    · exact (wordOffence?_eq_none_iff.mp (Except.ok.inj (h before _ behind hts))).2
    · obtain ⟨us, hus, -⟩ := hread text code hmem hholds
      exact ⟨us, hus⟩
    · obtain ⟨us', hus', hnone⟩ := hread text code hmem hholds
      obtain rfl : us = us' := Except.ok.inj (hus.symm.trans hus')
      have hlength := hn text hmem
      have hinside : CommentsBelow (n - 1) us := commentsBelow_of_code hholds hus (by omega)
      refine ih (n - 1) (by omega) hinside ?_
      obtain ⟨hharmless, -⟩ | ⟨_, t, _, -, -, ht, hscan⟩ := scanTokens_cases v us
      · exact hharmless
      · exact absurd (hscan.symm.trans hnone) ht

/-- What a search finds comes first. -/
theorem firstOffence_of_scanTokens {n : Nat} {ts : List Token} {found : Except LexicalError Offence}
    (hn : CommentsBelow n ts) (h : scanTokens v ts = found.map some) : FirstOffence v ts found := by
  induction n using Nat.strong_induction_on generalizing ts found with
  | h n ih =>
    obtain ⟨-, hnone⟩ | ⟨before, t, after, rfl, hbefore, -, hscan⟩ := scanTokens_cases v ts
    · rw [hnone] at h
      cases found <;> cases h
    have hclear : NoOffence v before (t :: after) :=
      noOffence_of_harmlessBefore (n := n) (fun text hmem => hn text (List.mem_append_left _ hmem)) hbefore
    have ht : tokenOffence v t after = found.map some := hscan.symm.trans h
    by_cases hword : ∃ text quote, t = .word text quote
    · obtain ⟨text, quote, rfl⟩ := hword
      cases found with
      | error e => cases ht
      | ok o =>
        obtain ⟨rfl, hmem, rfl⟩ | ⟨hverb, hmem, hopens, rfl⟩ :=
          wordOffence?_eq_some_iff.mp (Except.ok.inj ht)
        · exact .verb hclear hmem
        · exact .call hclear hverb hmem hopens
    by_cases hcomment : ∃ text code, t = .blank (.blockComment text) ∧ HoldsCode v text code
    · obtain ⟨text, code, rfl, hholds⟩ := hcomment
      rw [tokenOffence_comment hholds] at ht
      cases hus : tokens v.dialect code with
      | error e =>
        rw [hus] at ht
        cases found with
        | error e' =>
          cases ht
          exact .unreadable hclear hholds hus
        | ok o => cases ht
      | ok us =>
        rw [hus] at ht
        have hlength := hn text (by simp)
        have hinside : CommentsBelow (n - 1) us := commentsBelow_of_code hholds hus (by omega)
        exact .inside hclear hholds hus (ih (n - 1) (by omega) hinside ht)
    · -- any other token is no offence
      have hother : tokenOffence v t after = .ok none := by
        by_cases hblock : ∃ text, t = .blank (.blockComment text)
        · obtain ⟨text, rfl⟩ := hblock
          exact tokenOffence_comment_of_not (fun code hcode => hcomment ⟨text, code, rfl, hcode⟩) _
        · exact tokenOffence_of_other (fun text quote heq => hword ⟨text, quote, heq⟩)
            (fun text heq => hblock ⟨text, heq⟩) _
      rw [hother] at ht
      cases found <;> cases ht

/-- The comments among tokens are shorter than some bound. -/
theorem exists_commentsBelow (ts : List Token) : ∃ n, CommentsBelow n ts := by
  induction ts with
  | nil => exact ⟨0, fun _ h => by cases h⟩
  | cons t ts ih =>
    obtain ⟨n, hn⟩ := ih
    cases t with
    | blank content =>
      cases content with
      | blockComment text =>
        refine ⟨max n (text.toList.length + 1), fun text' hmem => ?_⟩
        -- the bound has to exceed this comment and all later ones
        obtain heq | hmem := List.mem_cons.mp hmem
        · cases heq
          omega
        · have hlt := hn text' hmem
          omega
      | space | tab | newline | lineComment _ =>
        exact ⟨n, fun text' hmem => hn text' (by simpa using hmem)⟩
    | word _ _ | number _ _ | literal _ _ | placeholder _ | symbol _ | customOperator _ =>
      exact ⟨n, fun text' hmem => hn text' (by simpa using hmem)⟩

/-- A search finds nothing iff there is no offence. -/
theorem scanTokens_eq_none_iff (ts : List Token) : scanTokens v ts = .ok none ↔ NoOffence v ts [] := by
  obtain ⟨n, hn⟩ := exists_commentsBelow ts
  constructor
  · intro h
    obtain ⟨hharmless, -⟩ | ⟨_, t, _, -, -, ht, hscan⟩ := scanTokens_cases v ts
    · exact noOffence_of_harmlessBefore hn hharmless
    · exact absurd (hscan.symm.trans h) ht
  · intro h
    have hscan := scanTokens_append h.harmlessBefore
    rwa [List.append_nil] at hscan

/-- **The search is exact.** Among any tokens it finds nothing iff they hold no offence, and an
    offence or the fault of a comment iff it comes first.  A text is searched through its tokens,
    with or without them at hand, and is fit iff it can be read and they hold no offence. -/
theorem scanTokens_exact (v : Vocabulary) :
    (∀ ts, (scanTokens v ts = .ok none ↔ NoOffence v ts []) ∧
      (∀ o, scanTokens v ts = .ok (some o) ↔ FirstOffence v ts (.ok o)) ∧
      ∀ e, scanTokens v ts = .error e ↔ FirstOffence v ts (.error e)) ∧
    ∀ cs, findOffence v cs = (tokens v.dialect cs).bind (scanTokens v) ∧
      (∀ ts, tokens v.dialect cs = .ok ts → offenceOf v cs ts = scanTokens v ts) ∧
      (containsOffence v cs = false ↔ ∃ ts, tokens v.dialect cs = .ok ts ∧ NoOffence v ts []) := by
  -- the search and the description find the same first offence; the comments bound the depth
  have hfirst : ∀ ts found, scanTokens v ts = found.map some ↔ FirstOffence v ts found := by
    intro ts found
    obtain ⟨n, hn⟩ := exists_commentsBelow ts
    exact ⟨firstOffence_of_scanTokens hn, FirstOffence.scanTokens_eq⟩
  refine ⟨fun ts => ⟨scanTokens_eq_none_iff ts, fun o => hfirst ts (.ok o), fun e => hfirst ts (.error e)⟩, fun cs => ?_⟩
  refine ⟨findOffence_eq v cs, fun ts hts => offenceOf_eq hts, ?_⟩
  -- a text that cannot be read contains an offence
  have hfit : containsOffence v cs = false ↔ findOffence v cs = .ok none := by
    rw [containsOffence]
    split
    · next h => simp [h]
    · next h => simpa using h
  rw [hfit, findOffence_eq]
  simp only [← scanTokens_eq_none_iff]
  exact bind_eq_ok_iff

end QueryGate
