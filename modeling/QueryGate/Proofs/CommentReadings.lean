import QueryGate.Proofs.CappedText
import QueryGate.Proofs.Lexing.Trimming
import QueryGate.Proofs.OffenceSearch
import QueryGate.Proofs.TableScope

namespace QueryGate

open Sql Lexer

/-!
# Comments that a server may run

MySQL runs the text of comments that begin with `!`, unless they name a version above its own; then
it skips them.  A gate searches such text for forbidden words, and otherwise reads the comments as
blanks.  What a server reads in an accepted text is therefore another matter than what was checked:

* `Reads` — a text, what a server makes of its comments, and the text that the server reads: a
  comment that it skips gives way to a space, and one that it runs to its code;
* `Idle` — code that holds nothing but blanks and comments;
* `Reads.scans` — where nothing else is run the tokens stay, except that blanks and comments stand in
  the place of comments, unless two dashes stand directly before one of these: with a space behind
  them they are a comment of their own (`Exposed`);
* `explicitLimit_of_start` — the limit of a text that starts with a blank;
* `explicitLimit_of_count` — a count that such a text carries, also where blanks stand at its end,
  unless two dashes are left of a comment without them (`Bared`);
* `Gate.accepted_read` — so an accepted text is the same query to the server, and has the same limit,
  as long as the server runs nothing; and what it runs holds no forbidden word;
* `run_limit_or_scope_lost` — code that is run may read any table and lift the limit.
-/

/-! ### Code in comments -/

/-- The code that a comment holds: what follows the mark `!` and a version number. -/
def Sql.Token.code? : Token → Option (List Char)
  | .blank (.blockComment text) =>
    match text.toList with
    | '!' :: cs => some (cs.dropWhile Char.isDigit)
    | _ => none
  | _ => none

/-- The code of a comment is what follows the mark and the version number. -/
theorem Sql.Token.code?_eq_some_iff {t : Token} {code : List Char} : t.code? = some code ↔
    ∃ text body, t = .blank (.blockComment text) ∧ text.toList = '!' :: body ∧
      code = body.dropWhile Char.isDigit := by
  constructor
  · intro h
    unfold code? at h
    split at h
    · next text =>
      split at h
      · next body hbody =>
        cases h
        exact ⟨text, body, rfl, hbody, rfl⟩
      · cases h
    · cases h
  · rintro ⟨text, body, rfl, hbody, rfl⟩
    simp only [code?, hbody]

/-- Code that holds nothing but blanks and comments, the last of which is closed. -/
def Idle (d : Dialect) (code : List Char) : Prop :=
  ∃ us, tokens d code = .ok us ∧ (∀ u ∈ us, u.isTrivia = true) ∧ endsInLineComment us = false

/-! ### Readings of a text -/

/-- What a server makes of a token: it reads it as it stands, or it skips it or runs its code. -/
inductive Treatment where
  | read
  | skipped
  | run
deriving DecidableEq

/-- The second text is what a server reads of the first, behind the token `p`: comments that hold
    code may be skipped, and then a space stands in their place, or run, and then their code stands
    between two spaces.  The list has the tokens of the first text and what is made of them. -/
inductive Reads (d : Dialect) :
    Option Token → List Char → List (Token × Treatment) → List Char → Prop
  | done (p : Option Token) : Reads d p [] [] []
  | read {p : Option Token} {c : Char} {t : Token} {w R R' : List Char}
      {ms : List (Token × Treatment)} (hstep : step d p c (w ++ R) = .ok (t, R))
      (h : Reads d (some t) R ms R') :
      Reads d p (c :: (w ++ R)) ((t, .read) :: ms) (c :: (w ++ R'))
  | skipped {p : Option Token} {c : Char} {t : Token} {w R R' code : List Char}
      {ms : List (Token × Treatment)} (hstep : step d p c (w ++ R) = .ok (t, R))
      (hcode : t.code? = some code) (h : Reads d (some t) R ms R') :
      Reads d p (c :: (w ++ R)) ((t, .skipped) :: ms) (' ' :: R')
  | run {p : Option Token} {c : Char} {t : Token} {w R R' code : List Char}
      {ms : List (Token × Treatment)} (hstep : step d p c (w ++ R) = .ok (t, R))
      (hcode : t.code? = some code) (h : Reads d (some t) R ms R') :
      Reads d p (c :: (w ++ R)) ((t, .run) :: ms) (' ' :: (code ++ ' ' :: R'))

/-- Two dashes stand directly before a comment that is skipped or run. -/
def Exposed (ms : List (Token × Treatment)) : Prop :=
  ∃ t m, m ≠ .read ∧ [(.symbol "-", .read), (.symbol "-", .read), (t, m)] <:+: ms

/-- No code that is run holds anything but blanks and comments. -/
def RunsNothing (d : Dialect) (ms : List (Token × Treatment)) : Prop :=
  ∀ t code, (t, .run) ∈ ms → t.code? = some code → Idle d code

/-- The last comment is skipped or run, and without the blanks at its end the text ends in two dashes
    that are no comment any more. -/
def Bared (d : Dialect) (ms : List (Token × Treatment)) (cs' : List Char) : Prop :=
  (∃ m ∈ ms.getLast?, m.2 ≠ .read) ∧ ∃ us, tokens d (Text.trimEnd cs') = .ok us ∧ Dangling d us

/-- What is exposed stays so behind one more token. -/
theorem Exposed.cons {m : Token × Treatment} {ms : List (Token × Treatment)} (h : Exposed ms) :
    Exposed (m :: ms) := by
  obtain ⟨t, k, hk, hinfix⟩ := h
  exact ⟨t, k, hk, hinfix.trans (List.suffix_cons _ _).isInfix⟩

/-! ### Other blanks in the place of blanks -/

/-- Tokens some of which, blanks or comments, have given way to other blanks and comments. -/
inductive Respaced : List Token → List Token → Prop
  | nil : Respaced [] []
  | same (t : Token) {ts us : List Token} (h : Respaced ts us) : Respaced (t :: ts) (t :: us)
  | gap {t : Token} {gap ts us : List Token} (ht : t.isTrivia = true) (hne : gap ≠ [])
      (hgap : ∀ u ∈ gap, u.isTrivia = true) (h : Respaced ts us) : Respaced (t :: ts) (gap ++ us)

/-- Blanks and comments are no lexemes. -/
theorem lexemes_trivia {gap : List Token} (hgap : ∀ u ∈ gap, u.isTrivia = true) (hne : gap ≠ [])
    (us : List Token) (attached : Bool) :
    Parser.lexemes attached (gap ++ us) = Parser.lexemes false us := by
  induction gap generalizing attached with
  | nil => exact absurd rfl hne
  | cons u gap ih =>
    rw [List.cons_append, Parser.lexemes, if_pos (hgap u (List.mem_cons_self ..))]
    cases gap with
    | nil => rfl
    | cons v gap => exact ih (fun w hw => hgap w (List.mem_cons_of_mem u hw)) (List.cons_ne_nil v gap) false

namespace Respaced

variable {ts us : List Token}

/-- The grammar sees the same lexemes. -/
theorem lexemes (h : Respaced ts us) (attached : Bool) :
    Parser.lexemes attached us = Parser.lexemes attached ts := by
  induction h generalizing attached with
  | nil => rfl
  | same t _ ih => rw [Parser.lexemes, Parser.lexemes, ih, ih]
  | gap ht hne hgap _ ih => rw [lexemes_trivia hgap hne, Parser.lexemes, if_pos ht, ih]

/-- The tokens that are no blanks or comments are the same. -/
theorem filter_eq (h : Respaced ts us) :
    (us.filter fun t => !t.isTrivia) = ts.filter fun t => !t.isTrivia := by
  induction h with
  | nil => rfl
  | same t _ ih => rw [List.filter_cons, List.filter_cons, ih]
  | @gap t gap ts us ht _ hgap _ ih =>
    have hnil : (gap.filter fun t => !t.isTrivia) = [] :=
      List.filter_eq_nil_iff.mpr fun u hu => by simp [hgap u hu]
    rw [List.filter_append, hnil, List.nil_append, ih, List.filter_cons_of_neg (by simp [ht])]

/-- The second rule sees the same token. -/
theorem head?_significant (h : Respaced ts us) : (significant us).head? = (significant ts).head? := by
  induction h with
  | nil => rfl
  | same t _ ih =>
    simp only [significant, List.dropWhile_cons] at ih ⊢
    split
    · exact ih
    · rfl
  | @gap t gap ts us ht _ hgap _ ih =>
    rw [significant_append, significant_eq_nil hgap, Option.none_or, ih, significant, significant,
      List.dropWhile_cons_of_pos ht]

/-- The search for a limit finds the same one. -/
theorem limit_findCap (h : Respaced ts us) (d : Dialect) :
    (findCap d us).limit = (findCap d ts).limit :=
  capFrom_limit_congr ((map_fst_filter_zipIdx us 0).trans
    (h.filter_eq.trans (map_fst_filter_zipIdx ts 0).symm)) 0

end Respaced

/-! ### The tokens of a reading -/

/-- The tokens of code that holds nothing but blanks and comments, and the blank behind it.  The last
    of them may take that blank along. -/
theorem Idle.scans {d : Dialect} {code : List Char} (h : Idle d code) (R : List Char) :
    ∃ gap q, (∀ u ∈ gap, u.isTrivia = true) ∧ Scans d (some (.blank .space)) (code ++ ' ' :: R) gap q R ∧
      afterWord q = false ∧ (q == some (.symbol ".")) = false := by
  obtain ⟨us, hus, htrivia, hclosed⟩ := h
  obtain ⟨q₀, hscan⟩ := (tokens_eq_ok_iff _ _ _).mp hus
  obtain ⟨q, hscan⟩ : ∃ q, Scans d (some (.blank .space)) code us q [] := hscan.behind rfl rfl
  have hsymbol : ∀ text, Token.symbol text ∉ us := fun text hmem => by cases htrivia _ hmem
  -- the blank behind the code is a token of its own, or part of the last one
  cases hscan.extend (b := ' ') (by decide) R with
  | kept q h =>
    refine ⟨us ++ [.blank .space], some (.blank .space), ?_, h.trans (.one (step_space d q R)), rfl, rfl⟩
    intro u hu
    rcases List.mem_append.mp hu with hu | hu
    · exact htrivia u hu
    · rw [List.mem_singleton.mp hu]
      rfl
  | swallowed q hclose h =>
    refine ⟨us, q, htrivia, h, ?_⟩
    rw [h.last]
    cases hlast : us.getLast? with
    | none => exact ⟨rfl, rfl⟩
    | some t =>
      have ht := htrivia t (List.mem_of_getLast? hlast)
      cases t with
      | blank => exact ⟨rfl, rfl⟩
      | _ => cases ht
  -- a line comment would take the text behind it along
  | comment us' text htext hts _ =>
    rw [hts, endsInLineComment_comment htext] at hclosed
    cases hclosed
  -- code that runs nothing holds no operators
  | dashes _ us' hts => exact absurd (hts ▸ by simp) (hsymbol "-")
  | sign _ us' text hts => exact absurd (hts ▸ by simp) (hsymbol text)

namespace Reads

variable {d : Dialect} {p : Option Token} {cs cs' : List Char} {ms : List (Token × Treatment)}

/-- The first text has the tokens that are listed. -/
theorem scans_self (h : Reads d p cs ms cs') : ∃ q, Scans d p cs (ms.map Prod.fst) q [] := by
  induction h with
  | done p => exact ⟨p, .done p []⟩
  | read hstep _ ih | skipped hstep _ _ ih | run hstep _ _ ih =>
    obtain ⟨q, hq⟩ := ih
    exact ⟨q, .token hstep hq⟩

/-- A comment starts with a slash. -/
theorem eq_slash {c : Char} {t : Token} {w R code : List Char}
    (hstep : step d p c (w ++ R) = .ok (t, R)) (hcode : t.code? = some code) : c = '/' := by
  obtain ⟨text, body, rfl, -⟩ := Token.code?_eq_some_iff.mp hcode
  exact (step_eq_blockComment hstep).1

/-- The texts are the same, or they look alike up to the first comment that is skipped or run. -/
theorem alike (h : Reads d p cs ms cs') : cs' = cs ∨ Alike cs cs' := by
  induction h with
  | done p => exact .inl rfl
  | @read p c t w R R' ms _ _ ih =>
    rcases ih with rfl | halike
    · exact .inl rfl
    · exact .inr (.cons c (halike.append w))
  | skipped hstep hcode | run hstep hcode =>
    obtain rfl := eq_slash hstep hcode
    exact .inr (.slash _ _)

/-- Where there is no slash, nothing is skipped or run. -/
theorem eq_of_slash_not_mem (h : Reads d p cs ms cs') (hslash : '/' ∉ cs) : cs' = cs := by
  induction h with
  | done p => rfl
  | read _ _ ih =>
    rw [ih fun hmem => hslash (List.mem_cons_of_mem _ (List.mem_append_right _ hmem))]
  | skipped hstep hcode | run hstep hcode =>
    rw [eq_slash hstep hcode] at hslash
    exact absurd (List.mem_cons_self ..) hslash

/-- The first token of the first text, and what becomes of it. -/
theorem cons_inv {c : Char} {p : Option Token} {cs cs' : List Char} {ms : List (Token × Treatment)}
    (h : Reads d p (c :: cs) ms cs') :
    ∃ t w R R' ms' m, cs = w ++ R ∧ step d p c cs = .ok (t, R) ∧ Reads d (some t) R ms' R' ∧
      ms = (t, m) :: ms' ∧
      (m = .read ∧ cs' = c :: (w ++ R') ∨
        m ≠ .read ∧ (∃ code, t.code? = some code) ∧ cs'.head? = some ' ') := by
  generalize hcs : c :: cs = cs₀ at h
  -- a step is taken in one way: it is read, skipped or run
  cases h with
  | done => cases hcs
  | @read _ _ t w R R' ms' hstep h =>
    cases hcs
    exact ⟨t, w, R, R', ms', .read, rfl, hstep, h, rfl, .inl ⟨rfl, rfl⟩⟩
  | @skipped _ _ t w R R' code ms' hstep hcode h =>
    cases hcs
    exact ⟨t, w, R, R', ms', .skipped, rfl, hstep, h, rfl, .inr ⟨nofun, ⟨code, hcode⟩, rfl⟩⟩
  | @run _ _ t w R R' code ms' hstep hcode h =>
    cases hcs
    exact ⟨t, w, R, R', ms', .run, rfl, hstep, h, rfl, .inr ⟨nofun, ⟨code, hcode⟩, rfl⟩⟩

/-- Where a space stands behind two dashes that stood before a slash, they are exposed. -/
theorem exposed_of_opened (hd : d.dashCommentsNeedSpace = true) {t : Token} {S S' : List Char}
    (hstep : step d p '-' ('-' :: '/' :: S) = .ok (t, '-' :: '/' :: S))
    (h : Reads d (some t) ('-' :: '/' :: S) ms ('-' :: ' ' :: S')) :
    Exposed ((t, .read) :: ms) := by
  obtain rfl : d = .mysql := beq_iff_eq.mp hd
  obtain rfl : t = .symbol "-" := by
    cases hstep
    rfl
  obtain ⟨t₁, w, R, R', ms₁, m₁, hw, hstep₁, h₁, rfl, hout⟩ := h.cons_inv
  -- the second dash is a minus sign as well
  obtain ⟨rfl, rfl⟩ : t₁ = .symbol "-" ∧ R = '/' :: S := by
    cases hstep₁
    exact ⟨rfl, rfl⟩
  obtain rfl : w = [] := List.append_left_eq_self.mp hw.symm
  rcases hout with ⟨rfl, hR'⟩ | ⟨-, ⟨code, hcode⟩, -⟩
  · obtain rfl : ' ' :: S' = R' := (List.cons.inj hR').2
    obtain ⟨t₂, w₂, R₂, R₂', ms₂, m₂, -, -, -, rfl, hout₂⟩ := h₁.cons_inv
    rcases hout₂ with ⟨-, hslash⟩ | ⟨hm₂, -, -⟩
    · cases (List.cons.inj hslash).1
    · exact ⟨t₂, m₂, hm₂, [], ms₂, rfl⟩
  · cases hcode

/-- **What is read.** A server that runs nothing reads the tokens of the first text, with blanks and
    comments in the place of comments, if none of these is exposed to two dashes. -/
theorem scans (h : Reads d p cs ms cs') (hexposed : ¬Exposed ms) (hidle : RunsNothing d ms)
    {r : Option Token} (hword : afterWord p = afterWord r)
    (hpoint : (p == some (.symbol ".")) = (r == some (.symbol "."))) :
    ∃ us q, Scans d r cs' us q [] ∧ Respaced (ms.map Prod.fst) us := by
  induction h generalizing r with
  | done p => exact ⟨[], r, .done r [], .nil⟩
  | @read p c t w R R' ms hstep h ih =>
    obtain ⟨us, q, hrest, hspaced⟩ := ih (fun hin => hexposed hin.cons)
      (fun t code hmem => hidle t code (List.mem_cons_of_mem _ hmem)) rfl rfl
    have hstep' := (step_previous hword hpoint c (w ++ R)).symm.trans hstep
    refine ⟨t :: us, q, ?_, .same t hspaced⟩
    by_cases hslash : '/' ∈ R
    · rcases h.alike with rfl | halike
      · exact .token hstep' hrest
      cases step_followed hstep' halike with
      | kept h' => exact .token h' hrest
      | swallowed hR => simp [hR] at hslash
      | comment hR => simp [hR] at hslash
      | dashes _ _ _ hR => simp [hR] at hslash
      | opened hd hc hw S S' hR hR' =>
        subst hc hw hR hR'
        exact absurd (exposed_of_opened hd hstep h) hexposed
      | sign _ _ _ hR => simp [hR] at hslash
    · -- nothing behind the token has changed
      obtain rfl := h.eq_of_slash_not_mem hslash
      exact .token hstep' hrest
  | @skipped p c t w R R' code ms hstep hcode h ih =>
    obtain ⟨text, body, rfl, -⟩ := Token.code?_eq_some_iff.mp hcode
    obtain ⟨us, q, hrest, hspaced⟩ := ih (r := some (.blank .space)) (fun hin => hexposed hin.cons)
      (fun t code hmem => hidle t code (List.mem_cons_of_mem _ hmem)) rfl rfl
    exact ⟨[.blank .space] ++ us, q, .token (step_space d r R') hrest,
      .gap rfl (List.cons_ne_nil _ _) (by simp [Token.isTrivia]) hspaced⟩
  | @run p c t w R R' code ms hstep hcode h ih =>
    have hcode' := hcode
    obtain ⟨text, body, rfl, -⟩ := Token.code?_eq_some_iff.mp hcode'
    -- the code is read between two spaces
    obtain ⟨gap, q₁, hgap, hscan, hword₁, hpoint₁⟩ :=
      (hidle _ code (List.mem_cons_self ..) hcode).scans R'
    obtain ⟨us, q, hrest, hspaced⟩ := ih (r := q₁) (fun hin => hexposed hin.cons)
      (fun t code hmem => hidle t code (List.mem_cons_of_mem _ hmem)) hword₁.symm hpoint₁.symm
    refine ⟨(.blank .space :: gap) ++ us, q, .token (step_space d r _) (hscan.trans hrest),
      .gap rfl (List.cons_ne_nil _ _) ?_ hspaced⟩
    intro u hu
    rcases List.mem_cons.mp hu with rfl | hu
    · rfl
    · exact hgap u hu

end Reads

/-! ### The start of a text -/

section

variable {d : Dialect} {p q : Option Token} {cs R : List Char} {t : Token} {ts : List Token}

/-- A text that starts with `SELECT` or `WITH`, blanks and comments aside, can be read without the
    blanks at its start. -/
theorem Sql.Scans.startTrimmed (h : Scans d p cs ts q [])
    (hstart : ∃ t ∈ (significant ts).head?, (t.isKeyword "select" || t.isKeyword "with") = true) :
    ∃ gap us p', ts = gap ++ us ∧ (∀ t ∈ gap, t.isTrivia = true) ∧
      Scans d p' (Text.trimStart cs) us q [] ∧ (p' = p ∨ ∃ b, p' = some (.blank b)) := by
  generalize hnil : ([] : List Char) = S at h
  induction h with
  | done p cs =>
    obtain ⟨t, ht, -⟩ := hstart
    cases ht
  | @token p q c t cs R S ts hstep hrest ih =>
    cases hc : Text.isBlank c with
    | false =>
      -- nothing is cut
      refine ⟨[], t :: ts, p, rfl, nofun, ?_, .inl rfl⟩
      rw [Text.trimStart, List.dropWhile_cons_of_neg (by simp [hc])]
      exact .token hstep hrest
    | true =>
      rcases step_blank hc hstep with ⟨htrivia, -⟩ | ⟨hcode, more, rfl⟩
      · have hmore : significant (t :: ts) = significant ts := by
          rw [significant, List.dropWhile_cons_of_pos htrivia, significant]
        rw [hmore] at hstart
        obtain ⟨gap, us, p', rfl, hgap, hscan, hp'⟩ := ih hstart hnil
        refine ⟨t :: gap, us, p', rfl, ?_, ?_, ?_⟩
        · intro u hu
          rcases List.mem_cons.mp hu with rfl | hu
          · exact htrivia
          · exact hgap u hu
        · rw [trimStart_of_step hc hstep htrivia]
          exact hscan
        · obtain ⟨b, rfl⟩ : ∃ b, t = .blank b := by
            cases t with
            | blank b => exact ⟨b, rfl⟩
            | _ => cases htrivia
          rcases hp' with rfl | hblank
          · exact .inr ⟨b, rfl⟩
          · exact .inr hblank
      · -- a word that starts with such a character is no keyword
        exfalso
        obtain ⟨u, hu, hkeyword⟩ := hstart
        obtain rfl : .word (String.ofList (c :: more)) none = u := Option.some.inj hu
        have hlower : c.toLower = c := by
          have hval : 128 ≤ c.val.toNat := hcode
          rw [Char.toLower, dif_neg]
          rintro ⟨-, hle⟩
          have hle' := UInt32.le_iff_toNat_le.mp hle
          have hz : 'Z'.val.toNat = 90 := by decide
          omega
        have hhead : c.toNat < 128 := by
          rcases Bool.or_eq_true_iff.mp hkeyword with hk | hk
          · have heq := asciiEqual_head (x := 's') hk rfl
            rw [hlower] at heq
            rw [heq]
            decide
          · have heq := asciiEqual_head (x := 'w') hk rfl
            rw [hlower] at heq
            rw [heq]
            decide
        omega

end

/-! ### The ends of the texts -/

namespace Reads

variable {d : Dialect} {p : Option Token} {cs cs' : List Char} {ms : List (Token × Treatment)}

/-- A text that is read to its end has nothing left. -/
theorem nil_iff (h : Reads d p cs ms cs') : cs = [] ↔ ms = [] := by
  cases h <;> simp

/-- A reading ends at a comment, which is a character of both texts. -/
theorem ne_nil {m : Token × Treatment} (h : Reads d p cs (m :: ms) cs') : cs ≠ [] ∧ cs' ≠ [] := by
  cases h <;> simp

/-- Where the last token is read as it stands, the texts end alike. -/
theorem getLast?_eq (h : Reads d p cs ms cs') (hlast : ∀ m ∈ ms.getLast?, m.2 = .read) :
    cs'.getLast? = cs.getLast? := by
  induction h with
  | done p => rfl
  | @read p c t w R R' ms _ h ih =>
    cases ms with
    | nil =>
      -- a text that ends with a token that is read is not changed at its end
      obtain rfl : R = [] := h.nil_iff.mpr rfl
      cases h
      rfl
    | cons m ms =>
      obtain ⟨hR, hR'⟩ := h.ne_nil
      rw [List.getLast?_cons_cons] at hlast
      rw [← List.cons_append, ← List.cons_append, List.getLast?_append_of_ne_nil _ hR,
        List.getLast?_append_of_ne_nil _ hR', ih hlast]
  | @skipped p c t w R R' code ms _ _ h ih =>
    cases ms with
    | nil => cases hlast _ rfl
    | cons m ms =>
      -- the last treatment is that of a later token, so the end lies behind this comment
      obtain ⟨hR, hR'⟩ := h.ne_nil
      rw [List.getLast?_cons_cons] at hlast
      rw [← List.cons_append, ← List.singleton_append, List.getLast?_append_of_ne_nil _ hR,
        List.getLast?_append_of_ne_nil _ hR', ih hlast]
  | @run p c t w R R' code ms _ _ h ih =>
    cases ms with
    | nil => cases hlast _ rfl
    | cons m ms =>
      obtain ⟨hR, hR'⟩ := h.ne_nil
      have hfront : ' ' :: (code ++ ' ' :: R') = (' ' :: code ++ [' ']) ++ R' := by simp
      rw [List.getLast?_cons_cons] at hlast
      rw [hfront, ← List.cons_append, List.getLast?_append_of_ne_nil _ hR,
        List.getLast?_append_of_ne_nil _ hR', ih hlast]

/-- A comment ends in a slash. -/
theorem getLast?_of_comment {c : Char} {t : Token} {w code : List Char}
    (hstep : step d p c (w ++ []) = .ok (t, [])) (hcode : t.code? = some code) :
    (c :: (w ++ [])).getLast? = some '/' := by
  obtain ⟨text, -, rfl, -⟩ := Token.code?_eq_some_iff.mp hcode
  obtain ⟨rfl, body, hbody, hread⟩ := step_eq_blockComment hstep
  -- the mark that ends the comment
  obtain ⟨u, hu, rfl, -⟩ := blockText?_follow hread
  rw [hbody, List.append_nil, List.getLast?_cons, List.getLast?_cons, hu]
  rfl

/-- Where the last token is skipped or run, the first text ends in a slash. -/
theorem getLast?_eq_slash (h : Reads d p cs ms cs') (hlast : ∃ m ∈ ms.getLast?, m.2 ≠ .read) :
    cs.getLast? = some '/' := by
  induction h with
  | done p =>
    obtain ⟨m, hm, -⟩ := hlast
    cases hm
  | @read p c t w R R' ms _ h ih =>
    cases ms with
    | nil =>
      -- the last treatment is not that of this token, which is read
      obtain ⟨m, hm, hread⟩ := hlast
      cases hm
      exact absurd rfl hread
    | cons m ms =>
      rw [List.getLast?_cons_cons] at hlast
      rw [← List.cons_append, List.getLast?_append_of_ne_nil _ h.ne_nil.1, ih hlast]
  | @skipped p c t w R R' code ms hstep hcode h ih | @run p c t w R R' code ms hstep hcode h ih =>
    cases ms with
    | nil =>
      obtain rfl : R = [] := h.nil_iff.mpr rfl
      -- the comment ends the text, and with it the two characters that close it
      exact getLast?_of_comment hstep hcode
    | cons m ms =>
      rw [List.getLast?_cons_cons] at hlast
      rw [← List.cons_append, List.getLast?_append_of_ne_nil _ h.ne_nil.1, ih hlast]

/-- The code of a comment stands in the text of the comment. -/
theorem mem_of_mem_code {c : Char} {t : Token} {w R code : List Char}
    (hstep : step d p c (w ++ R) = .ok (t, R)) (hcode : t.code? = some code) {x : Char}
    (hx : x ∈ code) : x ∈ c :: (w ++ R) := by
  obtain ⟨text, body, rfl, htext, rfl⟩ := Token.code?_eq_some_iff.mp hcode
  obtain ⟨-, rest, hrest, hread⟩ := step_eq_blockComment hstep
  have hmem : x ∈ text.toList := by
    rw [htext]
    exact List.mem_cons_of_mem _ ((List.dropWhile_suffix _).subset hx)
  have hfirst := blockText?_prefix hread
  rw [hrest]
  exact List.mem_cons_of_mem _ (List.mem_cons_of_mem _ (hfirst.subset hmem))

/-- Nothing but spaces is added. -/
theorem mem_of_mem (h : Reads d p cs ms cs') {x : Char} (hx : x ∈ cs') : x ∈ cs ∨ x = ' ' := by
  induction h with
  | done p => cases hx
  | read _ _ ih =>
    rcases List.mem_cons.mp hx with rfl | hx
    · exact .inl (List.mem_cons_self ..)
    rcases List.mem_append.mp hx with hx | hx
    · exact .inl (List.mem_cons_of_mem _ (List.mem_append_left _ hx))
    · refine (ih hx).imp_left fun hmem => ?_
      exact List.mem_cons_of_mem _ (List.mem_append_right _ hmem)
  | skipped _ _ _ ih =>
    rcases List.mem_cons.mp hx with rfl | hx
    · exact .inr rfl
    · refine (ih hx).imp_left fun hmem => ?_
      exact List.mem_cons_of_mem _ (List.mem_append_right _ hmem)
  | run hstep hcode _ ih =>
    rcases List.mem_cons.mp hx with rfl | hx
    · exact .inr rfl
    rcases List.mem_append.mp hx with hx | hx
    -- the code is part of the comment
    · exact .inl (mem_of_mem_code hstep hcode hx)
    rcases List.mem_cons.mp hx with rfl | hx
    · exact .inr rfl
    · refine (ih hx).imp_left fun hmem => ?_
      exact List.mem_cons_of_mem _ (List.mem_append_right _ hmem)

end Reads

/-! ### Accepted texts -/

/-- The lexemes of a text decide how it parses. -/
theorem Sql.parse_eq_of_lexemes {d : Dialect} {cs cs' : List Char} {ts us : List Token}
    (hts : tokens d cs = .ok ts) (hus : tokens d cs' = .ok us)
    (h : Parser.lexemes false us = Parser.lexemes false ts) : parse d cs' = parse d cs := by
  rw [parse, parse, hts, hus]
  have htokens : Parser.parseTokens d us = Parser.parseTokens d ts := by
    rw [Parser.parseTokens, Parser.parseTokens, h]
  simp only [htokens]

/-- The limit of a text that starts with `SELECT` or `WITH` and ends in no blank is that of its
    tokens. -/
theorem explicitLimit_of_start {d : Dialect} {cs : List Char} {ts : List Token} {q : Option Token}
    (h : Scans d none cs ts q []) (hseparator : ';' ∉ cs)
    (hlast : ∀ c ∈ cs.getLast?, Text.isBlank c = false)
    (hstart : ∃ t ∈ (significant ts).head?, (t.isKeyword "select" || t.isKeyword "with") = true) :
    explicitLimit d cs = (findCap d ts).limit := by
  obtain ⟨gap, us, p', rfl, hgap, hscan, hp'⟩ := h.startTrimmed hstart
  have hready : Ready (Text.trimStart cs) := by
    refine ⟨⟨?_, ?_⟩, ?_⟩
    · intro c hc
      have hnot := List.head?_dropWhile_not Text.isBlank cs
      rw [show cs.dropWhile Text.isBlank = Text.trimStart cs from rfl, Option.mem_def.mp hc] at hnot
      simpa using hnot
    · intro c hc
      refine hlast c ?_
      obtain ⟨front, hfront⟩ : Text.trimStart cs <:+ cs := List.dropWhile_suffix _
      have hne : Text.trimStart cs ≠ [] := by
        rintro hnil
        rw [hnil] at hc
        cases hc
      rw [← hfront, List.getLast?_append_of_ne_nil _ hne]
      exact hc
    · exact fun hmem => hseparator ((List.dropWhile_suffix _).subset hmem)
  have htokens : tokens d (Text.trimStart cs) = .ok us := by
    refine (tokens_eq_ok_iff _ _ _).mpr ?_
    rcases hp' with rfl | ⟨b, rfl⟩
    · exact ⟨q, hscan⟩
    · exact hscan.behind rfl rfl
  have hcut : withoutTrailingSemicolons (Text.trimStart cs) = withoutTrailingSemicolons cs := by
    rw [withoutTrailingSemicolons, withoutTrailingSemicolons, Text.trimStart, Text.trimStart,
      List.dropWhile_idempotent]
  have hlimit : explicitLimit d cs = explicitLimit d (Text.trimStart cs) := by
    rw [explicitLimit, explicitLimit, hcut]
  rw [hlimit, explicitLimit_of_ready hready htokens, findCap, findCap, significantTokens_append]
  -- the blanks in front only move the tokens to other places
  have hfront : significantTokens gap = [] := filter_zipIdx_trivia hgap 0
  rw [hfront, List.nil_append]
  exact capFrom_limit_congr
    ((map_fst_filter_zipIdx us 0).trans (map_fst_filter_zipIdx us gap.length).symm) 0

/-- A count among the tokens of a text that starts with `SELECT` or `WITH` is its limit, unless two
    dashes are left without the blanks at its end. -/
theorem explicitLimit_of_count {d : Dialect} {cs : List Char} {ts : List Token} {q : Option Token}
    {n : Nat} (h : Scans d none cs ts q []) (hseparator : ';' ∉ cs)
    (hstart : ∃ t ∈ (significant ts).head?, (t.isKeyword "select" || t.isKeyword "with") = true)
    (hfirm : ∀ us, tokens d (Text.trimEnd cs) = .ok us → ¬Dangling d us)
    (hcap : (findCap d ts).limit = .rows n) : explicitLimit d cs = .rows n := by
  obtain ⟨B, hB, hblank⟩ := Text.exists_trimEnd cs
  obtain ⟨us, q', hscan, hshort⟩ := Scans.trim (hB ▸ h) hblank
  have hus : tokens d (Text.trimEnd cs) = .ok us := (tokens_eq_ok_iff _ _ _).mpr ⟨q', hscan⟩
  have hshort : Shortened ts us := hshort.resolve_left (hfirm us hus)
  -- trimming may shorten the last token, but not the word that starts the statement
  have hhead : (significant us).head? = (significant ts).head? := by
    refine hshort.head ["select", "with"] (by decide) ?_
    obtain ⟨t, ht, hkeyword⟩ := hstart
    rcases Bool.or_eq_true_iff.mp hkeyword with hselect | hwith
    · exact ⟨t, ht, "select", by simp, hselect⟩
    · exact ⟨t, ht, "with", by simp, hwith⟩
  have hseparator' : ';' ∉ Text.trimEnd cs := fun hmem =>
    hseparator (hB ▸ List.mem_append_left B hmem)
  -- blanks behind the statement do not matter for its limit
  have hcut : explicitLimit d cs = explicitLimit d (Text.trimEnd cs) := by
    conv_lhs => rw [hB]
    rw [explicitLimit, explicitLimit, withoutTrailingSemicolons_append hblank]
  rw [hcut, explicitLimit_of_start hscan hseparator' (Text.trimEnd_last cs) (hhead ▸ hstart),
    hshort.limit hcap]

/-- The code that is run from an accepted text can be read and holds no forbidden word. -/
theorem Rules.noOffence_of_run {r : Rules} {statement : List Char} {ts : List Token}
    (hmysql : r.vocabulary.dialect = .mysql) (hshape : r.HasShape statement)
    (hts : tokens r.vocabulary.dialect statement = .ok ts) {t : Token} {code : List Char}
    (hmem : t ∈ ts) (hcode : t.code? = some code) :
    ∃ us, tokens r.vocabulary.dialect code = .ok us ∧ NoOffence r.vocabulary us [] := by
  obtain ⟨ts', hts', -, hwords⟩ := hshape.readable
  -- the rules have seen the tokens of the whole statement, comments among them
  obtain rfl : ts = ts' := Except.ok.inj (hts.symm.trans hts')
  have hnone := (scanTokens_eq_none_iff _).mp
    ((firstOffence_eq_none_iff _).mpr ((Rules.checkWords_eq_ok_iff hts).mp hwords))
  obtain ⟨text, body, rfl, htext, rfl⟩ := Token.code?_eq_some_iff.mp hcode
  have hholds : HoldsCode r.vocabulary text (body.dropWhile Char.isDigit) :=
    ⟨hmysql, body, htext, rfl⟩
  -- no offence means none in the code of any comment
  cases hnone with
  | intro _ _ readable inside =>
    obtain ⟨us, hus⟩ := readable text _ hmem hholds
    exact ⟨us, hus, inside text _ us hmem hholds hus⟩

/-- **Comments that a server may run.** What a MySQL server runs of an accepted text can be read and
    holds no forbidden word.  Where it runs nothing but blanks and comments, the text that it reads is
    the same query, if no comment that it skips or runs stands directly behind two dashes; and it has
    the same limit, if none of them bares two dashes at the end. -/
theorem Gate.accepted_read {g : Gate} {allowed : AllowList} {maxRows : Nat}
    {sql out out' : List Char} {ms : List (Token × Treatment)}
    (h : (g.prepareWithin allowed maxRows sql).value = .accepted out)
    (hreads : Reads g.dialect none out ms out') :
    (g.dialect = .mysql → ∀ t code, (t, .run) ∈ ms → t.code? = some code →
      ∃ us, tokens g.dialect code = .ok us ∧ NoOffence g.rules.vocabulary us []) ∧
    (¬Exposed ms → RunsNothing g.dialect ms →
      ∃ q, parse g.dialect out = .ok [.query q] ∧ parse g.dialect out' = .ok [.query q] ∧
        (∀ u ∈ q.uses [], u.ref.isRelation = true →
          u.Permitted allowed g.settings.defaultSchema) ∧
        (¬Bared g.dialect ms out' →
          explicitLimit g.dialect out' = explicitLimit g.dialect out)) := by
  obtain ⟨-, -, -, -, hcheck⟩ := (g.prepareWithin_eq_accepted_iff _ _ _ _).mp h
  have hready := Rules.ready_of_check hcheck
  obtain ⟨-, hmeets⟩ := (g.rules.check_eq_ok_iff _ _ _).mp hcheck
  have hts : tokens g.dialect out = .ok (ms.map Prod.fst) :=
    (tokens_eq_ok_iff _ _ _).mpr hreads.scans_self
  refine ⟨fun hmysql t code hmem hcode => ?_, fun hexposed hidle => ?_⟩
  · exact Rules.noOffence_of_run hmysql hmeets.toHasShape hts (List.mem_map_of_mem hmem) hcode
  obtain ⟨q, hparse, hpermitted⟩ := hmeets.relation_permitted
  -- both texts have the tokens of the list, with blanks in the place of comments
  obtain ⟨us, last, hscan, hspaced⟩ := hreads.scans hexposed hidle rfl rfl
  have hus : tokens g.dialect out' = .ok us := (tokens_eq_ok_iff _ _ _).mpr ⟨last, hscan⟩
  refine ⟨q, hparse, ?_, hpermitted, fun hbared => ?_⟩
  · rw [← hparse]
    exact parse_eq_of_lexemes hts hus (hspaced.lexemes false)
  · obtain ⟨ts, hts', hstart, -⟩ := hmeets.readable
    obtain rfl : ms.map Prod.fst = ts := Except.ok.inj (hts.symm.trans hts')
    have hstart' := (Rules.checkStart_eq_ok_iff _).mp hstart
    rw [← hspaced.head?_significant] at hstart'
    have hseparator : ';' ∉ out' := by
      intro hmem
      rcases hreads.mem_of_mem hmem with hmem | heq
      · exact hready.unseparated hmem
      · cases heq
    have hlimit : explicitLimit g.dialect out = (findCap g.dialect us).limit := by
      rw [explicitLimit_of_ready hready hts, hspaced.limit_findCap]
    by_cases hlast : ∃ m ∈ ms.getLast?, m.2 ≠ .read
    · -- a text that ends in a comment came with a count
      have hslash := hreads.getLast?_eq_slash hlast
      obtain ⟨k, hk⟩ := limit_of_last h fun c hc => by
        rw [hslash] at hc
        cases hc
        decide
      rw [hk]
      exact explicitLimit_of_count hscan hseparator hstart'
        (fun us hus hdangling => hbared ⟨hlast, us, hus, hdangling⟩) (hlimit.symm.trans hk)
    · have hend : ∀ c ∈ out'.getLast?, Text.isBlank c = false := by
        rw [hreads.getLast?_eq fun m hm => by_contra fun hread => hlast ⟨m, hm, hread⟩]
        exact hready.last
      rw [explicitLimit_of_start hscan hseparator hend hstart', hlimit]

/-! ### Choices of comments -/

/-- The text that a server reads which makes of the tokens what is chosen; only comments that hold
    code can be skipped or run. -/
def readComments (d : Dialect) :
    Option Token → List Char → List Treatment → Option (List (Token × Treatment) × List Char)
  | _, [], [] => some ([], [])
  | p, c :: cs, m :: choice =>
    match Lexer.step d p c cs with
    | .ok (t, R) =>
      (readComments d (some t) R choice).bind fun (ms, R') =>
        match m, t.code? with
        | .read, _ => some ((t, .read) :: ms, c :: (cs.take (cs.length - R.length) ++ R'))
        | .skipped, some _ => some ((t, .skipped) :: ms, ' ' :: R')
        | .run, some code => some ((t, .run) :: ms, ' ' :: (code ++ ' ' :: R'))
        | _, none => none
    | .error _ => none
  | _, _, _ => none

/-- What is read where something is chosen. -/
theorem reads_of_readComments {d : Dialect} {p : Option Token} {cs cs' : List Char}
    {choice : List Treatment} {ms : List (Token × Treatment)}
    (h : readComments d p cs choice = some (ms, cs')) : Reads d p cs ms cs' := by
  induction choice generalizing p cs cs' ms with
  | nil =>
    cases cs with
    | nil =>
      cases h
      exact .done p
    | cons c cs => cases h
  | cons m choice ih =>
    cases cs with
    | nil => cases h
    | cons c cs =>
      rw [readComments] at h
      split at h
      · next t R hstep =>
        obtain ⟨⟨ms', R'⟩, hrest, hchosen⟩ := Option.bind_eq_some_iff.mp h
        have hreads := ih hrest
        -- the token takes the front of the text
        obtain ⟨w, rfl⟩ := step_suffix hstep
        rw [List.length_append, Nat.add_sub_cancel, List.take_left] at hchosen
        dsimp only at hchosen
        split at hchosen
        · cases hchosen
          exact .read hstep hreads
        · next code hcode =>
          cases hchosen
          exact .skipped hstep hcode hreads
        · next code hcode =>
          cases hchosen
          exact .run hstep hcode hreads
        · cases hchosen
      · cases h

/-- A choice of treatments that can be followed to the end of a text is a reading of it. -/
theorem exists_reads {d : Dialect} {p : Option Token} {cs cs' : List Char} (choice : List Treatment)
    (h : (readComments d p cs choice).map Prod.snd = some cs') : ∃ ms, Reads d p cs ms cs' := by
  obtain ⟨⟨ms, _⟩, hchosen, rfl⟩ := Option.map_eq_some_iff.mp h
  exact ⟨ms, reads_of_readComments hchosen⟩

/-! ### Limits and tables that change -/

/-- A gate for MySQL that treats a limit above the maximum in some way. -/
def mysqlGate (policy : LimitPolicy) : Gate :=
  ⟨{ GateSettings.default with dialect := .mysql, limitPolicy := policy }⟩

/-- A query with a comment behind its first number and one at its end, which holds no code. -/
def versionedText : List Char := "select 1 /*!5 , 2*/limit 9/*!6 */".toList

/-- `versionedText` to a server that skips the first comment and runs the second. -/
def versionedRead : List Char := "select 1  limit 9   ".toList

/-- The tokens of `versionedText`, and what that server makes of them. -/
def versionedMarks : List (Token × Treatment) :=
  [(.word "select" none, .read), (.blank .space, .read), (.number "1" false, .read),
    (.blank .space, .read), (.blank (.blockComment "!5 , 2"), .skipped),
    (.word "limit" none, .read), (.blank .space, .read), (.number "9" false, .read),
    (.blank (.blockComment "!6 "), .run)]

/-- The gate takes the comment for a blank and returns the text as it came. -/
private theorem prepareWithin_versionedText :
    ((mysqlGate .preserve).prepareWithin onlyT 1000 versionedText).value = .accepted versionedText := by
  decide +kernel

/-- The server reads the query that was checked. -/
theorem versionedText_read :
    ((mysqlGate .preserve).prepareWithin onlyT 1000 versionedText).value = .accepted versionedText ∧
    Reads .mysql none versionedText versionedMarks versionedRead ∧
    ¬Exposed versionedMarks ∧ RunsNothing .mysql versionedMarks ∧
    ¬Bared .mysql versionedMarks versionedRead ∧
    ∃ q, parse .mysql versionedText = .ok [.query q] ∧
      parse .mysql versionedRead = .ok [.query q] ∧
      (∀ u ∈ q.uses [], u.ref.isRelation = true →
        u.Permitted onlyT none) ∧
      explicitLimit .mysql versionedRead
        = explicitLimit .mysql versionedText := by
  have hchosen : readComments .mysql none versionedText (versionedMarks.map Prod.snd)
      = some (versionedMarks, versionedRead) := by decide
  have hreads : Reads .mysql none versionedText versionedMarks versionedRead :=
    reads_of_readComments hchosen
  -- a comment is exposed behind a dash, and there is no dash
  have hexposed : ¬Exposed versionedMarks := by
    rintro ⟨t, m, -, front, back, h⟩
    have hmem : (Token.symbol "-", Treatment.read) ∈ versionedMarks := by
      rw [← h]
      simp
    exact absurd hmem (by decide)
  -- the body is a blank behind the version number
  have hidle : RunsNothing .mysql versionedMarks := by
    intro t code hmem hcode
    obtain rfl : t = .blank (.blockComment "!6 ") := by simpa [versionedMarks] using hmem
    obtain rfl : [' '] = code := Option.some.inj hcode
    exact ⟨[.blank .space], by decide, by decide, by decide⟩
  have htokens : tokens .mysql (Text.trimEnd versionedRead) = .ok [.word "select" none,
      .blank .space, .number "1" false, .blank .space, .blank .space, .word "limit" none,
      .blank .space, .number "9" false] := by decide
  -- the last token is a number, which the trimming cannot shorten
  have hbared : ¬Bared .mysql versionedMarks versionedRead := by
    rintro ⟨-, us, hus, hdangling⟩
    obtain rfl := Except.ok.inj (htokens.symm.trans hus)
    exact absurd hdangling (by decide)
  obtain ⟨-, hsame⟩ := Gate.accepted_read prepareWithin_versionedText hreads
  obtain ⟨q, hparse, hparse', hpermitted, hlimit⟩ := hsame hexposed hidle
  exact ⟨prepareWithin_versionedText, hreads, hexposed, hidle, hbared, q, hparse, hparse', hpermitted,
    hlimit hbared⟩

/-- A table that is neither in the list nor hidden is not permitted. -/
theorem TableUse.not_permitted {allowed : AllowList} {fallback : Option String} {u : TableUse}
    (hallowed : allowed.resolves u.ref.name fallback = false) (hhidden : u.isHidden = false) :
    ¬u.Permitted allowed fallback := by
  rintro (h | h)
  · rw [hallowed] at h
    cases h
  · rw [hhidden] at h
    cases h

/-- A query whose comment holds a further query, from a table that is not allowed. -/
def unionText : List Char :=
  "select * from t /*!50000 union select * from secrets */ limit 5".toList

/-- `unionText` to a server that runs the comment. -/
def unionRun : List Char :=
  "select * from t   union select * from secrets   limit 5".toList

/-- A query whose comment makes an offset of the count before it and holds another count. -/
def countText : List Char := "select * from t limit 5 /*!50000 , 1000000 */".toList

/-- `countText` to a server that runs the comment. -/
def countRun : List Char := "select * from t limit 5   , 1000000  ".toList

/-- Both queries are accepted, whatever is done with limits above the maximum.  A server that runs
    their comments reads a table in the first that is neither allowed nor hidden, and a limit in the
    second that is above the maximum. -/
theorem run_limit_or_scope_lost :
    (∀ policy, ((mysqlGate policy).prepareWithin onlyT 5 unionText).value = .accepted unionText) ∧
    (∃ ms, Reads .mysql none unionText ms unionRun) ∧
    (∃ q, parse .mysql unionRun = .ok [.query q] ∧
      ∃ u ∈ q.uses [], u.ref.isRelation = true ∧ ¬u.Permitted onlyT none) ∧
    (∀ policy, ((mysqlGate policy).prepareWithin onlyT 5 countText).value = .accepted countText) ∧
    (∃ ms, Reads .mysql none countText ms countRun) ∧
    explicitLimit .mysql countText = .rows 5 ∧ explicitLimit .mysql countRun = .rows 1000000 := by
  -- the comment that is run is the ninth mark
  have hunion : ∃ ms, Reads .mysql none unionText ms unionRun :=
    exists_reads (List.replicate 8 .read ++ [.run] ++ List.replicate 4 .read) (by decide +kernel)
  -- here it is the last one
  have hcount : ∃ ms, Reads .mysql none countText ms countRun :=
    exists_reads (List.replicate 12 .read ++ [.run]) (by decide +kernel)
  -- the query that is run reads a table that is not allowed
  obtain ⟨q, hparse, huses⟩ : ∃ q, parse .mysql unionRun = .ok [.query q] ∧
      decide (q.uses [] = [⟨[], .relation [⟨"t", none⟩]⟩, ⟨[], .relation [⟨"secrets", none⟩]⟩]) = true :=
    exists_query (by decide +kernel)
  refine ⟨fun policy => ?_, hunion, ⟨q, hparse, ?_⟩, fun policy => ?_, hcount, by decide +kernel,
    by decide +kernel⟩
  · cases policy <;> decide +kernel
  · rw [of_decide_eq_true huses]
    exact ⟨_, List.mem_cons_of_mem _ (List.mem_singleton_self _), rfl,
      TableUse.not_permitted (by decide) (by decide)⟩
  · cases policy <;> decide +kernel

/-! ### Spaces behind dashes -/

/-- A query with a comment directly behind two dashes. -/
def exposedText : List Char := "select 1 --/*!5 x*/1 limit 9".toList

/-- `exposedText` without its comment, where the dashes are a comment. -/
def exposedSkipped : List Char := "select 1 -- 1 limit 9".toList

/-- A query that ends in a comment, behind a comment without text. -/
def trailingText : List Char := "select 1 limit 9 -- \n/*!5 x*/".toList

/-- `trailingText` without its last comment; what is left of the other one are two dashes. -/
def trailingSkipped : List Char := "select 1 limit 9 -- \n ".toList

/-- A query from a common table expression, with a comment directly behind two dashes before it. -/
def scopeText : List Char :=
  "with a as (select 1 --/*!5 x*/1), s as (select 2\n) select 3 from s limit 4".toList

/-- `scopeText` without its comment, where the dashes make a comment of the expression. -/
def scopeSkipped : List Char :=
  "with a as (select 1 -- 1), s as (select 2\n) select 3 from s limit 4".toList

/-- The three queries are accepted.  Without a comment the first two are queries that have no limit
    or none with a bound, and the third reads a table that is neither allowed nor hidden. -/
theorem skipped_limit_or_scope_lost :
    (((mysqlGate .preserve).prepareWithin onlyT 1000 exposedText).value = .accepted exposedText ∧
      (∃ ms, Reads .mysql none exposedText ms exposedSkipped) ∧
      (∃ q, parse .mysql exposedSkipped = .ok [.query q]) ∧
      explicitLimit .mysql exposedSkipped = .absent) ∧
    (((mysqlGate .preserve).prepareWithin onlyT 1000 trailingText).value = .accepted trailingText ∧
      (∃ ms, Reads .mysql none trailingText ms trailingSkipped) ∧
      (∃ q, parse .mysql trailingSkipped = .ok [.query q]) ∧
      explicitLimit .mysql trailingSkipped = .unbounded) ∧
    (((mysqlGate .preserve).prepareWithin onlyT 1000 scopeText).value = .accepted scopeText ∧
      (∃ ms, Reads .mysql none scopeText ms scopeSkipped) ∧
      ∃ q, parse .mysql scopeSkipped = .ok [.query q] ∧
        ∃ u ∈ q.uses [], u.ref.isRelation = true ∧
          ¬u.Permitted onlyT none) := by
  have hexposed : ∃ ms, Reads .mysql none exposedText ms exposedSkipped :=
    exists_reads (List.replicate 6 .read ++ [.skipped] ++ List.replicate 5 .read) (by decide +kernel)
  have htrailing : ∃ ms, Reads .mysql none trailingText ms trailingSkipped :=
    exists_reads (List.replicate 9 .read ++ [.skipped]) (by decide +kernel)
  have hscope : ∃ ms, Reads .mysql none scopeText ms scopeSkipped :=
    exists_reads (List.replicate 13 .read ++ [.skipped] ++ List.replicate 26 .read)
      (by decide +kernel)
  have hquery : ∀ {cs : List Char}, (query? .mysql cs).any (fun _ => true) = true →
      ∃ q, parse .mysql cs = .ok [.query q] := fun h => by
    obtain ⟨q, hparse, -⟩ := exists_query h
    exact ⟨q, hparse⟩
  -- the comment holds the expression that would hide the table
  obtain ⟨q, hparse, huses⟩ : ∃ q, parse .mysql scopeSkipped = .ok [.query q] ∧
      decide (q.uses [] = [⟨[⟨"a", none⟩], .relation [⟨"s", none⟩]⟩]) = true :=
    exists_query (by decide +kernel)
  refine ⟨⟨by decide +kernel, hexposed, hquery (by decide +kernel), by decide⟩,
    ⟨by decide +kernel, htrailing, hquery (by decide +kernel), by decide⟩,
    by decide +kernel, hscope, q, hparse, ?_⟩
  rw [of_decide_eq_true huses]
  exact ⟨_, List.mem_singleton_self _, rfl, TableUse.not_permitted (by decide) (by decide)⟩

end QueryGate
