import Mathlib
import QueryGate.Proofs.ExtraKeywords
import QueryGate.Proofs.Lexing.Words
import QueryGate.Proofs.TrailingSemicolons

namespace QueryGate

open Sql Text

/-!
# Faults behind a statement

A text that cannot be read is looked at character by character, so that a fault at its end does not
hide that it breaks the second or the third rule.  The characters and the tokens tell the same where
they agree on the place of the first word.

* `tokens_of_cut` — blanks and semicolons behind a text that can be read can be read;
* `Scans.tail`, `withoutLeadingComments_tail` — tokens and characters come to the same place when a
  text goes on;
* `Lexer.step_startsQuery` — the words that start queries are plain, so the characters see them too;
* `Gate.brokenTail_keeps_rule` — where both see the first word at one place, a fault behind it hides
  neither another word than a query nor, behind a query, a semicolon; `openLiteral_hides_drop` is a
  text where they do not.
-/

/-! ### The first word of a text, character by character -/

/-- A mark that is found is no longer than the text. -/
theorem mark_length {mark cs : List Char} (h : behind mark cs ≠ []) : mark.length ≤ cs.length := by
  induction cs with
  | nil => exact absurd rfl h
  | cons c cs ih =>
    rw [behind] at h
    by_cases hmark : mark.isPrefixOf (c :: cs) = true
    · exact (List.isPrefixOf_iff_prefix.mp hmark).length_le
    · rw [if_neg hmark] at h
      exact Nat.le_succ_of_le (ih h)

/-- What is found behind a mark is found with more text behind it. -/
theorem behind_append {mark cs : List Char} (h : behind mark cs ≠ []) (more : List Char) :
    behind mark (cs ++ more) = behind mark cs ++ more := by
  induction cs with
  | nil => exact absurd rfl h
  | cons c cs ih =>
    rw [behind] at h
    rw [List.cons_append, behind, behind]
    by_cases hmark : mark.isPrefixOf (c :: cs) = true
    · have hfront := List.isPrefixOf_iff_prefix.mp hmark
      have hlonger : mark.isPrefixOf (c :: (cs ++ more)) = true :=
        List.isPrefixOf_iff_prefix.mpr (hfront.trans (List.prefix_append (c :: cs) more))
      rw [if_pos hmark, if_pos hlonger, ← List.cons_append,
        List.drop_append_of_le_length hfront.length_le]
    · rw [if_neg hmark] at h ⊢
      rw [if_neg, ih h]
      -- the mark is short enough to stand in the text itself
      refine fun hlonger => hmark (List.isPrefixOf_iff_prefix.mpr ?_)
      exact List.prefix_of_prefix_length_le (List.isPrefixOf_iff_prefix.mp hlonger)
        (List.prefix_append (c :: cs) more) (Nat.le_succ_of_le (mark_length h))

/-- Nothing is added by looking behind a mark. -/
theorem behind_length (mark cs : List Char) : (behind mark cs).length ≤ cs.length := by
  induction cs with
  | nil => exact Nat.le_refl _
  | cons c cs ih =>
    rw [behind]
    split
    · rw [List.length_drop]
      omega
    · exact Nat.le_succ_of_le ih

/-- The mark that ends a comment that two characters open. -/
def commentEnd? (a b : Char) : Option (List Char) :=
  if a = '-' ∧ b = '-' then some ['\n'] else if a = '/' ∧ b = '*' then some ['*', '/'] else none

/-- The text behind a comment at the start of a text. -/
def behindComment? : List Char → Option (List Char)
  | a :: b :: rest => (commentEnd? a b).map fun mark => behind mark rest
  | _ => none

/-- One round: blanks, then one comment, if there is one. -/
theorem withoutLeadingComments_succ (fuel : Nat) (cs : List Char) :
    withoutLeadingComments (fuel + 1) cs
      = match behindComment? (trimStart cs) with
        | some rest => withoutLeadingComments fuel rest
        | none => trimStart cs := by
  rw [withoutLeadingComments]
  generalize trimStart cs = start
  split
  · rfl
  · rfl
  · next hdash hslash =>
    -- neither of the two marks stands at the start
    have hnone : behindComment? start = none := by
      rcases start with _ | ⟨a, _ | ⟨b, rest⟩⟩
      · rfl
      · rfl
      · rw [behindComment?, commentEnd?, if_neg, if_neg]
        · rfl
        · rintro ⟨rfl, rfl⟩
          exact hslash rest rfl
        · rintro ⟨rfl, rfl⟩
          exact hdash rest rfl
    rw [hnone]

/-- A comment is at least as long as its mark, so each round has less text before it. -/
theorem behindComment?_length {cs rest : List Char} (h : behindComment? cs = some rest) :
    rest.length + 2 ≤ cs.length := by
  rcases cs with _ | ⟨a, _ | ⟨b, body⟩⟩
  · cases h
  · cases h
  · obtain ⟨mark, -, rfl⟩ := Option.map_eq_some_iff.mp h
    exact Nat.add_le_add_right (behind_length mark body) 2

/-- The length of a text is fuel enough. -/
theorem withoutLeadingComments_fuel {fuel fuel' : Nat} {cs : List Char} (h : cs.length ≤ fuel)
    (h' : cs.length ≤ fuel') :
    withoutLeadingComments fuel cs = withoutLeadingComments fuel' cs := by
  -- by induction on the fuel: a comment is shorter than the text that it stands in
  induction fuel generalizing fuel' cs with
  | zero =>
    obtain rfl : cs = [] := List.length_eq_zero_iff.mp (Nat.le_zero.mp h)
    cases fuel' <;> rfl
  | succ fuel ih =>
    cases fuel' with
    | zero =>
      obtain rfl : cs = [] := List.length_eq_zero_iff.mp (Nat.le_zero.mp h')
      rfl
    | succ fuel' =>
      rw [withoutLeadingComments_succ, withoutLeadingComments_succ]
      cases hcomment : behindComment? (trimStart cs) with
      | none => rfl
      | some rest =>
        have hlength := behindComment?_length hcomment
        have hstart : (trimStart cs).length ≤ cs.length := List.length_dropWhile_le isBlank cs
        exact ih (by omega) (by omega)

/-- A space behind a text opens no comment at its start. -/
theorem behindComment?_append {cs : List Char} (hcs : cs ≠ []) (more : List Char) :
    behindComment? cs = none ∧ behindComment? (cs ++ ' ' :: more) = none ∨
      ∃ mark body, behindComment? cs = some (behind mark body) ∧
        behindComment? (cs ++ ' ' :: more) = some (behind mark (body ++ ' ' :: more)) := by
  rcases cs with _ | ⟨a, _ | ⟨b, body⟩⟩
  · exact absurd rfl hcs
  · have hspace : commentEnd? a ' ' = none := by
      rw [commentEnd?, if_neg (by simp), if_neg (by simp)]
    exact .inl ⟨rfl, by simp [behindComment?, hspace]⟩
  · cases hmark : commentEnd? a b with
    | none => exact .inl ⟨by simp [behindComment?, hmark], by simp [behindComment?, hmark]⟩
    | some mark =>
      exact .inr ⟨mark, body, by simp [behindComment?, hmark], by simp [behindComment?, hmark]⟩

/-- Where something is left behind the comments, a longer text has the same comments before it. -/
theorem withoutLeadingComments_append {fuel : Nat} {cs : List Char}
    (h : withoutLeadingComments fuel cs ≠ []) (more : List Char) :
    withoutLeadingComments fuel (cs ++ ' ' :: more)
      = withoutLeadingComments fuel cs ++ ' ' :: more := by
  -- on the fuel, of which each comment takes one
  induction fuel generalizing cs with
  | zero => exact trimStart_append h _
  | succ fuel ih =>
    rw [withoutLeadingComments_succ] at h
    rw [withoutLeadingComments_succ, withoutLeadingComments_succ]
    have hstart : trimStart cs ≠ [] := by
      intro hnil
      rw [hnil] at h
      exact h rfl
    rw [trimStart_append hstart]
    rcases behindComment?_append hstart more with ⟨hnone, hnone'⟩ | ⟨mark, body, hsome, hsome'⟩
    · rw [hnone, hnone']
    · rw [hsome] at h
      rw [hsome, hsome']
      -- a comment without an end would leave nothing of the text
      have hbody : behind mark body ≠ [] := by
        intro hnil
        rw [hnil] at h
        cases fuel <;> exact h rfl
      dsimp only at h ⊢
      rw [behind_append hbody, ih h]

/-! ### Blanks and semicolons behind a text -/

namespace Sql

open Lexer

variable {d : Dialect} {p q : Option Token}

/-- A blank or a semicolon starts a token wherever it stands. -/
theorem Lexer.step_isOk {c : Char} (hc : isBlank c = true ∨ c = ';') (cs : List Char) :
    ∃ t R, step d p c cs = .ok (t, R) := by
  rcases hc with hc | rfl
  · by_cases hascii : c.toNat < 128
    · have hmem := mem_of_isBlank hc hascii
      -- the ASCII blanks one by one: tab, line feed and the rest have steps of their own
      simp only [List.mem_cons, List.not_mem_nil, or_false] at hmem
      rcases hmem with rfl | rfl | rfl | rfl | rfl | rfl
      · exact ⟨_, _, rfl⟩
      · exact ⟨_, _, rfl⟩
      · exact ⟨_, _, rfl⟩
      · cases d <;> exact ⟨_, _, rfl⟩
      · cases d <;> exact ⟨_, _, rfl⟩
      · cases cs with
        | nil => exact ⟨_, _, rfl⟩
        -- a return takes the line feed behind it along
        | cons x rest =>
          by_cases hline : x = '\n'
          · exact ⟨.blank .newline, rest, by rw [hline]; rfl⟩
          · exact ⟨.blank .newline, x :: rest, by simp [step, hline]⟩
    · exact ⟨_, _, step_wideBlank hc hascii cs⟩
  · cases d <;> exact ⟨_, _, rfl⟩

/-- Blanks and semicolons can be read. -/
theorem exists_scans_of_cut {cs : List Char} (h : ∀ c ∈ cs, isBlank c = true ∨ c = ';')
    (p : Option Token) : ∃ ts q, Scans d p cs ts q [] := by
  induction hlength : cs.length using Nat.strong_induction_on generalizing p cs with
  | _ n ih =>
    cases cs with
    | nil => exact ⟨[], p, .done p []⟩
    | cons c cs =>
      obtain ⟨t, R, hstep⟩ := step_isOk (d := d) (p := p) (h c (List.mem_cons_self ..)) cs
      have hsuffix := step_suffix hstep
      obtain ⟨ts, q, hrest⟩ := ih R.length
        (by rw [← hlength, List.length_cons]; exact Nat.lt_succ_of_le hsuffix.length_le)
        (fun x hx => h x (List.mem_cons_of_mem c (hsuffix.subset hx))) (some t) rfl
      exact ⟨t :: ts, q, .token hstep hrest⟩

/-- A line comment that goes on into a text ends in it. -/
theorem lineComment_into {text : List Char} (htext : ∀ c ∈ text, endsLine d c = false)
    (R : List Char) : ∃ t S, lineComment d (text ++ R) = (t, S) ∧ S <:+ R := by
  obtain ⟨line, S, rfl, hline, hS⟩ := exists_line d R
  have hboth : ∀ c ∈ text ++ line, endsLine d c = false := fun c hc =>
    (List.mem_append.mp hc).elim (htext c) (hline c)
  refine ⟨_, _, by rw [← List.append_assoc, lineComment_append hboth hS], ?_⟩
  exact (List.drop_suffix 1 S).trans (List.suffix_append line S)

/-- **Tails.** A text that can be read can be read with blanks and semicolons behind it. -/
theorem tokens_of_cut {cs : List Char} {ts : List Token} (h : tokens d cs = .ok ts)
    {more : List Char} (hmore : ∀ c ∈ more, isBlank c = true ∨ c = ';') :
    ∃ us, tokens d (cs ++ ' ' :: more) = .ok us := by
  obtain ⟨q, hscan⟩ := (tokens_eq_ok_iff d cs ts).mp h
  have hcut : ∀ c ∈ ' ' :: more, isBlank c = true ∨ c = ';' :=
    List.forall_mem_cons.mpr ⟨.inl rfl, hmore⟩
  -- whatever becomes of the last token, what is left can be read
  have hread : ∀ {us : List Token} {q : Option Token} {S : List Char}, S <:+ ' ' :: more →
      Scans d none (cs ++ ' ' :: more) us q S → ∃ us, tokens d (cs ++ ' ' :: more) = .ok us := by
    intro us q S hS hfront
    obtain ⟨vs, r, hrest⟩ := exists_scans_of_cut (d := d) (fun c hc => hcut c (hS.subset hc)) q
    exact ⟨_, (tokens_eq_ok_iff d _ _).mpr ⟨r, hfront.trans hrest⟩⟩
  cases hscan.extend (b := ' ') (by decide) more with
  | kept q h => exact hread List.suffix_rfl h
  | swallowed q hclose h => exact hread (List.tail_suffix _) h
  | comment us text htext hts h =>
    obtain ⟨t, S, hline, hS⟩ := lineComment_into htext (' ' :: more)
    exact hread hS (h t S hline)
  | dashes hd us hts q h =>
    obtain ⟨t, S, hline, hS⟩ : ∃ t S, lineComment d ([] ++ ' ' :: more) = (t, S) ∧ S <:+ ' ' :: more :=
      lineComment_into (by simp) (' ' :: more)
    have hstep : step d q '-' ('-' :: ' ' :: more) = .ok (t, S) := by
      cases d with
      | mysql => exact congrArg Except.ok hline
      | postgresql => cases hd
      | sqlite => cases hd
    exact hread hS (h.trans (.one hstep))
  | sign hd us text hts q w hw h =>
    subst hd
    rcases hw with ⟨rfl, -⟩ | ⟨rfl, -⟩
    · exact hread List.suffix_rfl (h.trans (.one rfl))
    · exact hread List.suffix_rfl (h.trans (.one rfl))

/-! ### The place where a text starts -/

/-- A text starts with a token where it starts when it is looked at character by character: the
    tokens before it are the blanks and comments that are cut there. -/
inductive StartsWith (d : Dialect) (cs : List Char) (t : Token) : Prop
  | intro {gap : List Token} {q : Option Token} {c : Char} {w R : List Char}
      (hplace : withoutLeadingComments cs.length cs = c :: w)
      (hscan : Scans d none cs gap q (c :: w))
      (hgap : ∀ u ∈ gap, u.isTrivia = true) (hstep : step d q c w = .ok (t, R))
      (htrivia : t.isTrivia = false)

/-- What is left begins with no blank. -/
theorem withoutLeadingComments_head {fuel : Nat} {cs : List Char} :
    ∀ c ∈ (withoutLeadingComments fuel cs).head?, isBlank c = false := by
  have hstart : ∀ cs : List Char, ∀ c ∈ (trimStart cs).head?, isBlank c = false := by
    intro cs c hc
    have hhead := List.head?_dropWhile_not isBlank cs
    rw [trimStart] at hc
    rw [Option.mem_def.mp hc] at hhead
    simpa using hhead
  induction fuel generalizing cs with
  | zero => exact hstart cs
  | succ fuel ih =>
    rw [withoutLeadingComments_succ]
    cases behindComment? (trimStart cs) with
    | none => exact hstart cs
    | some rest => exact ih

theorem trimStart_eq_self {cs : List Char} (h : ∀ c ∈ cs.head?, isBlank c = false) :
    trimStart cs = cs := by
  cases cs with
  | nil => rfl
  | cons c cs => exact List.dropWhile_cons_of_neg (by simp [h c rfl])

/-- What trivia lead to is reached without the blanks at the start of the text. -/
theorem Scans.dropBlanks {cs R : List Char} {gap : List Token} (h : Scans d p cs gap q R)
    (hp : afterWord p = false) (hpoint : (p == some (.symbol ".")) = false)
    (hgap : ∀ u ∈ gap, u.isTrivia = true) (hR : ∀ c ∈ R.head?, isBlank c = false) :
    ∃ gap' q', Scans d none (trimStart cs) gap' q' R ∧ ∀ u ∈ gap', u.isTrivia = true := by
  induction h with
  | done p R =>
    rw [trimStart_eq_self hR]
    exact ⟨[], none, .done none R, by simp⟩
  | @token p q c t cs S R ts hstep hrest ih =>
    -- the first token of a gap is trivia; dropping blanks takes all of it or none
    obtain ⟨ht, hts⟩ := List.forall_mem_cons.mp hgap
    by_cases hc : isBlank c = true
    · rw [trimStart_of_step hc hstep ht]
      refine ih ?_ ?_ hts hR
      · cases t <;> first | rfl | cases ht
      · cases t <;> first | rfl | cases ht
    · rw [trimStart_eq_self (by simpa using hc)]
      refine ⟨t :: ts, q, .token ?_ hrest, hgap⟩
      rw [← hstep]
      -- a token that begins with no blank is the same at the start of a text
      exact step_previous (by rw [hp]; rfl) (by rw [hpoint]; rfl) c cs

/-! ### The words that start queries -/

/-- The letters, digits and underscores that a text starts with. -/
def runWord? (cs : List Char) : Option String :=
  match cs.takeWhile fun c => c.isAlphanum || c == '_' with
  | [] => none
  | word => some (String.ofList word)

/-- The leading word in two steps: the comments, then the run of letters. -/
theorem leadingWord?_eq (cs : List Char) :
    leadingWord? cs = runWord? (withoutLeadingComments cs.length cs) := rfl

/-- A run ends at a space, so what stands behind it does not matter. -/
theorem runWord?_append (cs more : List Char) : runWord? (cs ++ ' ' :: more) = runWord? cs := by
  have hrun : (cs ++ ' ' :: more).takeWhile (fun c => c.isAlphanum || c == '_')
      = cs.takeWhile fun c => c.isAlphanum || c == '_' := by
    induction cs with
    | nil => rfl
    | cons c cs ih => simp only [List.cons_append, List.takeWhile_cons, ih]
  rw [runWord?, runWord?, hrun]

/-- A text with a leading word begins with a letter. -/
theorem isPlain_of_runWord? {c : Char} {cs : List Char} {word : String}
    (h : runWord? (c :: cs) = some word) : IsPlain c := by
  by_contra hc
  have hc : ¬(c.isAlphanum || c == '_') = true := hc
  simp only [runWord?, List.takeWhile_cons, hc] at h
  cases h

/-- Whether a token starts a query. -/
def Token.startsQuery (t : Token) : Bool := t.isKeyword "select" || t.isKeyword "with"

/-- A token that starts a query is a word of plain characters, and the word that its text starts
    with. -/
theorem Lexer.step_startsQuery {c : Char} {cs R : List Char} {t : Token}
    (h : step d p c cs = .ok (t, R)) (ht : t.startsQuery = true) :
    ∃ u, cs = u ++ R ∧ c.isAlpha = true ∧ c ∉ literalLetters ∧ (∀ x ∈ u, IsPlain x) ∧
      R.head?.any d.continuesWord = false ∧ t = .word (String.ofList (c :: u)) none ∧
      QueryGate.startsQuery (String.ofList (c :: u)) = true := by
  obtain ⟨text, rfl⟩ : ∃ text, t = .word text none := by
    cases t with
    | word text quote =>
      cases quote with
      | none => exact ⟨text, rfl⟩
      | some quote => cases ht
    | _ => cases ht
  have hquery : QueryGate.startsQuery text = true := ht
  -- the letters of the keyword, in any case
  obtain ⟨first, rest, hmap, hfirst, hrest⟩ : ∃ first rest,
      text.toList.map Char.toLower = first :: rest ∧ first ∈ ['s', 'w'] ∧
        ∀ x ∈ rest, x.isAlpha = true := by
    rcases Bool.or_eq_true_iff.mp hquery with hcase | hcase
    · exact ⟨'s', "elect".toList, String.ofList_inj.mp (beq_iff_eq.mp hcase), by decide, by decide⟩
    · exact ⟨'w', "ith".toList, String.ofList_inj.mp (beq_iff_eq.mp hcase), by decide, by decide⟩
  obtain ⟨u, hu⟩ : ∃ u, text.toList = c :: u := List.head?_eq_some_iff.mp (step_bareWord_head h)
  rw [hu, List.map_cons] at hmap
  obtain ⟨hc, hmap⟩ := List.cons.inj hmap
  have halpha : c.isAlpha = true := by
    have hall : ∀ x ∈ ['s', 'w'], x.isAlpha = true := by decide
    rw [← toLower_congr Char.isAlpha (by decide) c, hc]
    exact hall first hfirst
  have hliteral : c ∉ literalLetters := by
    have hall : ∀ x ∈ ['s', 'w'], literalLetters.contains x = false := by decide
    rw [← List.contains_iff_mem, ← toLower_congr literalLetters.contains (by decide) c, hc,
      hall first hfirst]
    exact Bool.false_ne_true
  have hplain : ∀ x ∈ u, IsPlain x := by
    intro x hx
    have hletter := hrest x.toLower (hmap ▸ List.mem_map_of_mem hx)
    rw [toLower_congr Char.isAlpha (by decide) x] at hletter
    simp [IsPlain, Char.isAlphanum, hletter]
  have hne : c ≠ '.' ∧ c ≠ '@' ∧ c.isDigit = false := by
    refine ⟨?_, ?_, ?_⟩
    · rintro rfl
      exact absurd halpha (by decide)
    · rintro rfl
      exact absurd halpha (by decide)
    · rw [Bool.eq_false_iff]
      intro hdigit
      have hall : ∀ x ∈ tenDigits, x.isAlpha = false := by decide
      rw [hall c (mem_tenDigits hdigit)] at halpha
      cases halpha
  rcases step_bareWord h with ⟨-, hword⟩ | ⟨hdigit | hpoint, -⟩ | ⟨-, hat⟩
  · -- the word is all that continues it
    have htext : String.ofList (c :: u) = text := by rw [← hu, String.ofList_toList]
    obtain ⟨hfront, hbehind⟩ := Prod.mk.inj hword
    have hrun : cs.takeWhile d.continuesWord = u := by
      have hlist := congrArg String.toList (Token.word.inj hfront).1
      rw [String.toList_ofList, hu] at hlist
      exact (List.cons.inj hlist).2
    have hsplit : cs = u ++ R := by
      rw [← hbehind, hrun, ← hrun]
      exact (List.prefix_iff_eq_append.mp (List.takeWhile_prefix _)).symm
    rw [hsplit] at hrun
    exact ⟨u, hsplit, halpha, hliteral, hplain, ((Class.takeWhile_eq_iff _ u R).mp hrun).2,
      by rw [htext], htext ▸ hquery⟩
  · rw [hne.2.2] at hdigit
    cases hdigit
  · exact absurd hpoint hne.1
  · exact absurd hat hne.2.1

/-- Where the first token is a verb that starts a query, the characters alone show such a
    verb too. -/
theorem runWord?_of_startsQuery {c : Char} {cs R : List Char} {t : Token}
    (h : step d p c cs = .ok (t, R)) (ht : t.startsQuery = true) :
    ∃ word, runWord? (c :: cs) = some word ∧ QueryGate.startsQuery word = true := by
  obtain ⟨u, rfl, hc, -, hu, hR, -, hquery⟩ := step_startsQuery h ht
  have hplain : ∀ x ∈ c :: u, (x.isAlphanum || x == '_') = true :=
    List.forall_mem_cons.mpr ⟨by simp [Char.isAlphanum, hc], hu⟩
  -- letters, digits and underscores continue a word, so the word ends where the run does
  have hstop : R.head?.any (fun x => x.isAlphanum || x == '_') = false := by
    cases R with
    | nil => rfl
    | cons x R =>
      rw [Bool.eq_false_iff]
      intro hx
      have hcontinues := IsPlain.continuesWord hx d
      rw [List.head?_cons, Option.any_some, hcontinues] at hR
      cases hR
  have hrun := (Class.takeWhile_eq_iff (fun x => x.isAlphanum || x == '_') (c :: u) R).mpr
    ⟨hplain, hstop⟩
  refine ⟨String.ofList (c :: u), ?_, hquery⟩
  rw [runWord?, ← List.cons_append, hrun]

/-! ### The place with more text behind it -/

section

variable {s w : List Char} {c : Char}

theorem withoutLeadingComments_trimStart (fuel : Nat) (cs : List Char) :
    withoutLeadingComments fuel (trimStart cs) = withoutLeadingComments fuel cs := by
  have hsame : trimStart (trimStart cs) = trimStart cs := List.dropWhile_idempotent isBlank cs
  cases fuel with
  | zero => exact hsame
  | succ fuel => rw [withoutLeadingComments_succ, withoutLeadingComments_succ, hsame]

/-- The characters find the same place with a tail behind the text. -/
theorem withoutLeadingComments_tail (hplace : withoutLeadingComments s.length s = c :: w)
    (y : List Char) :
    withoutLeadingComments (trimStart s ++ ' ' :: y).length (trimStart s ++ ' ' :: y)
      = c :: w ++ ' ' :: y := by
  have hlength : (trimStart s).length ≤ s.length := List.length_dropWhile_le isBlank s
  have hlonger : (trimStart s).length ≤ (trimStart s ++ ' ' :: y).length := by simp
  have hfront : withoutLeadingComments (trimStart s ++ ' ' :: y).length (trimStart s) = c :: w := by
    rw [withoutLeadingComments_fuel hlonger hlength, withoutLeadingComments_trimStart, hplace]
  rw [withoutLeadingComments_append (by rw [hfront]; exact List.cons_ne_nil c w), hfront]

/-- What stands behind a blank does not change the leading word. -/
theorem leadingWord?_tail (hplace : withoutLeadingComments s.length s = c :: w) (y : List Char) :
    leadingWord? (trimStart s ++ ' ' :: y) = leadingWord? s := by
  rw [leadingWord?_eq, leadingWord?_eq, withoutLeadingComments_tail hplace, hplace, runWord?_append]

/-- The tokens lead to the same place with a tail behind the text. -/
theorem Scans.tail {gap : List Token} (hplace : withoutLeadingComments s.length s = c :: w)
    (hscan : Scans d none s gap q (c :: w)) (hgap : ∀ u ∈ gap, u.isTrivia = true) (hc : c ≠ '-')
    (y : List Char) :
    ∃ gap' q', Scans d none (trimStart s ++ ' ' :: y) gap' q' (c :: w ++ ' ' :: y) ∧
      ∀ u ∈ gap', u.isTrivia = true := by
  have hhead : ∀ x ∈ (c :: w).head?, isBlank x = false := hplace ▸ withoutLeadingComments_head
  obtain ⟨gap', q', hfront, hgap'⟩ := hscan.dropBlanks rfl rfl hgap hhead
  obtain ⟨v, hv⟩ := hfront.suffix
  have halike : Alike (c :: w) (c :: w ++ ' ' :: y) := by
    have hstop : Alike [] (' ' :: y) := .stop y (by decide)
    simpa using hstop.append (c :: w)
  rw [← hv] at hfront ⊢
  have hfollow := hfront.follow (List.cons_ne_nil c w) (fun _ h => hc (List.cons.inj h).1)
    (not_opens_append w _) halike
  exact ⟨gap', q', by rwa [List.append_assoc], hgap'⟩

end

/-! ### The first token of a text -/

/-- What a plain character starts is no trivia. -/
theorem Lexer.step_isPlain {c : Char} {cs R : List Char} {t : Token} (hc : IsPlain c)
    (h : step d p c cs = .ok (t, R)) : t.isTrivia = false := by
  simp only [IsPlain, Char.isAlphanum, Bool.or_eq_true, beq_iff_eq] at hc
  rcases hc with (hletter | hdigit) | rfl
  · rw [step_letter hletter] at h
    rcases letterOrWord_kind h with ⟨kind, text, rfl⟩ | ⟨w, rfl⟩ <;> rfl
  · rw [step_digit hdigit] at h
    have hlike := numberOrPeriod_like (.inl hdigit) h
    cases t <;> first | rfl | cases hlike
  · rw [step_underscore] at h
    cases h
    rfl

/-- The second rule looks at the first token that is no trivia. -/
theorem checkStart_of_first {gap more : List Token} {t : Token}
    (hgap : ∀ u ∈ gap, u.isTrivia = true) (ht : t.isTrivia = false) :
    Rules.checkStart (gap ++ t :: more)
      = if t.startsQuery then .ok () else .error (.notSelect t.bareWord?) := by
  have hfirst : (significant (gap ++ t :: more)).head? = some t := by
    rw [significant_append, significant_eq_nil hgap]
    simp [significant, ht]
  rw [Rules.checkStart, hfirst]
  rfl

end Sql

namespace Rules

variable (r : Rules) {s x : List Char}

/-- Behind a text whose fault is in its tail, the tail alone is cut at the end. -/
theorem normalized_append (hs : trimStart s ≠ []) (hx : ∃ c ∈ x, ¬(isBlank c = true ∨ c = ';')) :
    ∃ y, r.normalized (s ++ ' ' :: x) = trimStart s ++ ' ' :: y := by
  -- some character of `x` is neither blank nor semicolon, so no cut reaches `s`
  obtain ⟨c, hmem, hc⟩ := hx
  have hcut : ∀ p : Char → Bool, p c = false → ∃ y,
      ((trimStart s ++ ' ' :: x).reverse.dropWhile p).reverse = trimStart s ++ ' ' :: y := by
    intro p hp
    have hkept : (x.reverse.dropWhile p).isEmpty = false := by
      rw [List.isEmpty_eq_false_iff]
      intro hnil
      have hall := List.dropWhile_eq_nil_iff.mp hnil c (List.mem_reverse.mpr hmem)
      rw [hp] at hall
      cases hall
    refine ⟨(x.reverse.dropWhile p).reverse, ?_⟩
    rw [List.reverse_append, List.reverse_cons, List.append_assoc, List.dropWhile_append, hkept]
    simp
  obtain ⟨hblank, hsemicolon⟩ := not_or.mp hc
  rw [normalized, withoutTrailingSemicolons, trim, trimEnd, trimStart_append hs]
  -- a strict gate trims blanks, a lenient one semicolons too
  split
  · exact hcut _ (by simp [hblank, hsemicolon])
  · exact hcut _ (by simpa using hblank)

variable {r}

/-- A text that holds something and cannot be read is rejected for it. -/
theorem checkShape_of_unread {cs : List Char} {e : LexicalError} (hne : r.normalized cs ≠ [])
    (h : tokens r.vocabulary.dialect (r.normalized cs) = .error e) :
    r.checkShape cs = .error (unreadable (r.normalized cs) e) := by
  rw [checkShape]
  simp only [List.isEmpty_eq_false_iff.mpr hne, Bool.false_eq_true, if_false, h]

/-- A text that can be read and starts with no query. -/
theorem checkShape_of_start {cs : List Char} {us : List Token} {rejection : Rejection}
    (hne : r.normalized cs ≠ [])
    (h : tokens r.vocabulary.dialect (r.normalized cs) = .ok us)
    (hstart : checkStart us = .error rejection) : r.checkShape cs = .error rejection := by
  rw [checkShape]
  simp only [List.isEmpty_eq_false_iff.mpr hne, Bool.false_eq_true, if_false, h, hstart]
  rfl

/-- A text that can be read, starts with a query and holds a semicolon. -/
theorem checkShape_of_separated {cs : List Char} {us : List Token} (hmem : ';' ∈ r.normalized cs)
    (h : tokens r.vocabulary.dialect (r.normalized cs) = .ok us) (hstart : checkStart us = .ok ()) :
    r.checkShape cs = .error .multiStatement := by
  have hne : (r.normalized cs).isEmpty = false :=
    List.isEmpty_eq_false_iff.mpr (List.ne_nil_of_mem hmem)
  rw [checkShape]
  simp only [hne, Bool.false_eq_true, if_false, h, hstart, List.contains_iff_mem.mpr hmem, if_true]
  rfl

variable {t : Token} {ts : List Token}

/-- A fault in the tail of a text leaves the text before it as it is, up to blanks at its start. -/
theorem normalized_brokenTail (hs : tokens r.vocabulary.dialect s = .ok ts)
    (hx : ∀ us, tokens r.vocabulary.dialect (s ++ ' ' :: x) ≠ .ok us)
    (hplace : StartsWith r.vocabulary.dialect s t) :
    ∃ y, r.normalized (s ++ ' ' :: x) = trimStart s ++ ' ' :: y := by
  refine r.normalized_append ?_ ?_
  · obtain ⟨hplace, -, -, -, -⟩ := hplace
    intro hnil
    rw [← withoutLeadingComments_trimStart, hnil] at hplace
    cases hlength : s.length <;> rw [hlength] at hplace <;> cases hplace
  · by_contra hnone
    have hcut : ∀ c ∈ x, isBlank c = true ∨ c = ';' := fun c hc =>
      by_contra fun h => hnone ⟨c, hc, h⟩
    obtain ⟨us, hus⟩ := tokens_of_cut hs hcut
    exact hx us hus

/-- A text that starts with another word than a query is rejected for it, whatever its tail is. -/
theorem checkShape_of_otherWord (hs : tokens r.vocabulary.dialect s = .ok ts)
    (hx : ∀ us, tokens r.vocabulary.dialect (s ++ ' ' :: x) ≠ .ok us)
    (hplace : StartsWith r.vocabulary.dialect s t) {word : String}
    (hword : leadingWord? s = some word) (hother : startsQuery word = false) :
    ∃ found, r.checkShape (s ++ ' ' :: x) = .error (.notSelect found) := by
  obtain ⟨y, hy⟩ := normalized_brokenTail hs hx hplace
  have hne : r.normalized (s ++ ' ' :: x) ≠ [] := by simp [hy]
  obtain ⟨hat, hscan, hgap, -, -⟩ := hplace
  rename_i gap q c w R
  have hleading : leadingWord? (r.normalized (s ++ ' ' :: x)) = some word := by
    rw [hy, leadingWord?_tail hat, hword]
  -- the fault may be cut off with the end of the text, so that it can be read after all
  cases hus : tokens r.vocabulary.dialect (r.normalized (s ++ ' ' :: x)) with
  | error e =>
    refine ⟨some word, ?_⟩
    rw [checkShape_of_unread hne hus, unreadable, hleading]
    simp [hother]
  | ok us =>
    have hrun : runWord? (c :: w) = some word := by rw [← hat, ← leadingWord?_eq, hword]
    have hc := isPlain_of_runWord? hrun
    have hdash : c ≠ '-' := by
      rintro rfl
      exact absurd hc (by unfold Lexer.IsPlain; decide)
    obtain ⟨gap', q', hfront, hgap'⟩ := hscan.tail hat hgap hdash y
    obtain ⟨r', hall⟩ := (tokens_eq_ok_iff _ _ us).mp hus
    rw [hy] at hall
    obtain ⟨vs, rfl, hrest⟩ := hfront.rest hall
    cases hrest with
    | @token _ _ _ t' _ R' _ vs hstep _ =>
      -- a token that starts a query would be the word that the characters see
      have hquery : t'.startsQuery = false := by
        rw [Bool.eq_false_iff]
        intro hquery
        obtain ⟨found, hfound, hstarts⟩ := runWord?_of_startsQuery hstep hquery
        have hfound : runWord? (c :: w ++ ' ' :: y) = some found := hfound
        rw [runWord?_append, hrun] at hfound
        cases hfound
        rw [hother] at hstarts
        cases hstarts
      refine ⟨t'.bareWord?, checkShape_of_start hne hus ?_⟩
      rw [checkStart_of_first hgap' (Lexer.step_isPlain hc hstep), hquery]
      rfl

/-- A text that starts with a query and holds a semicolon is rejected for it, whatever its tail
    is. -/
theorem checkShape_of_semicolon_query (hs : tokens r.vocabulary.dialect s = .ok ts)
    (hx : ∀ us, tokens r.vocabulary.dialect (s ++ ' ' :: x) ≠ .ok us)
    (hplace : StartsWith r.vocabulary.dialect s t) (hquery : t.startsQuery = true)
    (hmem : ';' ∈ s) :
    r.checkShape (s ++ ' ' :: x) = .error .multiStatement := by
  obtain ⟨y, hy⟩ := normalized_brokenTail hs hx hplace
  have hmem' : ';' ∈ r.normalized (s ++ ' ' :: x) := by
    have hsplit : s.takeWhile isBlank ++ trimStart s = s := List.takeWhile_append_dropWhile
    rw [← hsplit] at hmem
    rw [hy]
    rcases List.mem_append.mp hmem with hblank | hmem
    · have hall := List.all_eq_true.mp List.all_takeWhile ';' hblank
      exact absurd hall (by decide)
    · exact List.mem_append_left _ hmem
  have hne : r.normalized (s ++ ' ' :: x) ≠ [] := List.ne_nil_of_mem hmem'
  obtain ⟨hat, hscan, hgap, hstep, -⟩ := hplace
  rename_i gap q c w R
  obtain ⟨word, hword, hstarts⟩ := runWord?_of_startsQuery hstep hquery
  have hleading : leadingWord? (r.normalized (s ++ ' ' :: x)) = some word := by
    rw [hy, leadingWord?_tail hat, leadingWord?_eq, hat, hword]
  cases hus : tokens r.vocabulary.dialect (r.normalized (s ++ ' ' :: x)) with
  | error e =>
    rw [checkShape_of_unread hne hus, unreadable, hleading, List.contains_iff_mem.mpr hmem']
    simp [hstarts]
  | ok us =>
    obtain ⟨u, rfl, halpha, hliteral, hplain, hstop, rfl, hcase⟩ :=
      Lexer.step_startsQuery hstep hquery
    have hdash : c ≠ '-' := by
      rintro rfl
      exact absurd halpha (by decide)
    obtain ⟨gap', q', hfront, hgap'⟩ := hscan.tail hat hgap hdash y
    -- the word is read again, since what continues it is the same
    have hlonger : Scans r.vocabulary.dialect q' (c :: u ++ (R ++ ' ' :: y))
        [.word (String.ofList (c :: u)) none] (some (.word (String.ofList (c :: u)) none))
        (R ++ ' ' :: y) := by
      refine .word halpha hliteral (fun x hx => (hplain x hx).continuesWord _) ?_
      cases R with
      | nil => exact Lexer.continuesWord_separators _ ' ' (by decide)
      | cons z R => exact hstop
    obtain ⟨r', hall⟩ := (tokens_eq_ok_iff _ _ us).mp hus
    rw [hy] at hall
    have hshift : c :: (u ++ R) ++ ' ' :: y = c :: u ++ (R ++ ' ' :: y) := by simp
    rw [hshift] at hfront
    obtain ⟨vs, rfl, -⟩ := (hfront.trans hlonger).rest hall
    refine checkShape_of_separated hmem' hus ?_
    rw [List.append_assoc, List.singleton_append, checkStart_of_first hgap' rfl, hquery]
    rfl

/-- A text whose fault cannot be passed by is rejected for its first word iff that is another word
    than a query. -/
theorem checkShape_notSelect_iff (hs : tokens r.vocabulary.dialect s = .ok ts)
    (hx : ∀ us, tokens r.vocabulary.dialect (s ++ ' ' :: x) ≠ .ok us)
    (hplace : StartsWith r.vocabulary.dialect s t) {e : LexicalError}
    (he : tokens r.vocabulary.dialect (r.normalized (s ++ ' ' :: x)) = .error e) :
    (∃ found, r.checkShape (s ++ ' ' :: x) = .error (.notSelect found)) ↔
      ∃ word, leadingWord? s = some word ∧ startsQuery word = false := by
  obtain ⟨y, hy⟩ := normalized_brokenTail hs hx hplace
  refine ⟨?_, fun ⟨word, hword, hother⟩ => checkShape_of_otherWord hs hx hplace hword hother⟩
  rintro ⟨found, hfound⟩
  have hne : r.normalized (s ++ ' ' :: x) ≠ [] := by simp [hy]
  rw [checkShape_of_unread hne he, unreadable, hy] at hfound
  obtain ⟨hat, -, -, -, -⟩ := hplace
  rw [leadingWord?_tail hat] at hfound
  -- what cannot be read is rejected for its first word only there
  have hseparated : (if (trimStart s ++ ' ' :: y).contains ';' then Rejection.multiStatement
      else .malformed e.report) ≠ .notSelect found := by
    split <;> exact Rejection.noConfusion
  cases hword : leadingWord? s with
  | none =>
    rw [hword] at hfound
    exact absurd (Except.error.inj hfound) hseparated
  | some word =>
    rw [hword] at hfound
    cases hquery : startsQuery word with
    | false => exact ⟨word, rfl, hquery⟩
    | true =>
      simp only [hquery, if_true] at hfound
      exact absurd (Except.error.inj hfound) hseparated

end Rules

/-! ### The decision -/

/-- The first token of a text that is no trivia stands where the text starts when it is looked at
    character by character. -/
def SamePlace (d : Dialect) (cs : List Char) : Prop := ∃ t, StartsWith d cs t

/-- The token that a text starts with is its first one that is no trivia. -/
theorem Sql.StartsWith.head {d : Dialect} {cs : List Char} {ts : List Token} {t : Token}
    (h : StartsWith d cs t) (hts : tokens d cs = .ok ts) : (significant ts).head? = some t := by
  obtain ⟨-, hscan, hgap, hstep, htrivia⟩ := h
  obtain ⟨r, hall⟩ := (tokens_eq_ok_iff d cs ts).mp hts
  obtain ⟨vs, rfl, -⟩ := (hscan.trans (.one hstep)).rest hall
  rw [List.append_assoc, List.singleton_append, significant_append, significant_eq_nil hgap]
  simp [significant, htrivia]

namespace Gate

/-- The gate answers with the rejection of its rules, and logs it. -/
theorem checkShape_rejected_iff (g : Gate) (sql : List Char) (rejection : Rejection) :
    (g.checkShape sql).value = .rejected rejection ↔ g.rules.checkShape sql = .error rejection := by
  rw [checkShape]
  cases g.rules.checkShape sql with
  | ok statement => exact iff_of_false (fun h => by cases h) (fun h => by cases h)
  | error found =>
    exact ⟨fun h => congrArg Except.error (Decision.rejected.inj h),
      fun h => congrArg Decision.rejected (Except.error.inj h)⟩

/-- **Broken tails.** Where characters and tokens agree on the place of the first word, a fault in
    the tail hides neither that this word starts no query nor, behind a query, a semicolon.  Where
    the fault cannot be passed by, nothing but another word is rejected as one. -/
theorem brokenTail_keeps_rule (g : Gate) {s x : List Char} {ts : List Token} {t : Token}
    (hs : tokens g.dialect s = .ok ts) (hx : ∀ us, tokens g.dialect (s ++ ' ' :: x) ≠ .ok us)
    (ht : (significant ts).head? = some t) (hplace : SamePlace g.dialect s) :
    (t.startsQuery = false → ∀ word, leadingWord? s = some word → startsQuery word = false →
      ∃ found, (g.checkShape (s ++ ' ' :: x)).value = .rejected (.notSelect found)) ∧
    (t.startsQuery = true → ';' ∈ s →
      (g.checkShape (s ++ ' ' :: x)).value = .rejected .multiStatement) ∧
    ∀ e, tokens g.dialect (g.rules.normalized (s ++ ' ' :: x)) = .error e →
      ((∃ found, (g.checkShape (s ++ ' ' :: x)).value = .rejected (.notSelect found)) ↔
        ∃ word, leadingWord? s = some word ∧ startsQuery word = false) := by
  -- both readers agree on the place of the first word, so it is the first significant token
  obtain ⟨first, hstarts⟩ := hplace
  obtain rfl : t = first := Option.some.inj (ht.symm.trans (hstarts.head hs))
  simp only [checkShape_rejected_iff]
  refine ⟨fun _ word hword hother => ?_, fun hquery hmem => ?_, fun e he => ?_⟩
  · exact Rules.checkShape_of_otherWord hs hx hstarts hword hother
  · exact Rules.checkShape_of_semicolon_query hs hx hstarts hquery hmem
  · exact Rules.checkShape_notSelect_iff hs hx hstarts he

end Gate

/-! ### Faults behind a verb and a query -/

/-- Another statement than a query, behind a comment. -/
def commentedDrop : List Char := "/* a */ drop table t".toList

/-- Two statements, behind a line comment. -/
def commentedPair : List Char := "-- a\nselect 1; drop table t".toList

/-- A literal without an end. -/
def openLiteral : List Char := "'x".toList

/-- The fault at the end of both texts does not hide what is wrong with their start. -/
theorem openLiteral_behind_statement :
    (∃ found, (strictGate.checkShape (commentedDrop ++ ' ' :: openLiteral)).value
        = .rejected (.notSelect found)) ∧
      (strictGate.checkShape (commentedPair ++ ' ' :: openLiteral)).value
        = .rejected .multiStatement := by
  -- the literal behind the statement is open, so there are no tokens
  have hdrop : ∀ us, tokens strictGate.dialect (commentedDrop ++ ' ' :: openLiteral) ≠ .ok us := by
    intro us h
    have herror : (tokens strictGate.dialect (commentedDrop ++ ' ' :: openLiteral)).isOk
        = false := by
      decide +kernel
    rw [h] at herror
    cases herror
  have hpair : ∀ us, tokens strictGate.dialect (commentedPair ++ ' ' :: openLiteral) ≠ .ok us := by
    intro us h
    have herror : (tokens strictGate.dialect (commentedPair ++ ' ' :: openLiteral)).isOk
        = false := by
      decide +kernel
    rw [h] at herror
    cases herror
  have hdropPlace : SamePlace strictGate.dialect commentedDrop :=
    ⟨_, .intro (by decide) (.token rfl (.token rfl (.done _ _))) (by decide) rfl rfl⟩
  have hpairPlace : SamePlace strictGate.dialect commentedPair :=
    ⟨_, .intro (by decide) (.token rfl (.done _ _)) (by decide) rfl rfl⟩
  obtain ⟨hother, -⟩ := strictGate.brokenTail_keeps_rule rfl hdrop rfl hdropPlace
  obtain ⟨-, hquery, -⟩ := strictGate.brokenTail_keeps_rule rfl hpair rfl hpairPlace
  exact ⟨hother rfl "drop" (by decide) (by decide), hquery rfl (by decide)⟩

/-- Another statement than a query, behind a comment in which another one stands. -/
def nestedDrop : List Char := "/* a /* b */ */ drop table t".toList

/-- Characters and tokens do not agree on where a nested comment ends, and there the fault hides the
    statement behind it. -/
theorem openLiteral_hides_drop :
    (∃ ts, tokens strictGate.dialect nestedDrop = .ok ts ∧
      (significant ts).head? = some (.word "drop" none)) ∧
      (Token.word "drop" none).startsQuery = false ∧
      (tokens strictGate.dialect (nestedDrop ++ ' ' :: openLiteral)).isOk = false ∧
      ∀ found, (strictGate.checkShape (nestedDrop ++ ' ' :: openLiteral)).value
        ≠ .rejected (.notSelect found) := by
  refine ⟨⟨_, rfl, rfl⟩, rfl, by decide +kernel, fun found h => ?_⟩
  have hmalformed : (strictGate.checkShape (nestedDrop ++ ' ' :: openLiteral)).value
      = .rejected (.malformed
        "failed to tokenize SQL: Unterminated string literal at Line: 1, Column: 30") := by
    decide +kernel
  rw [hmalformed] at h
  cases h

end QueryGate
