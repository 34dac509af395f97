import QueryGate.Proofs.Lexing.Words

namespace QueryGate.Sql

open Lexer

/-!
# Reading dotted names

Identifiers with periods between them, each bare or in the quotes of the dialect.

* `quotedText?_doubled` — quotes are read back as what they were put around;
* `Spelling` — an identifier with the way it is written;
* `scans_name` — a dotted name is read as its identifiers with periods between them.
-/

variable {d : Dialect} {p : Option Token}

/-! ### Quoted identifiers -/

/-- The content of quoted text as it is written: the closing quote stands twice for itself. -/
def doubled (close : Char) (content : List Char) : List Char :=
  content.flatMap fun c => if c = close then [c, c] else [c]

/-- Without its quote in it a name is not changed by doubling. -/
theorem doubled_eq_self {close : Char} {content : List Char} (h : close ∉ content) :
    doubled close content = content := by
  induction content with
  | nil => rfl
  | cons c content ih =>
    obtain ⟨hc, hcontent⟩ := not_or.mp (List.mem_cons.not.mp h)
    rw [doubled, List.flatMap_cons, if_neg (Ne.symm hc), ← doubled, ih hcontent]
    rfl

/-- Quotes are read back as what they were put around. -/
theorem quotedText?_doubled {close : Char} (content : List Char) {R : List Char}
    (hR : R.head?.any (· == close) = false) :
    quotedText? close (doubled close content ++ close :: R) = some (content, R) := by
  induction content with
  | nil => exact quotedText?_quote hR
  | cons c content ih =>
    rw [doubled, List.flatMap_cons, ← doubled]
    -- a quote is doubled, and the reader takes both for one
    by_cases hc : c = close
    · subst hc
      simp [quotedText?, ih]
    -- any other character is kept; something follows it, at least the closing quote
    · rw [if_neg hc, List.singleton_append, List.cons_append]
      cases hmore : doubled close content ++ close :: R with
      | nil => simp at hmore
      | cons x more =>
        rw [hmore] at ih
        simp [quotedText?, hc, ih]

/-- The pairs of quotes. -/
theorem identifierQuote?_pair {start close : Char} (h : d.identifierQuote? start = some close) :
    (start, close) ∈ [('"', '"'), ('\x60', '\x60'), ('[', ']')] := by
  cases d <;> simp only [Dialect.identifierQuote?, Option.ite_none_right_eq_some,
    Option.some.injEq] at h
  · obtain ⟨rfl, rfl⟩ := h
    decide
  · obtain ⟨rfl, rfl⟩ := h
    decide
  · split at h
    · next hquote =>
      obtain rfl := Option.some.inj h
      simp only [Bool.or_eq_true, decide_eq_true_eq] at hquote
      rcases hquote with rfl | rfl <;> decide
    · obtain ⟨rfl, h⟩ := Option.ite_none_right_eq_some.mp h
      obtain rfl := Option.some.inj h
      decide

/-- An opening quote starts a quoted identifier. -/
theorem Lexer.step_identifierQuote {start close : Char}
    (h : d.identifierQuote? start = some close) (cs : List Char) :
    step d p start cs = quotedIdentifier start close (start :: cs) := by
  have hspecial : ∀ x ∈ [' ', '\t', '\n', '\r', '\x27'], start ≠ x := by
    have hall : ∀ x ∈ [' ', '\t', '\n', '\r', '\x27'], d.identifierQuote? x = none := by
      cases d <;> decide
    rintro x hx rfl
    rw [hall start hx] at h
    cases h
  unfold step
  rw [if_neg (hspecial ' ' (by decide)), if_neg (hspecial '\t' (by decide)),
    if_neg (hspecial '\n' (by decide)), if_neg (hspecial '\r' (by decide)),
    if_neg (hspecial '\x27' (by decide)), h]

/-! ### Dotted names -/

/-- An identifier as it is spelled: bare, or in quotes. -/
inductive Spelling where
  | bare (content : List Char)
  | quoted (start close : Char) (content : List Char)

namespace Spelling

/-- What the identifier is. -/
def content : Spelling → List Char
  | bare content => content
  | quoted _ _ content => content

/-- How it is written. -/
def text : Spelling → List Char
  | bare content => content
  | quoted start close content => start :: (doubled close content ++ [close])

/-- What a statement reads it as. -/
def ident : Spelling → Ident
  | bare content => ⟨String.ofList content, none⟩
  | quoted start _ content => ⟨String.ofList content, some start⟩

/-- A spelling that a dialect has behind a token: bare where it is one word without periods, and
    else in quotes of the dialect. -/
def Fits (d : Dialect) (p : Option Token) : Spelling → Prop
  | bare content => '.' ∉ content ∧ BareWord d p content
  | quoted start close _ => d.identifierQuote? start = some close

end Spelling

/-- Identifiers with periods between them. -/
def dottedText (names : List Spelling) : List Char := ['.'].intercalate (names.map Spelling.text)

/-- The token of an identifier. -/
def Ident.token (i : Ident) : Token := .word i.text i.quote

/-- The tokens of a dotted name. -/
def nameTokens (name : Name) : List Token := (name.map Ident.token).intersperse (.symbol ".")

/-- The text of a dotted name, part by part. -/
theorem dottedText_cons (s s' : Spelling) (names : List Spelling) :
    dottedText (s :: s' :: names) = s.text ++ '.' :: dottedText (s' :: names) := by
  simp [dottedText, List.intercalate, List.flatten]

/-- An identifier is read up to a period or the end of the text. -/
theorem Spelling.scans_text {s : Spelling} (hs : s.Fits d p) {R : List Char}
    (hR : R = [] ∨ ∃ S, R = '.' :: S) :
    Scans d p (s.text ++ R) [s.ident.token] (some s.ident.token) R := by
  cases s with
  | bare content =>
    obtain ⟨hpoint, c, w, rfl, hstep⟩ := hs
    rcases hR with rfl | ⟨S, rfl⟩
    · rw [List.append_nil]
      exact .one hstep
    · exact .one (step_bareWord_period hpoint hstep S)
  | quoted start close content =>
    -- what follows does not double the closing quote
    have hclose : R.head?.any (· == close) = false := by
      have hpairs : ∀ pair ∈ [('"', '"'), ('\x60', '\x60'), ('[', ']')], '.' ≠ pair.2 := by decide
      rcases hR with rfl | ⟨S, rfl⟩
      · rfl
      · simpa using hpairs _ (identifierQuote?_pair hs)
    have hread : quotedText? close (doubled close content ++ [close] ++ R) = some (content, R) := by
      rw [List.append_assoc]
      exact quotedText?_doubled content hclose
    refine .one (?_ : step d p start (doubled close content ++ [close] ++ R) = _)
    rw [step_identifierQuote hs, quotedIdentifier, List.tail_cons, hread]
    rfl

/-- Behind a word, a period stands for itself if no number starts with it. -/
theorem Lexer.step_period {text : String} {quote : Option Char} {cs : List Char}
    (h : d.numericWords = false → cs.head?.any Char.isDigit = false) :
    step d (some (.word text quote)) '.' cs = .ok (.symbol ".", cs) := by
  -- a period before an underscore separates; otherwise it would need a digit behind it
  rw [step_point, numberOrPeriod_point]
  split
  · rfl
  · next hunderscore =>
    refine congrArg Except.ok ?_
    cases hd : d.numericWords with
    | true => simp [decimalFrom, hd, afterWord]
    -- without words that begin with digits a digit behind the period is excluded
    | false =>
      have hruns : runs d.digitSeparators Char.isDigit cs = false := by
        cases cs with
        | nil => rfl
        | cons c cs =>
          have hdigit : c.isDigit = false := h hd
          have hc : (c == '_') = false := by simpa using hunderscore
          rw [runs, hdigit, hc, Bool.and_false]
          rfl
      simp [decimalFrom, hd, digitRun_of_not_runs hruns]

/-- Where digits start no words, a spelling starts with no digit. -/
theorem Spelling.head_text {s : Spelling} (hs : s.Fits d p) (hd : d.numericWords = false)
    (R : List Char) : (s.text ++ R).head?.any Char.isDigit = false := by
  cases s with
  | bare content =>
    obtain ⟨-, c, w, rfl, hstep⟩ := hs
    exact (step_word_head hd hstep).2
  | quoted start close content =>
    have hpairs : ∀ pair ∈ [('"', '"'), ('\x60', '\x60'), ('[', ']')], pair.1.isDigit = false := by
      decide
    exact hpairs _ (identifierQuote?_pair hs)

/-- **Dotted names.** A dotted name is read as its identifiers with periods between them. -/
theorem scans_name {s : Spelling} {names : List Spelling} (hs : s.Fits d p)
    (hnames : ∀ s ∈ names, s.Fits d (some (.symbol "."))) :
    ∃ q, Scans d p (dottedText (s :: names)) (nameTokens ((s :: names).map Spelling.ident)) q
      [] := by
  -- on the identifiers behind the first one, which stand behind a period each
  induction names generalizing p s with
  | nil =>
    have hone := s.scans_text hs (R := []) (.inl rfl)
    rw [List.append_nil] at hone
    have htext : dottedText [s] = s.text := by simp [dottedText, List.intercalate]
    rw [htext]
    exact ⟨_, hone⟩
  | cons s' names ih =>
    have hs' := hnames s' (List.mem_cons_self ..)
    obtain ⟨q, hrest⟩ := ih hs' fun s hmem => hnames s (List.mem_cons_of_mem s' hmem)
    have hperiod : step d (some s.ident.token) '.' (dottedText (s' :: names))
        = .ok (.symbol ".", dottedText (s' :: names)) := by
      refine step_period fun hd => ?_
      cases names with
      | nil => simpa [dottedText, List.intercalate] using s'.head_text hs' hd []
      | cons s'' names =>
        rw [dottedText_cons]
        exact s'.head_text hs' hd _
    rw [dottedText_cons]
    exact ⟨q, (s.scans_text hs (.inr ⟨_, rfl⟩)).trans (.token hperiod hrest)⟩

end QueryGate.Sql
