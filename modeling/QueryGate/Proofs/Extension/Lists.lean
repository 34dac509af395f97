import QueryGate.Proofs.Extension.Literals
import QueryGate.Proofs.Grammar.Steps

namespace QueryGate.Sql.Parser

/-!
# Texts and what stands behind them

A text may go on in more than one way.  `Tail` lists the ways that are compared here, each of them
as a pair of lists that stand behind the same lexemes: behind a text in parentheses stands the
closing parenthesis, and then whatever follows; behind a whole statement nothing, or the
parenthesis around it, or a limit.

`Fit` says of which lexemes the comparison is to hold: their parentheses are balanced, and none of
the words that break the rule is among them.  Where a limit follows, what stands last must not ask
for more.
-/

/-! ### Parentheses -/

/-- An opening parenthesis. -/
def opening (attached : Bool) : Lexeme := ⟨.symbol "(", "", attached⟩

/-- A closing parenthesis. -/
def closing (attached : Bool) : Lexeme := ⟨.symbol ")", "", attached⟩

@[simp] theorem opening_token (a : Bool) : (opening a).token = .symbol "(" := rfl

@[simp] theorem opening_keyword (a : Bool) : (opening a).keyword = "" := rfl

@[simp] theorem closing_token (a : Bool) : (closing a).token = .symbol ")" := rfl

@[simp] theorem closing_keyword (a : Bool) : (closing a).keyword = "" := rfl

/-- The word of a limit. -/
def limitWord (attached : Bool) : Lexeme := ⟨.word "LIMIT" none, "LIMIT", attached⟩

@[simp] theorem limitWord_token (a : Bool) : (limitWord a).token = .word "LIMIT" none := rfl

@[simp] theorem limitWord_keyword (a : Bool) : (limitWord a).keyword = "LIMIT" := rfl

/-- The lexemes of a limit. -/
def limit (attached : Bool) (count : String) : List Lexeme :=
  [limitWord attached, ⟨.number count false, "", false⟩]

/-! ### Words that ask for more -/

/-- Words that an expression, a type or a name may follow where without one the grammar has another
    reading. -/
abbrev askingWords : List String :=
  ["ALL", "AND", "ANY", "AS", "BETWEEN", "BINARY", "CASE", "COLLATE", "DIV", "ELSE", "FN", "FROM",
    "ILIKE", "INTERVAL", "LIKE", "MATCH", "NOT", "OR", "OVER", "OVERLAPS", "REGEXP", "RLIKE",
    "SETOF", "SOME", "THEN", "TO", "WHEN", "XOR", "ZONE"]

/-- Whether a lexeme asks for more: an operator, any other symbol that closes nothing, or an asking
    word. -/
def Lexeme.asks (l : Lexeme) : Bool :=
  askingWords.contains l.keyword ||
    match l.token with
    | .symbol s => !([")", "]", "\x7d"].contains s)
    | .customOperator _ => true
    | _ => false

/-! ### Fit lists -/

/-- Words behind which the grammar counts tokens, whatever they are. -/
abbrev countingWords : List String := ["TABLE", "OPERATOR"]

/-- Words that start what a limit may not follow as part of. -/
abbrev foreignWords : List String := ["VIEW", "INSERT", "UPDATE", "DELETE", "MERGE", "LIMIT"]

/-- A literal or a number. -/
def Lexeme.isLiteral (l : Lexeme) : Bool :=
  l.keyword == "" &&
    match l.token with
    | .literal _ _ | .number _ _ => true
    | _ => false

/-- A lexeme that may stand before others: it is no parenthesis and counts no tokens, and a
    parenthesis behind `FILTER` holds a condition. -/
structure Lexeme.Plain (l : Lexeme) (behind : List Lexeme) : Prop where
  not_opening : l.token ≠ .symbol "("
  not_closing : l.token ≠ .symbol ")"
  not_counting : l.keyword ∉ countingWords
  filter : l.keyword = "FILTER" → ∀ a m ms, behind = opening a :: m :: ms → m.keyword = "WHERE"

/-- A lexeme that may stand before others at the end of whose text a limit follows. -/
structure Lexeme.Leads (l : Lexeme) (behind : List Lexeme) : Prop where
  ends : behind = [] → l.asks = false
  not_foreign : l.keyword ∉ foreignWords
  interval : l.keyword = "INTERVAL" → ∀ m ∈ behind.head?, m.isLiteral = true
  binary : l.keyword = "BINARY" → ∀ m ∈ behind.head?, m.token ≠ .symbol "("
  pattern : l.keyword = "REGEXP" ∨ l.keyword = "RLIKE" → ∀ m ∈ behind.head?, m.keyword ≠ "NULL"

/-- Balanced lexemes in which each stands before the others as it may; `ended` if a limit may
    follow. -/
inductive Fit : Bool → List Lexeme → Prop
  | nil {ended : Bool} : Fit ended []
  | cons {ended : Bool} {l : Lexeme} {ls : List Lexeme} (hplain : l.Plain ls)
      (hleads : ended = true → l.Leads ls) (h : Fit ended ls) : Fit ended (l :: ls)
  | parens {ended a b : Bool} {js ls : List Lexeme} (hjs : Fit false js) (h : Fit ended ls) :
      Fit ended (opening a :: (js ++ closing b :: ls))

namespace Fit

variable {ended : Bool} {l : Lexeme} {ls : List Lexeme}

/-- Behind a lexeme that is no parenthesis the lexemes are fit. -/
theorem of_cons (h : Fit ended (l :: ls)) (hl : l.token ≠ .symbol "(") :
    l.Plain ls ∧ (ended = true → l.Leads ls) ∧ Fit ended ls := by
  cases h with
  | cons hplain hleads h => exact ⟨hplain, hleads, h⟩
  | parens => exact absurd rfl hl

/-- Behind a lexeme that asks for more stands another one, if a limit follows. -/
theorem ne_nil (h : Fit ended (l :: ls)) (hl : l.token ≠ .symbol "(") (hended : ended = true)
    (hasks : l.asks = true) : ls ≠ [] := by
  obtain ⟨-, hleads, -⟩ := h.of_cons hl
  intro hls
  rw [(hleads hended).ends hls] at hasks
  cases hasks

end Fit

/-- What stands last before a limit closes a parenthesis, or asks for nothing. -/
theorem Fit.last {ended : Bool} {ls : List Lexeme} (h : Fit ended ls) (hended : ended = true) :
    ∀ l ∈ ls.getLast?, l.token = .symbol ")" ∨ l.asks = false := by
  induction h with
  | nil => exact nofun
  -- the last lexeme is the last of the rest, unless the rest is empty
  | @cons ended l ls hplain hleads h ih =>
    intro m hm
    cases ls with
    | nil =>
      cases hm
      exact .inr ((hleads hended).ends rfl)
    | cons k ks => exact ih hended m (by rwa [List.getLast?_cons_cons] at hm)
  | @parens ended a b js ls hjs h _ ih =>
    intro m hm
    cases ls with
    | nil =>
      rw [← List.cons_append, List.getLast?_concat] at hm
      cases hm
      exact .inl rfl
    | cons k ks =>
      refine ih hended m ?_
      rwa [← List.cons_append, List.getLast?_append_of_ne_nil _ (List.cons_ne_nil _ _),
        List.getLast?_cons_cons] at hm

/-! ### Finding fit lists -/


/-- Whether a lexeme is a word that counts tokens, or filters by anything but a condition. -/
def Lexeme.isPlain (l : Lexeme) (behind : List Lexeme) : Bool :=
  !countingWords.contains l.keyword &&
    (l.keyword != "FILTER" || match behind with
      | paren :: m :: _ => paren.token != .symbol "(" || m.keyword == "WHERE"
      | _ => true)

/-- Whether a lexeme may stand before others at the end of whose text a limit follows. -/
def Lexeme.isLeading (l : Lexeme) (behind : List Lexeme) : Bool :=
  !foreignWords.contains l.keyword &&
    match behind with
    | [] => !l.asks
    | m :: _ =>
      (l.keyword != "INTERVAL" || m.isLiteral) && (l.keyword != "BINARY" || m.token != .symbol "(") &&
        ((l.keyword != "REGEXP" && l.keyword != "RLIKE") || m.keyword != "NULL")

/-- The test of a lexeme decides whether it is plain. -/
theorem Lexeme.plain_of_isPlain {l : Lexeme} {ls : List Lexeme} (hopen : l.token ≠ .symbol "(")
    (hclose : l.token ≠ .symbol ")") (h : l.isPlain ls = true) : l.Plain ls := by
  obtain ⟨hcount, hfilter⟩ := Bool.and_eq_true_iff.mp h
  refine ⟨hopen, hclose, by simpa using hcount, fun hl a m ms hls => ?_⟩
  subst hls
  simpa [hl] using hfilter

/-- The test of a lexeme decides whether it leads what is behind it. -/
theorem Lexeme.leads_of_isLeading {l : Lexeme} {ls : List Lexeme} (h : l.isLeading ls = true) :
    l.Leads ls := by
  obtain ⟨hforeign, hbehind⟩ := Bool.and_eq_true_iff.mp h
  cases ls with
  | nil => exact ⟨fun _ => by simpa using hbehind, by simpa using hforeign, nofun, nofun, nofun⟩
  | cons m ms =>
    simp only [Bool.and_eq_true, Bool.or_eq_true, bne_iff_ne, ne_eq] at hbehind
    obtain ⟨⟨hinterval, hbinary⟩, hpattern⟩ := hbehind
    refine ⟨nofun, by simpa using hforeign, ?_, ?_, ?_⟩
    · rintro hl _ ⟨⟩
      exact hinterval.resolve_left (not_not_intro hl)
    · rintro hl _ ⟨⟩
      exact hbinary.resolve_left (not_not_intro hl)
    · rintro hl _ ⟨⟩
      exact hpattern.resolve_left fun ⟨hregexp, hrlike⟩ => hl.elim hregexp hrlike

/-- Fewer lexemes behind the same one. -/
theorem Lexeme.Plain.of_append {l : Lexeme} {js zs : List Lexeme} (h : l.Plain (js ++ zs)) :
    l.Plain js := by
  refine ⟨h.not_opening, h.not_closing, h.not_counting, fun hl a m ms hjs => ?_⟩
  subst hjs
  exact h.filter hl a m _ rfl

/-- Whether lexemes are fit behind so many open parentheses. -/
def isFit (ended : Bool) : Nat → List Lexeme → Bool
  | depth, [] => depth == 0
  | depth, l :: ls =>
    if l = opening l.attached then isFit ended (depth + 1) ls
    else if l = closing l.attached then
      match depth with
      | 0 => false
      | depth + 1 => isFit ended depth ls
    else
      l.token != .symbol "(" && l.token != .symbol ")" && l.isPlain ls &&
        (depth != 0 || !ended || l.isLeading ls) && isFit ended depth ls

/-- Fit lexemes behind so many open parentheses: fit ones before each that closes one. -/
def FitBehind (ended : Bool) : Nat → List Lexeme → Prop
  | 0, ls => Fit ended ls
  | depth + 1, ls => ∃ js b rest, ls = js ++ closing b :: rest ∧ Fit false js ∧ FitBehind ended depth rest

/-- The scan decides the condition from inside any number of parentheses. -/
theorem fitBehind_of_isFit {ended : Bool} {depth : Nat} {ls : List Lexeme}
    (h : isFit ended depth ls = true) : FitBehind ended depth ls := by
  induction ls generalizing depth with
  | nil =>
    obtain rfl : depth = 0 := by simpa [isFit] using h
    exact .nil
  | cons l ls ih =>
    unfold isFit at h
    split at h
    -- a parenthesis opens a group: its rest gives one more closed part
    · next hopen =>
      obtain ⟨js, b, rest, rfl, hjs, hrest⟩ := ih h
      rw [hopen]
      cases depth with
      | zero => exact .parens hjs hrest
      | succ depth =>
        obtain ⟨js', b', rest, rfl, hjs', hrest⟩ := hrest
        exact ⟨opening l.attached :: (js ++ closing b :: js'), b', rest, by simp, .parens hjs hjs', hrest⟩
    split at h
    -- it closes the group that the depth counts
    · next hclose =>
      rw [hclose]
      cases depth with
      | zero => cases h
      | succ depth => exact ⟨[], l.attached, ls, rfl, .nil, ih h⟩
    -- any other lexeme is plain and, at the top, leads what is behind it
    · simp only [Bool.and_eq_true, bne_iff_ne, and_assoc] at h
      obtain ⟨hopen, hclose, hplain, hleads, hrest⟩ := h
      have hplain := Lexeme.plain_of_isPlain hopen hclose hplain
      have hrest := ih hrest
      cases depth with
      | zero =>
        refine .cons hplain (fun hended => Lexeme.leads_of_isLeading ?_) hrest
        simpa [hended] using hleads
      | succ depth =>
        obtain ⟨js, b, rest, rfl, hjs, hrest⟩ := hrest
        exact ⟨l :: js, b, rest, rfl, .cons hplain.of_append nofun hjs, hrest⟩

/-- The scan decides the condition. -/
theorem fit_of_isFit {ended : Bool} {ls : List Lexeme} (h : isFit ended 0 ls = true) :
    Fit ended ls :=
  fitBehind_of_isFit h

/-! ### Tails -/

/-- How a text may go on. -/
inductive Tail where
  /-- Behind the closing parenthesis, in any way. -/
  | inside
  /-- Not at all, or with the closing parenthesis. -/
  | closed
  /-- Not at all, or with a limit. -/
  | limited
  /-- The same, where nothing is said of parsers that fail at the end. -/
  | lenient
deriving DecidableEq

namespace Tail

/-- Whether a limit may follow. -/
def ended : Tail → Bool
  | inside | closed => false
  | limited | lenient => true

/-- How many lexemes have to be left for a parser that cannot do without one. -/
def need : Tail → Nat
  | limited => 1
  | _ => 0

/-- No limit follows. -/
class Unlimited (κ : Tail) : Prop where
  eq : κ.ended = false

instance : inside.Unlimited := ⟨rfl⟩

instance : closed.Unlimited := ⟨rfl⟩

/-- Failures are compared. -/
class Exact (κ : Tail) : Prop where
  ne : κ ≠ lenient

instance : inside.Exact := ⟨nofun⟩

instance : closed.Exact := ⟨nofun⟩

instance : limited.Exact := ⟨nofun⟩

/-- The same ways to go on, with failures compared. -/
def firm : Tail → Tail
  | lenient => limited
  | κ => κ

@[simp] theorem ended_firm (κ : Tail) : κ.firm.ended = κ.ended := by cases κ <;> rfl

instance {κ : Tail} : κ.firm.Exact := ⟨by cases κ <;> nofun⟩

/-- The end may be reached. -/
class Easy (κ : Tail) : Prop where
  eq : κ.need = 0

instance : inside.Easy := ⟨rfl⟩

instance : closed.Easy := ⟨rfl⟩

instance : lenient.Easy := ⟨rfl⟩

instance {κ : Tail} [h : κ.Unlimited] : κ.Exact :=
  ⟨fun heq => by cases heq ▸ h.eq⟩

instance {κ : Tail} [h : κ.Unlimited] : κ.Easy :=
  ⟨by
    have := h.eq
    cases κ <;> first | rfl | cases this⟩

end Tail

/-- The lists that stand behind the same lexemes. -/
inductive Tails : Tail → List Lexeme → List Lexeme → Prop
  | inside {a : Bool} {zs zs' : List Lexeme} : Tails .inside (closing a :: zs) (closing a :: zs')
  | closed {a : Bool} {zs : List Lexeme} : Tails .closed [] (closing a :: zs)
  | limited {a : Bool} {n : String} : Tails .limited [] (limit a n)
  | lenient {a : Bool} {n : String} : Tails .lenient [] (limit a n)

/-- A keyword that is not there where a text goes on. -/
class Absent (κ : Tail) (k : String) : Prop where
  ne_empty : k ≠ ""
  ne_limit : κ.ended = true → k ≠ "LIMIT"

instance {κ : Tail} {k : String} [h : Differ k ""] [h' : Differ k "LIMIT"] : Absent κ k :=
  ⟨h.ne, fun _ => h'.ne⟩

instance {κ : Tail} [hκ : κ.Unlimited] {k : String} [h : Differ k ""] : Absent κ k :=
  ⟨h.ne, fun hended => absurd (hκ.eq.symm.trans hended) Bool.false_ne_true⟩

/-- Keywords that are not there where a text goes on. -/
class AllAbsent (κ : Tail) (ks : List String) : Prop where
  absent : ∀ k ∈ ks, Absent κ k

instance {κ : Tail} : AllAbsent κ [] := ⟨nofun⟩

instance {κ : Tail} {k : String} {ks : List String} [h : Absent κ k] [hs : AllAbsent κ ks] :
    AllAbsent κ (k :: ks) :=
  ⟨List.forall_mem_cons.mpr ⟨h, hs.absent⟩⟩

/-- What stands behind the lexemes that are compared. -/
inductive Behind : List Lexeme → Prop
  | nil : Behind []
  | closing {a : Bool} {zs : List Lexeme} : Behind (closing a :: zs)
  | limit {a : Bool} {n : String} : Behind (limit a n)

namespace Tails

variable {κ : Tail} {zs zs' : List Lexeme}

/-- Both tails may stand behind a complete phrase. -/
theorem behind (h : Tails κ zs zs') : Behind zs ∧ Behind zs' := by
  cases h with
  | inside => exact ⟨.closing, .closing⟩
  | closed => exact ⟨.nil, .closing⟩
  | limited => exact ⟨.nil, .limit⟩
  | lenient => exact ⟨.nil, .limit⟩

/-- Tails stay tails where the limit has to be read too. -/
theorem firm (h : Tails κ zs zs') : Tails κ.firm zs zs' := by
  cases h with
  | inside => exact .inside
  | closed => exact .closed
  | limited => exact .limited
  | lenient => exact .limited

/-- What a text goes on with is a closing parenthesis or the word of a limit. -/
theorem head? (h : Tails κ zs zs') {l : Lexeme} (hl : l ∈ zs.head? ∨ l ∈ zs'.head?) :
    (∃ a, l = closing a) ∨ κ.ended = true ∧ ∃ a, l = limitWord a := by
  cases h with
  | inside => exact .inl ⟨_, hl.elim (Eq.symm ∘ Option.some.inj) (Eq.symm ∘ Option.some.inj)⟩
  | closed => exact .inl ⟨_, hl.elim nofun (Eq.symm ∘ Option.some.inj)⟩
  | limited => exact .inr ⟨rfl, _, hl.elim nofun (Eq.symm ∘ Option.some.inj)⟩
  | lenient => exact .inr ⟨rfl, _, hl.elim nofun (Eq.symm ∘ Option.some.inj)⟩

/-- What holds of the closing parenthesis, of the word of a limit and of the first lexeme of a text
    holds of the first lexeme with either tail behind the text. -/
theorem head_append {P : Lexeme → Prop} (ht : Tails κ zs zs') (hclosing : ∀ a, P (closing a))
    (hlimit : ∀ a, P (limitWord a)) {is : List Lexeme} (h : ∀ l ∈ is.head?, P l) :
    (∀ l ∈ (is ++ zs).head?, P l) ∧ ∀ l ∈ (is ++ zs').head?, P l := by
  cases is with
  | cons l ls => exact ⟨h, h⟩
  | nil =>
    have htail : ∀ l, l ∈ zs.head? ∨ l ∈ zs'.head? → P l := by
      intro l hl
      rcases ht.head? hl with ⟨a, rfl⟩ | ⟨-, a, rfl⟩
      · exact hclosing a
      · exact hlimit a
    exact ⟨fun l hl => htail l (.inl hl), fun l hl => htail l (.inr hl)⟩

/-- No parenthesis is opened there. -/
theorem not_opening (h : Tails κ zs zs') {l : Lexeme} (hl : l ∈ zs.head? ∨ l ∈ zs'.head?) :
    l.token ≠ .symbol "(" := by
  rcases h.head? hl with ⟨a, rfl⟩ | ⟨-, a, rfl⟩ <;> simp

/-- No keyword of the grammar is found there. -/
theorem keyword_ne (h : Tails κ zs zs') {l : Lexeme} (hl : l ∈ zs.head? ∨ l ∈ zs'.head?)
    {k : String} (hk : Absent κ k) : l.keyword ≠ k := by
  rcases h.head? hl with ⟨a, rfl⟩ | ⟨hended, a, rfl⟩
  · exact Ne.symm hk.ne_empty
  · exact Ne.symm (hk.ne_limit hended)

/-- No tail begins with a word that it does not hold. -/
theorem keyword_not_mem (h : Tails κ zs zs') {l : Lexeme} (hl : l ∈ zs.head? ∨ l ∈ zs'.head?)
    {ks : List String} (hks : AllAbsent κ ks) : l.keyword ∉ ks :=
  fun hmem => h.keyword_ne hl (hks.absent _ hmem) rfl

end Tails

/-- Either the lexemes start with a pair of parentheses, or none is opened, whatever stands behind
    them. -/
theorem Fit.parens_or_head {κ : Tail} {zs zs' is : List Lexeme} (ht : Tails κ zs zs')
    (hi : Fit κ.ended is) :
    (∃ a b js ls, Fit false js ∧ Fit κ.ended ls ∧ is = opening a :: (js ++ closing b :: ls)) ∨
      (∀ l ∈ (is ++ zs).head?, l.token ≠ .symbol "(") ∧
        ∀ l ∈ (is ++ zs').head?, l.token ≠ .symbol "(" := by
  cases hi with
  | nil => exact .inr ⟨fun l hl => ht.not_opening (.inl hl), fun l hl => ht.not_opening (.inr hl)⟩
  | @parens _ a b js ls hjs hls => exact .inl ⟨a, b, js, ls, hjs, hls, rfl⟩
  | @cons _ l ls hplain =>
    have hhead {zs} : ∀ m ∈ (l :: ls ++ zs).head?, m.token ≠ .symbol "(" := by
      rintro m ⟨⟩
      exact hplain.not_opening
    exact .inr ⟨hhead, hhead⟩

end QueryGate.Sql.Parser
