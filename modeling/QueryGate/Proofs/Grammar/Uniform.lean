import QueryGate.Proofs.Effects
import QueryGate.Sql.Parser

namespace QueryGate.Sql.Parser

/-!
# What parsers look at

Parsers look at kinds of tokens, keywords and symbols, but not at the count that a number spells:
only whether it spells one.  And a parser builds a node with an effect only where it has taken the
word of that effect.

* `Twins W` — lists of lexemes that differ in the counts which numbers spell, with all keywords
  among `W`;
* `Uniform W p` — `p` gives the same result on twins, leaves twins behind, and all effects in its
  result are spelled by words among `W`.

Each combinator of the grammar keeps uniformity, and says so as an instance: a parser that is put
together from uniform ones is found to be uniform by following its text.  What looks at single
lexemes is related by hand.
-/

/-! ### Twins -/

/-- Two tokens that are the same, or two numbers that spell counts. -/
inductive TwinToken : Option Token → Option Token → Prop
  | same (t : Option Token) : TwinToken t t
  | count {s t : String} (b c : Bool) (hs : (Text.readCount? s).isSome = true)
      (ht : (Text.readCount? t).isSome = true) :
      TwinToken (some (.number s b)) (some (.number t c))

/-- A colon or an at sign: what stands directly behind it may belong to it. -/
def Lexeme.isMark (l : Lexeme) : Prop := l.token = .symbol ":" ∨ l.token = .symbol "@"

variable (W : String → Prop)

/-- Two lists of lexemes that differ in the counts of numbers only, where no such number stands
    behind a mark, and whose keywords are all among `W`. -/
inductive Twins : List Lexeme → List Lexeme → Prop
  | nil : Twins [] []
  | cons {t u : Token} {k : String} {a : Bool} {ls ms : List Lexeme} (hword : W k)
      (htoken : TwinToken (some t) (some u))
      (hmark : (Lexeme.mk t k a).isMark → ls.head? = ms.head?) (h : Twins ls ms) :
      Twins (⟨t, k, a⟩ :: ls) (⟨u, k, a⟩ :: ms)

/-- The same for one lexeme, or for the end of the text. -/
inductive TwinLexeme : Option Lexeme → Option Lexeme → Prop
  | none : TwinLexeme none none
  | some {t u : Token} {k : String} {a : Bool} (hword : W k)
      (htoken : TwinToken (some t) (some u)) : TwinLexeme (some ⟨t, k, a⟩) (some ⟨u, k, a⟩)

variable {W} {ls ms : List Lexeme}

namespace Twins

/-- A list is its own twin, if its keywords are among `W`. -/
theorem refl (h : ∀ l ∈ ls, W l.keyword) : Twins W ls ls := by
  induction ls with
  | nil => exact .nil
  | cons l ls ih =>
    exact .cons (h l (List.mem_cons_self ..)) (.same _) (fun _ => rfl)
      (ih fun m hm => h m (List.mem_cons_of_mem l hm))

theorem length_eq (h : Twins W ls ms) : ls.length = ms.length := by
  induction h with
  | nil => rfl
  | cons _ _ _ _ ih => simp [ih]

/-- Twin lists begin with twins. -/
theorem head? (h : Twins W ls ms) : TwinLexeme W ls.head? ms.head? := by
  cases h with
  | nil => exact .none
  | cons hword htoken _ _ => exact .some hword htoken

theorem keyword (h : Twins W ls ms) : ls.head?.map Lexeme.keyword = ms.head?.map Lexeme.keyword := by
  cases h with
  | nil => rfl
  | cons _ _ _ _ => rfl

/-- Symbols are the same in twins. -/
theorem symbol (h : Twins W ls ms) (s : String) :
    ls.head?.any (·.token == .symbol s) = ms.head?.any (·.token == .symbol s) := by
  cases h with
  | nil => rfl
  | cons _ htoken _ _ =>
    cases htoken with
    | same => rfl
    | count => rfl

end Twins

/-! ### Results on twins -/

variable (W)

/-- The same failure, or results in a relation with twins left behind. -/
def Alike (V : α → β → Prop) :
    Except Halt (α × List Lexeme) → Except Halt (β × List Lexeme) → Prop
  | .ok (a, ls), .ok (b, ms) => V a b ∧ Twins W ls ms
  | .error e, .error f => e = f
  | _, _ => False

/-- Equal results whose effects are spelled. -/
def Same [Effectful α] (a b : α) : Prop := a = b ∧ Spelled W a

/-- What is nested one level deeper is the same for twins. -/
structure Env.Blind (env : Env) : Prop where
  query : ∀ {ls ms}, Twins W ls ms → Alike W (Same W) (env.query ls) (env.query ms)
  term : ∀ power {ls ms}, Twins W ls ms →
    Alike W (Same W) (env.term power ls) (env.term power ms)

/-- Two parsers give related results on twins. -/
def Relates (V : α → β → Prop) (p : Parser α) (q : Parser β) : Prop :=
  ∀ env : Env, env.Blind W → ∀ {ls ms}, Twins W ls ms → Alike W V (p env ls) (q env ms)

/-- A parser gives the same result on twins, and the effects in it are spelled. -/
class Uniform [Effectful α] (p : Parser α) : Prop where
  relates : Relates W (Same W) p p

variable {W} {α β γ δ : Type} {V : α → β → Prop} {U : γ → δ → Prop}

/-- Results that are alike go on alike. -/
theorem Alike.bind {x : Except Halt (α × List Lexeme)} {y : Except Halt (β × List Lexeme)}
    {f : α × List Lexeme → Except Halt (γ × List Lexeme)}
    {g : β × List Lexeme → Except Halt (δ × List Lexeme)} (h : Alike W V x y)
    (hf : ∀ {a b ls ms}, V a b → Twins W ls ms → Alike W U (f (a, ls)) (g (b, ms))) :
    Alike W U (x >>= f) (y >>= g) := by
  cases x with
  | error e =>
    cases y with
    | error e' => exact h
    | ok r => exact h.elim
  | ok r =>
    cases y with
    | error e' => exact h.elim
    | ok r' => exact hf h.1 h.2

/-- Either both parsers fail in the same way, or both give the same spelled result. -/
theorem Alike.cases [Effectful α] {x y : Except Halt (α × List Lexeme)}
    (h : Alike W (Same W) x y) :
    (∃ e, x = .error e ∧ y = .error e) ∨
      ∃ a ls ms, x = .ok (a, ls) ∧ y = .ok (a, ms) ∧ Spelled W a ∧ Twins W ls ms := by
  cases x with
  | error e =>
    cases y with
    | error e' => exact .inl ⟨e, rfl, congrArg _ (Eq.symm h)⟩
    | ok r => exact h.elim
  | ok r =>
    cases y with
    | error e' => exact h.elim
    | ok r' =>
      obtain ⟨⟨heq, ha⟩, ht⟩ := h
      exact .inr ⟨r.1, r.2, r'.2, rfl, by rw [heq], ha, ht⟩

namespace Relates

theorem pure {a : α} {b : β} (h : V a b) :
    Relates W V (Pure.pure a : Parser α) (Pure.pure b : Parser β) :=
  fun _ _ _ _ ht => ⟨h, ht⟩

theorem throw (e : Halt) : Relates W V (throw e : Parser α) (throw e : Parser β) :=
  fun _ _ _ _ _ => rfl

/-- A relation may be said more weakly. -/
theorem mono {V' : α → β → Prop} {p : Parser α} {q : Parser β} (h : Relates W V p q)
    (hV : ∀ {a b}, V a b → V' a b) : Relates W V' p q := by
  intro env henv ls ms ht
  have halike := h env henv ht
  generalize p env ls = x, q env ms = y at halike
  cases x with
  | error e => cases y <;> exact halike
  | ok r =>
    cases y with
    | error e => exact halike
    | ok r' => exact ⟨hV halike.1, halike.2⟩

/-- Related parsers, one after the other. -/
theorem bind {p : Parser α} {q : Parser β} {f : α → Parser γ} {g : β → Parser δ}
    (hp : Relates W V p q) (hf : ∀ a b, V a b → Relates W U (f a) (g b)) :
    Relates W U (p >>= f) (q >>= g) :=
  fun env henv _ _ ht => (hp env henv ht).bind fun h ht' => hf _ _ h env henv ht'

/-- Taking the lexemes that are left. -/
theorem get : Relates W (Twins W) (MonadState.get : Parser _) (MonadState.get : Parser _) :=
  fun _ _ _ _ ht => ⟨ht, ht⟩

/-- Putting twins back. -/
theorem set (h : Twins W ls ms) :
    Relates W (Same W) (MonadState.set ls : Parser Unit) (MonadState.set ms : Parser Unit) :=
  fun _ _ _ _ _ => ⟨⟨rfl, inferInstance⟩, h⟩

theorem next : Relates W (TwinLexeme W) next next := by
  intro env henv ls ms ht
  cases ht with
  | nil => exact ⟨.none, .nil⟩
  | cons hword htoken _ h => exact ⟨.some hword htoken, h⟩

theorem peek : Relates W (TwinLexeme W) peek peek := fun _ _ _ _ ht => ⟨ht.head?, ht⟩

theorem nextToken : Relates W TwinToken nextToken nextToken :=
  next.bind fun _ _ h => by
    cases h with
    | none => exact pure (.same none)
    | some _ htoken => exact pure htoken

theorem peekToken : Relates W TwinToken peekToken peekToken :=
  peek.bind fun _ _ h => by
    cases h with
    | none => exact pure (.same none)
    | some _ htoken => exact pure htoken

end Relates

/-! ### Control -/

namespace Uniform

variable [Effectful α] [Effectful β] {p q : Parser α}

/-- What a uniform parser does on twins. -/
theorem alike (p : Parser α) [hp : Uniform W p] {env : Env} (henv : env.Blind W)
    (ht : Twins W ls ms) : Alike W (Same W) (p env ls) (p env ms) :=
  hp.relates env henv ht

instance pure {a : α} [h : Spelled W a] : Uniform W (Pure.pure a : Parser α) := ⟨.pure ⟨rfl, h⟩⟩

/-- The second parser may use that the first one's result is spelled. -/
theorem andThen {f : α → Parser β} (hp : Uniform W p)
    (hf : ∀ a, Spelled W a → Uniform W (f a)) : Uniform W (p >>= f) :=
  ⟨hp.relates.bind fun a _ ⟨heq, ha⟩ => heq ▸ (hf a ha).relates⟩

instance bind {f : α → Parser β} [hp : Uniform W p]
    [hf : ∀ a : Subtype (Spelled W : α → Prop), Uniform W (f a.val)] : Uniform W (p >>= f) :=
  hp.andThen fun a ha => hf ⟨a, ha⟩

instance map {f : α → β} [Uniform W p]
    [∀ a : Subtype (Spelled W : α → Prop), Spelled W (f a.val)] : Uniform W (f <$> p) := by
  rw [map_eq_pure_bind]
  infer_instance

instance ite {c : Prop} [Decidable c] [hp : Uniform W p] [hq : Uniform W q] :
    Uniform W (if c then p else q) := by
  split
  · exact hp
  · exact hq

/-- Twins are equally long, so a loop has the same fuel on both. -/
instance withFuel {p : Nat → Parser α} [hp : ∀ n, Uniform W (p n)] : Uniform W (withFuel p) :=
  ⟨Relates.get.bind fun _ _ ht => ht.length_eq ▸ (hp _).relates⟩

/-- A test of the first lexeme that comes out the same for twins. -/
theorem of_head {f : Option Lexeme → Bool} (hf : ∀ {l m}, TwinLexeme W l m → f l = f m) :
    Uniform W (do return f (← get).head? : Parser Bool) :=
  ⟨Relates.get.bind fun _ _ ht => .pure ⟨hf ht.head?, inferInstance⟩⟩

/-- What goes on from a token in the same way, whatever count it spells. -/
theorem of_token {x : Parser (Option Token)} (hx : Relates W TwinToken x x)
    {f : Option Token → Parser α} (hf : ∀ t, Uniform W (f t))
    (hcount : ∀ {s t : String} (b c : Bool), (Text.readCount? s).isSome = true →
      (Text.readCount? t).isSome = true →
      f (some (.number s b)) = f (some (.number t c)) := by intros; rfl) :
    Uniform W (x >>= f) := by
  refine ⟨hx.bind fun t u h => ?_⟩
  cases h with
  | same => exact (hf t).relates
  | count b c hs ht => exact hcount b c hs ht ▸ (hf _).relates

/-- What goes on from a lexeme in the same way, whatever count it spells. -/
theorem of_lexeme {x : Parser (Option Lexeme)} (hx : Relates W (TwinLexeme W) x x)
    {f : Option Lexeme → Parser α} (hf : ∀ l, Uniform W (f l))
    (hcount : ∀ {s t : String} (b c : Bool) {k : String} {a : Bool},
      (Text.readCount? s).isSome = true → (Text.readCount? t).isSome = true →
      f (some ⟨.number s b, k, a⟩) = f (some ⟨.number t c, k, a⟩) := by intros; rfl) :
    Uniform W (x >>= f) := by
  refine ⟨hx.bind fun l m h => ?_⟩
  cases h with
  | none => exact (hf none).relates
  | some _ htoken =>
    cases htoken with
    | same => exact (hf _).relates
    | count b c hs ht => exact hcount b c hs ht ▸ (hf _).relates

end Uniform

section

variable [Effectful α] {p q : Parser α}

instance [Uniform W p] : Uniform W (discard p) := Uniform.map

instance : Uniform W (misfit : Parser α) := ⟨.throw _⟩

instance {b : Bool} : Uniform W (ensure b) := by
  unfold ensure
  infer_instance

instance : Uniform W dialect := ⟨fun _ _ _ _ ht => ⟨⟨rfl, inferInstance⟩, ht⟩⟩

instance {d : Dialect} : Uniform W (isDialect d) := by
  unfold isDialect
  infer_instance

instance : Uniform W query := ⟨fun _ henv _ _ ht => henv.query ht⟩

instance {power : Nat} : Uniform W (termAbove power) := ⟨fun _ henv _ _ ht => henv.term power ht⟩

instance : Uniform W expr := inferInstanceAs (Uniform W (termAbove 0))

instance : Uniform W exprQueries := Uniform.map

instance {p q : Parser Bool} [Uniform W p] [Uniform W q] : Uniform W (both p q) := by
  unfold both
  infer_instance

instance {p q : Parser Bool} [Uniform W p] [Uniform W q] : Uniform W (either p q) := by
  unfold either
  infer_instance

/-- After a misfit the lexemes are those before it. -/
instance [hp : Uniform W p] : Uniform W (attempt p) := by
  refine ⟨fun env henv ls ms ht => ?_⟩
  simp only [attempt]
  rcases (hp.relates env henv ht).cases with ⟨e, hl, hm⟩ | ⟨a, ls', ms', hl, hm, ha, ht'⟩
  · rw [hl, hm]
    cases e with
    | misfit => exact ⟨⟨rfl, inferInstance⟩, ht⟩
    | tooDeep => rfl
    | stuck => rfl
  · rw [hl, hm]
    exact ⟨⟨rfl, .some⟩, ht'⟩

/-- The fallback starts from the lexemes that the first parser started from. -/
instance [hp : Uniform W p] [hq : Uniform W q] : Uniform W (orElseInstead p q) := by
  refine ⟨fun env henv ls ms ht => ?_⟩
  simp only [orElseInstead]
  rcases (hp.relates env henv ht).cases with ⟨e, hl, hm⟩ | ⟨a, ls', ms', hl, hm, ha, ht'⟩
  · rw [hl, hm]
    rcases (hq.relates env henv ht).cases with ⟨e', hl', hm'⟩ | ⟨a, ls', ms', hl', hm', ha, ht'⟩
    · rw [hl', hm']
      cases e <;> cases e' <;> rfl
    · rw [hl', hm']
      cases e with
      | misfit => exact ⟨⟨rfl, ha⟩, ht'⟩
      | tooDeep => exact ⟨⟨rfl, ha⟩, ht'⟩
      | stuck => rfl
  · rw [hl, hm]
    exact ⟨⟨rfl, ha⟩, ht'⟩

instance [hp : Uniform W p] : Uniform W (insist p) := by
  refine ⟨fun env henv ls ms ht => ?_⟩
  simp only [insist]
  rcases (hp.relates env henv ht).cases with ⟨e, hl, hm⟩ | ⟨a, ls', ms', hl, hm, ha, ht'⟩
  · rw [hl, hm]
    rfl
  · rw [hl, hm]
    exact ⟨⟨rfl, ha⟩, ht'⟩

end

namespace Relates

/-- After a uniform parser, what goes on from the same result has to be related. -/
theorem after [Effectful α] {p : Parser α} [hp : Uniform W p] {f : α → Parser γ} {g : α → Parser δ}
    (hf : ∀ a, Spelled W a → Relates W U (f a) (g a)) : Relates W U (p >>= f) (p >>= g) :=
  hp.relates.bind fun a _ ⟨heq, ha⟩ => heq ▸ hf a ha

theorem ite {c : Prop} [Decidable c] {p p' : Parser α} {q q' : Parser β} (hp : Relates W V p q)
    (hp' : Relates W V p' q') :
    Relates W V (if c then p else p') (if c then q else q') := by
  split
  · exact hp
  · exact hp'

/-- Putting twins back and giving a result. -/
theorem back [Effectful α] {a : α} [h : Spelled W a] (ht : Twins W ls ms) :
    Relates W (Same W) (do MonadState.set ls; Pure.pure a) (do MonadState.set ms; Pure.pure a) :=
  (set ht).bind fun _ _ _ => pure ⟨rfl, h⟩

end Relates

/-! ### Single lexemes -/

instance : Uniform W skip := ⟨Relates.next.bind fun _ _ _ => .pure ⟨rfl, inferInstance⟩⟩

instance {k : String} : Uniform W (atKeyword k) :=
  Uniform.of_head fun h => by cases h <;> rfl

instance {ks : List String} : Uniform W (atAny ks) :=
  Uniform.of_head fun h => by cases h <;> rfl

instance {s : String} : Uniform W (atSymbol s) :=
  Uniform.of_head fun h => by
    cases h with
    | none => rfl
    | some _ htoken => cases htoken <;> rfl

namespace Relates

theorem keyword {k : String} :
    Relates W (fun b c => b = c ∧ (b = true → W k)) (keyword k) (keyword k) := by
  refine get.bind fun ls ms ht => ?_
  cases ht with
  | nil => exact pure ⟨rfl, nofun⟩
  | @cons t u k' a ls ms hword _ _ h =>
    by_cases hk : (k' == k) = true
    · simp only [if_pos hk]
      exact (set h).bind fun _ _ _ => pure ⟨rfl, fun _ => eq_of_beq hk ▸ hword⟩
    · simp only [if_neg hk]
      exact pure ⟨rfl, nofun⟩

/-- One of several words is found in both or in neither, and it is a word that stands in the
    text. -/
theorem keywordOf? {ks : List String} :
    Relates W (fun a b => a = b ∧ ∀ k, a = some k → k ∈ ks ∧ W k) (keywordOf? ks)
      (keywordOf? ks) := by
  refine get.bind fun ls ms ht => ?_
  cases ht with
  | nil => exact pure ⟨rfl, nofun⟩
  | @cons t u k' a ls ms hword _ _ h =>
    by_cases hk : ks.contains k' = true
    · simp only [if_pos hk]
      refine (set h).bind fun _ _ _ => pure ⟨rfl, fun k heq => ?_⟩
      cases heq
      exact ⟨List.contains_iff_mem.mp hk, hword⟩
    · simp only [if_neg hk]
      exact pure ⟨rfl, nofun⟩

theorem keywordOf {ks : List String} :
    Relates W (fun a b => a = b ∧ a ∈ ks ∧ W a) (keywordOf ks) (keywordOf ks) := by
  refine keywordOf?.bind fun a b h => ?_
  obtain ⟨rfl, hword⟩ := h
  cases a with
  | none => exact throw _
  | some k => exact pure ⟨rfl, hword k rfl⟩

end Relates

/-- Twins have the same keywords in front, and what is behind them are twins. -/
theorem Twins.afterKeywords? (h : Twins W ls ms) (ks : List String) :
    (Parser.afterKeywords? ks ls = none ∧ Parser.afterKeywords? ks ms = none) ∨
      ∃ ls' ms', Parser.afterKeywords? ks ls = some ls' ∧ Parser.afterKeywords? ks ms = some ms' ∧
        Twins W ls' ms' := by
  induction ks generalizing ls ms with
  | nil => exact .inr ⟨ls, ms, rfl, rfl, h⟩
  | cons k ks ih =>
    cases h with
    | nil => exact .inl ⟨rfl, rfl⟩
    | @cons t u k' a ls ms _ _ _ h =>
      simp only [Parser.afterKeywords?]
      split
      · exact ih h
      · exact .inl ⟨rfl, rfl⟩

instance {k : String} : Uniform W (keyword k) :=
  ⟨Relates.keyword.mono fun h => ⟨h.1, inferInstance⟩⟩

instance {ks : List String} : Uniform W (keywordOf? ks) :=
  ⟨Relates.keywordOf?.mono fun h => ⟨h.1, inferInstance⟩⟩

instance {ks : List String} : Uniform W (keywordOf ks) :=
  ⟨Relates.keywordOf.mono fun h => ⟨h.1, inferInstance⟩⟩

instance {ks : List String} : Uniform W (keywords ks) := by
  refine ⟨Relates.get.bind fun ls ms ht => ?_⟩
  rcases ht.afterKeywords? ks with ⟨hl, hm⟩ | ⟨ls', ms', hl, hm, ht'⟩
  · rw [hl, hm]
    exact .pure ⟨rfl, inferInstance⟩
  · rw [hl, hm]
    exact (Relates.set ht').bind fun _ _ _ => .pure ⟨rfl, inferInstance⟩

instance {s : String} : Uniform W (symbol s) := by
  refine ⟨Relates.get.bind fun ls ms ht => ?_⟩
  cases ht with
  | nil => exact .pure ⟨rfl, inferInstance⟩
  | @cons t u k a ls ms _ htoken _ h =>
    have hsame : (t == .symbol s) = (u == .symbol s) := by cases htoken <;> rfl
    simp only [hsame]
    split
    · exact (Relates.set h).bind fun _ _ _ => .pure ⟨rfl, inferInstance⟩
    · exact .pure ⟨rfl, inferInstance⟩

instance {k : String} : Uniform W (expectKeyword k) := by
  unfold expectKeyword
  infer_instance

instance {ks : List String} : Uniform W (expectKeywords ks) := by
  unfold expectKeywords
  infer_instance

instance {s : String} : Uniform W (expectSymbol s) := by
  unfold expectSymbol
  infer_instance

/-! ### Combinations -/

section

variable [Effectful α] {p : Parser α}

instance [Uniform W p] (fuel : Nat) : Uniform W (listOf p fuel) := by
  induction fuel with
  | zero => exact inferInstanceAs (Uniform W misfit)
  | succ fuel ih =>
    unfold listOf
    infer_instance

instance [Uniform W p] : Uniform W (commaList p) := Uniform.withFuel

instance {p : Parser (List α)} [Uniform W p] : Uniform W (commaLists p) := Uniform.map

/-- Parentheses around a parser. -/
theorem Uniform.inParens (h : Uniform W p) : Uniform W (parenthesized p) := by
  unfold parenthesized
  infer_instance

instance [h : Uniform W p] : Uniform W (parenthesized p) := h.inParens

instance {k : String} {p : Parser (List α)} [Uniform W p] : Uniform W (clause k p) := by
  unfold clause
  infer_instance

instance {k : String} {p : Parser (List α)} [Uniform W p] : Uniform W (clauseBy k p) := by
  unfold clauseBy
  infer_instance

end

/-! ### Names -/

instance : Uniform W ident :=
  Uniform.of_lexeme Relates.next fun l => by
    split
    · infer_instance
    · infer_instance

instance (fuel : Nat) : Uniform W (dotted fuel) := by
  induction fuel with
  | zero => exact inferInstanceAs (Uniform W misfit)
  | succ fuel ih =>
    unfold dotted
    infer_instance

instance : Uniform W name := Uniform.withFuel

instance {reserved : List String} : Uniform W (aliasUnless reserved) := by
  refine Uniform.andThen inferInstance fun b _ => ?_
  cases b with
  | true => exact inferInstanceAs (Uniform W (do return some (← ident)))
  | false =>
    refine ⟨Relates.get.bind fun ls ms ht => ?_⟩
    cases ht with
    | nil => exact .pure ⟨rfl, inferInstance⟩
    | cons _ htoken _ h =>
      cases htoken with
      -- without `AS` one lexeme decides, and its twin decides alike
      | count => exact .pure ⟨rfl, inferInstance⟩
      | same =>
        dsimp only
        split
        · exact (Relates.set h).bind fun _ _ _ => .pure ⟨rfl, inferInstance⟩
        · exact .pure ⟨rfl, inferInstance⟩

instance : Uniform W identList := inferInstanceAs (Uniform W (parenthesized _))

instance : Uniform W nameList := inferInstanceAs (Uniform W (parenthesized _))

end QueryGate.Sql.Parser
