import QueryGate.Proofs.Extension.Operands

namespace QueryGate.Sql.Parser

/-!
# Expressions keep to their text

The infix operators between operands.  An operator that no tail begins with is the same in front of
any tail, and the loop over the operators ends where the tail begins.
-/

set_option synthInstance.maxSize 100000

variable {α β : Type} {κ : Tail} {m N : Nat}

/-! ### Infix operators -/

/-- What a quantifier stands before: a query in parentheses, or an expression in them. -/
def quantified (power : Nat) (comparison : Bool) : Parser (List Query) := do
  let start ← get
  expectSymbol "("
  let qs ←
    if ← atAny ["SELECT", "WITH"] then
      set start
      Term.queries <$> termAbove power
    else
      let qs ← Term.queries <$> termAbove power
      expectSymbol ")"
      pure qs
  ensure comparison
  return qs

/-- The right side of a comparison may be quantified. -/
theorem rightSide_eq (power : Nat) (comparison : Bool) :
    rightSide power comparison = keywordOf? ["ANY", "ALL", "SOME"] >>= fun o =>
      if o.isSome then quantified power comparison else Term.queries <$> termAbove power := rfl

section

variable {env : Env} {power : Nat} {comparison a b : Bool} {ls : List Lexeme}

/-- A quantifier needs a parenthesis. -/
theorem quantified_of_head (h : ∀ l ∈ ls.head?, l.token ≠ .symbol "(") :
    quantified power comparison env ls = .error .misfit := by
  rw [quantified, bind_of_ok (a := ls) (r := ls) rfl, expectSymbol_bind,
    bind_of_ok (symbol_of_head h)]
  rfl

/-- A query is read with the parentheses around it, and an expression without them. -/
theorem quantified_opening :
    quantified power comparison env (opening a :: ls)
      = if ls.head?.any fun l => ["SELECT", "WITH"].contains l.keyword then
          (termAbove power >>= fun t => ensure comparison >>= fun _ => pure t.queries
            : Parser (List Query)) env (opening a :: ls)
        else (termAbove power >>= fun t => expectSymbol ")" >>= fun _ =>
          ensure comparison >>= fun _ => pure t.queries : Parser (List Query)) env ls := by
  have hat : atAny ["SELECT", "WITH"] env ls
      = .ok (ls.head?.any fun l => ["SELECT", "WITH"].contains l.keyword, ls) := rfl
  have hsymbol : expectSymbol "(" env (opening a :: ls) = .ok ((), ls) := rfl
  rw [quantified, bind_of_ok (a := opening a :: ls) (r := opening a :: ls) rfl,
    bind_of_ok hsymbol, bind_of_ok hat]
  -- with `SELECT` ahead the parenthesis is part of the operand, else it is dropped first
  split
  · simp only [map_eq_pure_bind, bind_assoc, pure_bind]
    rfl
  · simp only [map_eq_pure_bind, bind_assoc, pure_bind]

end

instance {power : Nat} {comparison : Bool} :
    Keeps κ κ.need N (quantified power comparison) (quantified power comparison) := by
  refine ⟨fun env henv zs zs' ht is hi hm hN => ?_⟩
  rcases hi.parens_or_head ht with ⟨a, b, js, ls, hjs, hls, rfl⟩ | ⟨h, h'⟩
  · let whole : Parser (List Query) :=
      termAbove power >>= fun t => ensure comparison >>= fun _ => pure t.queries
    let inside : Parser (List Query) := termAbove power >>= fun t => expectSymbol ")" >>= fun _ =>
      ensure comparison >>= fun _ => pure t.queries
    have hwhole : Keeps κ κ.need N whole whole := inferInstanceAs (Keeps κ κ.need N (_ >>= _) (_ >>= _))
    have hinside : Leaves κ (js.length + 1 + ls.length) inside inside :=
      inferInstanceAs (Leaves κ _ (_ >>= _) (_ >>= _))
    -- which of the two it is shows inside the parentheses, where both texts agree
    have hhead (zs : List Lexeme) : (js ++ closing b :: zs).head?.any
          (fun l => ["SELECT", "WITH"].contains l.keyword)
        = js.head?.any fun l => ["SELECT", "WITH"].contains l.keyword := by
      cases js <;> rfl
    have hlist (zs : List Lexeme) : opening a :: (js ++ closing b :: ls) ++ zs
        = opening a :: (js ++ closing b :: (ls ++ zs)) := by simp
    rw [hlist, hlist, quantified_opening, quantified_opening, hhead, hhead]
    split
    · rw [← hlist, ← hlist]
      exact hwhole.runs henv ht (.parens hjs hls) hm hN
    · refine (hinside.runs henv ht hjs hls b le_rfl).mono fun _ hle => hle.trans ?_
      simp only [List.length_cons, List.length_append]
      omega
  · -- neither text begins with an opening parenthesis
    rw [quantified_of_head h, quantified_of_head h']
    exact .error _

instance {power : Nat} {comparison : Bool} :
    Keeps κ κ.need N (rightSide power comparison) (rightSide power comparison) := by
  rw [rightSide_eq]
  infer_instance

instance : Keeps κ 0 N isOperand isOperand := by
  unfold isOperand
  infer_instance

instance : Keeps κ 0 N inOperand inOperand := by
  unfold inOperand
  infer_instance

instance : Keeps κ κ.need N patternOperand patternOperand := by
  unfold patternOperand
  dsimp only
  infer_instance

instance : Keeps κ κ.need N betweenOperand betweenOperand := by
  unfold betweenOperand
  dsimp only
  infer_instance

/-- The pattern behind a word that matches patterns. -/
def matchedPattern : Parser (List Query) := do
  return (← termAbove (Tier.like.power (← dialect))).queries

/-- The words of a predicate but those that match patterns. -/
def predicateWord : Parser (List Query) := do
  if ← keyword "IN" then inOperand
  else if ← keyword "BETWEEN" then betweenOperand
  else if (← keywordOf? ["LIKE", "ILIKE"]).isSome then patternOperand
  else if ← keywords ["SIMILAR", "TO"] then
    let qs ← Term.queries <$> termAbove (Tier.like.power (← dialect))
    if ← keyword "ESCAPE" then value
    return qs
  else misfit

instance : Keeps κ m N predicateWord predicateWord := by
  unfold predicateWord
  dsimp only
  infer_instance

instance : Eats κ m N predicateWord predicateWord := by
  unfold predicateWord
  dsimp only
  infer_instance

instance : Keeps κ κ.need N matchedPattern matchedPattern := by
  unfold matchedPattern
  infer_instance

section

variable {env : Env} {zs zs' js : List Lexeme}

/-- What follows a word that matches patterns. -/
def behindMatch : Parser (List Query) := keyword "NULL" >>= fun _ => matchedPattern

/-- No `NULL` stands between such a word and its pattern, where a limit may follow. -/
theorem agree_behindMatch (henv : env.Steady) (ht : Tails κ zs zs') (hj : Fit κ.ended js)
    (hneed : κ.need ≤ js.length)
    (hnull : κ.ended = true → ∀ l ∈ js.head?, l.keyword ≠ "NULL") :
    Agree κ zs zs' (fun _ ks => ks.length ≤ js.length) (behindMatch env (js ++ zs))
      (behindMatch env (js ++ zs')) := by
  have hpattern : Keeps κ κ.need js.length matchedPattern matchedPattern := inferInstance
  -- where the limit may follow, a pattern has to be there before it
  cases hended : κ.ended with
  | false =>
    have : κ.Unlimited := ⟨hended⟩
    have hkeeps : Keeps κ 0 js.length behindMatch behindMatch := by
      unfold behindMatch
      infer_instance
    exact hkeeps.runs henv ht hj (Nat.zero_le _) le_rfl
  | true =>
    -- neither `NULL` nor a tail that begins with it stands here
    have hhead {zs₀ : List Lexeme} (hzs : ∀ l ∈ zs₀.head?, l ∈ zs.head? ∨ l ∈ zs'.head?) :
        ∀ l ∈ (js ++ zs₀).head?, l.keyword ≠ "NULL" := by
      cases js with
      | nil => exact fun l hl => ht.keyword_ne (hzs l hl) inferInstance
      | cons => exact hnull hended
    rw [behindMatch, bind_of_ok (keyword_of_head (hhead fun l hl => .inl hl)),
      bind_of_ok (keyword_of_head (hhead fun l hl => .inr hl))]
    exact hpattern.runs henv ht hj hneed le_rfl

/-- What a matching word says of the lexemes behind it. -/
theorem behind_matching {l : Lexeme} (hl : l.keyword = "REGEXP" ∨ l.keyword = "RLIKE")
    (hopen : l.token ≠ .symbol "(") (hfit : Fit κ.ended (l :: js)) :
    κ.need ≤ js.length ∧ (κ.ended = true → ∀ m ∈ js.head?, m.keyword ≠ "NULL") := by
  obtain ⟨-, hleads, -⟩ := hfit.of_cons hopen
  refine ⟨Tested.need_le hopen hfit (Lexeme.asks_of_keyword ?_), fun hended =>
    (hleads hended).pattern hl⟩
  rcases hl with hl | hl <;> rw [hl] <;> decide

end

/-- What follows `NOT`, or nothing, in a predicate. -/
def predicateBehind (negated : Bool) : Parser (List Query) := do
  let regexp ← keyword "REGEXP"
  let rlike ← keyword "RLIKE"
  let null ← keyword "NULL"
  if regexp || rlike then matchedPattern
  else if negated && null then return []
  else predicateWord

/-- A predicate takes at least its first word. -/
theorem eats_predicateBehind (negated : Bool) :
    Eats κ m N (predicateBehind negated) (predicateBehind negated) := by
  refine ⟨fun env henv zs zs' ht is hi hm hN => (runs_keyword henv ht hi hm hN).bind
    fun {b js} hj hR => ?_⟩
  -- `MATCH` may be followed by `RLIKE`, and both by a pattern
  cases hR with
  | yes hl hopen hfit hlt =>
    obtain ⟨hneed, hnull⟩ := behind_matching (.inl (eq_of_beq hl)) hopen hfit
    show Agree κ zs zs' _ ((keyword "RLIKE" >>= fun _ => behindMatch : Parser _) env (js ++ zs))
      ((keyword "RLIKE" >>= fun _ => behindMatch : Parser _) env (js ++ zs'))
    refine (runs_keyword henv ht hj (Nat.zero_le _) le_rfl).bind fun {b ks} hk hR => ?_
    cases hR with
    | no => exact (agree_behindMatch henv ht hj hneed hnull).mono fun _ hle => hle.trans_lt hlt
    | yes hl hopen hfit hlt' =>
      obtain ⟨hneed, hnull⟩ := behind_matching (.inr (eq_of_beq hl)) hopen hfit
      exact (agree_behindMatch henv ht hk hneed hnull).mono
        fun _ hle => hle.trans_lt (hlt'.trans hlt)
  | no =>
    refine (runs_keyword henv ht hi hm hN).bind fun {b js} hj hR => ?_
    cases hR with
    | yes hl hopen hfit hlt =>
      obtain ⟨hneed, hnull⟩ := behind_matching (.inr (eq_of_beq hl)) hopen hfit
      exact (agree_behindMatch henv ht hj hneed hnull).mono fun _ hle => hle.trans_lt hlt
    | no =>
      -- `NOT NULL` stands alone; every other predicate has a word that it takes
      have heats : Eats κ m N
          (keyword "NULL" >>= fun null => if negated && null then pure [] else predicateWord)
          (keyword "NULL" >>= fun null => if negated && null then pure [] else predicateWord) := by
        refine .of_test runs_keyword (fun _ _ M => inferInstance) ?_
        rw [Bool.and_false]
        infer_instance
      exact heats.runs henv ht hi hm hN

instance : Eats κ m N predicate predicate := by
  have heq : predicate = keyword "NOT" >>= predicateBehind := rfl
  have hbehind (K : Nat) (negated : Bool) :
      Keeps κ κ.need K (predicateBehind negated) (predicateBehind negated) :=
    (eats_predicateBehind negated).keeps
  rw [heq]
  refine .of_asking_test runs_keyword ?_ (fun _ _ M => inferInstance) (eats_predicateBehind false)
  exact fun l hl => Lexeme.asks_of_keyword (eq_of_beq hl ▸ by decide)

/-- What follows `::` or `!`. -/
def afterMark (d : Dialect) (t : Token) : Parser (List Query) :=
  match t with
  | .symbol "::" => do
    discard dataType
    return []
  | .symbol "!" => do
    ensure (d == .postgresql)
    return []
  | _ => misfit

/-- What follows an operator that is a word or such a mark. -/
def behindOperator (d : Dialect) (power : Nat) (l : Lexeme) : Parser (List Query) :=
  match l.keyword with
  | "AND" | "OR" | "XOR" | "OVERLAPS" => rightSide power false
  | "OPERATOR" => do
    ensure (d == .postgresql)
    parenthesized (withFuel operatorName)
    rightSide power false
  | "IS" => isOperand
  | "AT" => do
    expectKeywords ["TIME", "ZONE"]
    return (← termAbove power).queries
  | "NOTNULL" => return []
  | "MEMBER" => do
    expectKeyword "OF"
    parenthesized exprQueries
  | _ => afterMark d l.token

/-- The operator that comes next, and what follows it. -/
def operatorHere (d : Dialect) (power : Nat) : Parser (List Query) := fun env ls =>
  match ls with
  | [] => .error .misfit
  | l :: rest =>
    if isBinary d l.token then
      rightSide power (match l.token with
        | .symbol s => comparisonSymbols.contains s
        | _ => false) env rest
    else if ["NOT", "IN", "BETWEEN", "LIKE", "ILIKE", "SIMILAR", "REGEXP", "RLIKE"].contains l.keyword
      then predicate env (l :: rest)
    else behindOperator d power l env rest

/-- The operators of a dialect that are words come before all others. -/
theorem infixOperand_eq (power : Nat) :
    infixOperand power = dialect >>= fun d => keywordOf? (ownOperators d) >>= fun o =>
      if o.isSome then insist exprQueries else operatorHere d power := by
  rw [infixOperand]
  refine bind_congr fun d => bind_congr fun o => ?_
  split
  · rfl
  funext env ls
  cases ls with
  | nil => rfl
  | cons l ls =>
    rw [bind_of_ok (a := l :: ls) (r := l :: ls) rfl, operatorHere]
    dsimp only
    split
    · rfl
    unfold behindOperator
    generalize l.keyword = k
    split
    -- an operator spelled by its name is one of PostgreSQL only
    case h_5 => cases d <;> rfl
    case h_18 =>
      -- the words of the predicates have been excluded case by case
      have hpredicate : ["NOT", "IN", "BETWEEN", "LIKE", "ILIKE", "SIMILAR", "REGEXP", "RLIKE"].contains k
          = false := by
        simp only [List.contains_eq_mem, List.mem_cons, List.not_mem_nil, or_false,
          decide_eq_false_iff_not, not_or]
        and_intros <;> assumption
      rw [hpredicate, if_neg Bool.false_ne_true]
      change afterMark d l.token env ls = _
      split
      all_goals first
        | rfl
        | contradiction
    all_goals rfl

section

variable {env : Env} {d : Dialect} {power : Nat} {ls : List Lexeme}

/-- No operator comes next at a parenthesis or at a limit. -/
theorem operatorHere_of_symbol {s : String} {a : Bool} (hs : s = "(" ∨ s = ")") :
    operatorHere d power env (⟨.symbol s, "", a⟩ :: ls) = .error .misfit := by
  rcases hs with rfl | rfl <;> cases d <;> rfl

/-- An operator that is no word asks for an operand. -/
theorem isBinary_asks {l : Lexeme} (h : isBinary d l.token = true) : l.asks = true := by
  obtain ⟨t, k, a⟩ := l
  cases t with
  | customOperator text => simp [Lexeme.asks]
  | symbol s =>
    by_contra hasks
    have hs : s ∈ [")", "]", "\x7d"] := by
      simp only [Lexeme.asks, Bool.or_eq_true, not_or, Bool.not_eq_true, Bool.not_eq_false'] at hasks
      exact List.contains_iff_mem.mp hasks.2
    have hall : ∀ d : Dialect, ∀ s ∈ [")", "]", "\x7d"], isBinary d (.symbol s) = false := by
      intro d
      cases d <;> decide
    exact absurd h (by simp [hall d s hs])
  | _ => cases h

/-- What follows an operator keeps to its text; no operator is spelled by its name. -/
theorem keeps_behindOperator [κ.Exact] {l : Lexeme} (hl : l.keyword ∉ countingWords) :
    Keeps κ (κ.behind l) N (behindOperator d power l) (behindOperator d power l) := by
  -- an operator that asks for its right side has it inside
  have hasking {p q : Parser (List Query)} (hasks : l.asks = true) (h : Keeps κ κ.need N p q) :
      Keeps κ (κ.behind l) N p q := by
    rwa [Tail.behind, if_pos hasks]
  have hword {p q : Parser (List Query)} {k : String} (heq : l.keyword = k) (hk : k ∈ askingWords)
      (h : Keeps κ κ.need N p q) : Keeps κ (κ.behind l) N p q :=
    hasking (Lexeme.asks_of_keyword (heq ▸ hk)) h
  unfold behindOperator
  split
  -- an operator spelled by its name counts tokens, which `hl` excludes
  case h_5 heq => exact absurd (heq ▸ by decide) hl
  case h_10 =>
    unfold afterMark
    split
    · next heq => exact hasking (by simp [Lexeme.asks, heq]) inferInstance
    · infer_instance
    · infer_instance
  all_goals first
    | infer_instance
    | exact hword ‹_› (by decide) inferInstance

end

/-- An infix operator and its right side take at least the operator. -/
theorem eats_operatorHere [κ.Exact] (d : Dialect) (power : Nat) :
    Eats κ m N (operatorHere d power) (operatorHere d power) := by
  refine ⟨fun env henv zs zs' ht is hi hm hN => ?_⟩
  cases hi with
  | nil =>
    cases ht with
    -- no operator begins with a parenthesis
    | inside =>
      rw [List.nil_append, List.nil_append, closing, operatorHere_of_symbol (.inr rfl),
        operatorHere_of_symbol (.inr rfl)]
      exact .error _
    | closed =>
      rw [List.nil_append, List.nil_append, closing, operatorHere_of_symbol (.inr rfl)]
      exact .error _
    | limited => exact .error _
    | lenient => exact .error _
  | parens =>
    rw [List.cons_append, List.cons_append, opening, operatorHere_of_symbol (.inl rfl),
      operatorHere_of_symbol (.inl rfl)]
    exact .error _
  | @cons _ l ls hplain hleads hls =>
    have hfit : Fit κ.ended (l :: ls) := .cons hplain hleads hls
    have hopen := hplain.not_opening
    have hpredicate : Eats κ m N predicate predicate := inferInstance
    have hright (comparison : Bool) : Keeps κ κ.need ls.length (rightSide power comparison)
        (rightSide power comparison) := inferInstance
    -- the remaining operators are told apart by the lexeme itself
    have hbehind : Keeps κ (κ.behind l) ls.length (behindOperator d power l)
        (behindOperator d power l) := keeps_behindOperator hplain.not_counting
    rw [List.cons_append, List.cons_append, operatorHere, operatorHere]
    dsimp only
    -- a binary symbol, a predicate, or a word with an operand of its own
    split
    · next hbinary =>
      exact ((hright _).runs henv ht hls (Tested.need_le hopen hfit (isBinary_asks hbinary))
        le_rfl).mono fun _ => Nat.lt_succ_of_le
    split
    · exact hpredicate.runs henv ht hfit hm hN
    · exact (hbehind.runs henv ht hls (Tail.behind_le hopen hfit) le_rfl).mono
        fun _ => Nat.lt_succ_of_le

instance [κ.Exact] {power : Nat} : Eats κ m N (infixOperand power) (infixOperand power) := by
  have hown (d : Dialect) : AllAbsent κ (ownOperators d) := by
    cases d <;> unfold ownOperators <;> infer_instance
  have hasks (d : Dialect) : AllAmong (ownOperators d) askingWords := by
    cases d <;> unfold ownOperators <;> infer_instance
  have hhere (d : Dialect) := eats_operatorHere (κ := κ) (m := m) (N := N) d power
  rw [infixOperand_eq]
  infer_instance

section

variable {d : Dialect} {zs : List Lexeme}

/-- What stands behind the lexemes does not tell how tightly an operator binds. -/
theorem symbolPower_behind (s : String) (ls : List Lexeme) (h : Behind zs) :
    symbolPower d s (ls ++ zs) = symbolPower d s ls := by
  cases ls with
  | cons l ls =>
    obtain ⟨t, k, a⟩ := l
    cases t with
    | literal kind text => cases kind <;> rfl
    | _ => rfl
  | nil =>
    cases h with
    | nil => rfl
    | closing => rfl
    | limit => rfl

/-- How strongly a word binds is not changed by a tail, for no tail begins with a word that
    binds. -/
theorem keywordTier?_behind (k : String) (ls : List Lexeme) (h : Behind zs) :
    keywordTier? d k (ls ++ zs) = keywordTier? d k ls := by
  -- `AT` looks two lexemes ahead for `TIME ZONE`, and no tail has them
  by_cases hat : k = "AT"
  · subst hat
    cases ls with
    | nil =>
      cases h with
      | nil => rfl
      | @closing a zs => cases zs <;> rfl
      | limit => rfl
    | cons time ls =>
      cases ls with
      | cons => rfl
      | nil =>
        have hzone (zone : Lexeme) (zs : List Lexeme) (hzone : zone.keyword ≠ "ZONE") :
            keywordTier? d "AT" (time :: zone :: zs) = none :=
          if_neg (by simp [hzone])
        cases h with
        | nil => rfl
        | closing => exact hzone _ _ (by simp)
        | limit => exact hzone _ _ (by simp)
  -- `NOT` looks one lexeme ahead for a predicate, and no tail begins with one
  by_cases hnot : k = "NOT"
  · subst hnot
    cases ls with
    | cons => rfl
    | nil =>
      cases h with
      | nil => rfl
      | closing => rfl
      | limit => rfl
  unfold keywordTier?
  split
  case h_4 => exact absurd rfl hat
  case h_5 => exact absurd rfl hnot
  all_goals rfl

/-- The same for any lexeme that stands where an operator may. -/
theorem infixPower_behind (ls : List Lexeme) (h : Behind zs) :
    infixPower d (ls ++ zs) = infixPower d ls := by
  cases ls with
  | nil =>
    cases h with
    | nil => rfl
    | closing => cases d <;> rfl
    | limit => cases d <;> rfl
  | cons l ls =>
    obtain ⟨t, k, a⟩ := l
    rw [List.cons_append, infixPower, infixPower]
    -- a word binds by itself; a symbol may look at the one behind it
    dsimp only
    rw [keywordTier?_behind k ls h]
    cases t with
    | symbol s => exact symbolPower_behind s ls h
    | _ => rfl

end

instance [κ.Exact] {power : Nat} (n n' : Above N) (t : Term) :
    Keeps κ 0 N (infixes power n t) (infixes power n' t) := by
  refine Keeps.loopWith (fun n n' M _ t => ?_) n n' t
  refine ⟨fun env henv zs zs' ht is hi hm hN => ?_⟩
  -- one round: stop at a weaker operator, or take it with its right side
  have hstep (n : Nat) (ls : List Lexeme) : infixes power (n + 1) t env ls
      = (if infixPower env.dialect ls ≤ power then pure t
        else infixOperand (infixPower env.dialect ls) >>= fun qs =>
          infixes power n (.of (t.queries ++ qs)) : Parser Term) env ls := rfl
  have hoperand (strength : Nat) : Eats κ 0 M (infixOperand strength) (infixOperand strength) :=
    inferInstance
  have hround (strength : Nat) : Keeps κ 0 M
      (infixOperand strength >>= fun qs => infixes power n (.of (t.queries ++ qs)))
      (infixOperand strength >>= fun qs => infixes power n' (.of (t.queries ++ qs))) :=
    Eats.keeps inferInstance
  -- the strength of what is ahead is the same before both tails
  rw [hstep, hstep, infixPower_behind is ht.behind.1, infixPower_behind is ht.behind.2]
  split
  · exact .ok hi le_rfl
  · exact (hround _).runs henv ht hi hm hN

instance [κ.Exact] {power : Nat} : Keeps κ κ.need N (termBody power) (termBody power) := by
  unfold termBody
  infer_instance

/-- No expression is read at the end. -/
theorem termBody_nil (power : Nat) (env : Env) : termBody power env [] = .error .misfit := rfl

end QueryGate.Sql.Parser
