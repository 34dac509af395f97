import QueryGate.Proofs.Extension.Calls

namespace QueryGate.Sql.Parser

/-!
# Operands keep to their text

An operand begins with a word, with a symbol or with a value; periods and subscripts follow it.
-/

set_option synthInstance.maxSize 100000

variable {α β : Type} {κ : Tail} {m N : Nat}

/-! ### Operands -/

section

variable {atom atom' : Parser Term}

instance : Leaves κ N groupTerm groupTerm := by
  unfold groupTerm
  dsimp only
  infer_instance

instance [κ.Exact] [Base .inside Tail.inside.need N atom atom'] :
    Keeps κ κ.need N (bracedTerm atom) (bracedTerm atom') := by
  unfold bracedTerm
  refine .of_attempt inferInstance ?_ ?_
  · infer_instance
  · refine Eats.keeps (.of_next rfl (fun _ => rfl) (fun _ => rfl) (fun _ => rfl) (fun _ => rfl)
      fun l M => ?_)
    dsimp only [Option.bind_some]
    split <;> infer_instance

/-- An operand that starts with a word, behind it. -/
def wordOperand (d : Dialect) (atom : Parser Term) (k : String) (i : Ident) (behind : Option Token) :
    Parser Term :=
  match construct? d atom k behind with
  | none => wordTerm atom i
  | some construct =>
    if (reservedForIdent d).contains k then construct else orElseInstead construct (wordTerm atom i)

/-- An operand that begins with a word. -/
theorem plainOperand_word (atom : Parser Term) {env : Env} {text k : String} {quote : Option Char}
    {a : Bool} {ls : List Lexeme} :
    plainOperand atom env (⟨.word text quote, k, a⟩ :: ls)
      = wordOperand env.dialect atom k ⟨text, quote⟩ (ls.head?.map (·.token)) env ls := rfl

/-- An operand that starts with a symbol: what an operator stands before, or else a value. -/
theorem plainOperand_symbol (atom : Parser Term) {env : Env} {s : String} {k : String} {a : Bool}
    {ls : List Lexeme} :
    plainOperand atom env (⟨.symbol s, k, a⟩ :: ls) =
      if s = "[" then arrayTerm env ls
      else if s = "(" then groupTerm env ls
      else if s = "\x7b" then bracedTerm atom env ls
      else match unaryPower? env.dialect s with
        | some power => ((fun t => Term.of t.queries) <$> termAbove power : Parser Term) env ls
        | none => valueTerm env (⟨.symbol s, k, a⟩ :: ls) := by
  show (if (s == "[") = true then arrayTerm else if (s == "(") = true then groupTerm
    else if (s == "\x7b") = true then bracedTerm atom else match unaryPower? env.dialect s with
      | some power => (fun t => Term.of t.queries) <$> termAbove power
      | none => set (Lexeme.mk (.symbol s) k a :: ls) >>= fun _ => valueTerm : Parser Term) env ls = _
  simp only [beq_iff_eq]
  split
  · rfl
  split
  · rfl
  split
  · rfl
  cases unaryPower? env.dialect s <;> rfl

/-- No operator before an operand closes anything. -/
theorem unaryPower?_of_closing {d : Dialect} {s : String} (hs : s ∈ [")", "]", "\x7d"]) :
    unaryPower? d s = none := by
  have hall : ∀ d : Dialect, ∀ s ∈ [")", "]", "\x7d"], unaryPower? d s = none := by
    intro d
    cases d <;> decide
  exact hall d s hs

/-- A sign before an operand asks for the operand. -/
theorem unaryPower?_asks {d : Dialect} {s : String} {power : Nat} (h : unaryPower? d s = some power)
    (k : String) (a : Bool) : Lexeme.asks ⟨.symbol s, k, a⟩ = true := by
  by_contra hasks
  have hs : s ∈ [")", "]", "\x7d"] := by
    simp only [Lexeme.asks, Bool.or_eq_true, not_or, Bool.not_eq_true, Bool.not_eq_false'] at hasks
    exact List.contains_iff_mem.mp hasks.2
  rw [unaryPower?_of_closing hs] at h
  cases h

/-- No operand starts with a closing parenthesis. -/
theorem plainOperand_closing (atom : Parser Term) {env : Env} {a : Bool} {ls : List Lexeme} :
    plainOperand atom env (closing a :: ls) = .error .misfit := by
  rw [closing, plainOperand_symbol, if_neg (by decide), if_neg (by decide), if_neg (by decide),
    unaryPower?_of_closing (by decide)]
  rfl

section

variable {env : Env} {zs zs' ls : List Lexeme} {k : String} {a : Bool}

/-- An operand that begins with a word needs as much behind it as the word asks for. -/
theorem keeps_wordOperand [κ.Exact] [Base .inside Tail.inside.need N atom atom']
    [Base κ κ.need N atom atom'] (d : Dialect) (l : Lexeme) (i : Ident) (behind : Option Token) :
    Keeps κ (κ.behind l) N (wordOperand d atom l.keyword i behind)
      (wordOperand d atom' l.keyword i behind) := by
  have hconstruct : Option.Rel (Keeps κ (κ.behind l) N) (construct? d atom l.keyword behind)
      (construct? d atom' l.keyword behind) :=
    keeps_construct d (fun hk => if_pos (Lexeme.asks_of_keyword hk)) behind
  unfold wordOperand
  generalize construct? d atom l.keyword behind = o at hconstruct ⊢
  generalize construct? d atom' l.keyword behind = o' at hconstruct ⊢
  cases hconstruct with
  | none => infer_instance
  | some h =>
    dsimp only
    infer_instance

/-- The end of the lexemes and what stands behind it look the same to a word. -/
theorem construct?_append (ht : Tails κ zs zs') (d : Dialect) (k : String) (atom : Parser Term)
    (ls : List Lexeme) {zs₀ : List Lexeme} (hzs : ∀ l ∈ zs₀.head?, l ∈ zs.head? ∨ l ∈ zs'.head?) :
    construct? d atom k ((ls ++ zs₀).head?.map (·.token))
      = construct? d atom k (ls.head?.map (·.token)) := by
  cases ls with
  | cons => rfl
  | nil =>
    refine construct?_behind _ _ ?_ ?_
    all_goals
      rw [List.nil_append, ne_eq, Option.map_eq_some_iff]
      rintro ⟨l, hl, heq⟩
      rcases ht.head? (hzs l hl) with ⟨a, rfl⟩ | ⟨-, a, rfl⟩ <;> simp at heq

/-- The case of a word, with its lexeme put back. -/
theorem agree_plainOperand_word [κ.Exact] [Base .inside Tail.inside.need ls.length atom atom']
    [Base κ κ.need ls.length atom atom'] (henv : env.Steady) (ht : Tails κ zs zs') {text : String}
    {quote : Option Char} (hfit : Fit κ.ended (⟨.word text quote, k, a⟩ :: ls)) :
    Agree κ zs zs' (fun _ js => js.length ≤ ls.length)
      (plainOperand atom env (⟨.word text quote, k, a⟩ :: (ls ++ zs)))
      (plainOperand atom' env (⟨.word text quote, k, a⟩ :: (ls ++ zs'))) := by
  obtain ⟨hplain, -, hls⟩ := hfit.of_cons nofun
  have hword : Keeps κ (κ.behind ⟨.word text quote, k, a⟩) ls.length
      (wordOperand env.dialect atom k ⟨text, quote⟩ (ls.head?.map (·.token)))
      (wordOperand env.dialect atom' k ⟨text, quote⟩ (ls.head?.map (·.token))) :=
    keeps_wordOperand env.dialect ⟨.word text quote, k, a⟩ _ _
  rw [plainOperand_word, plainOperand_word, wordOperand, wordOperand,
    construct?_append ht _ _ atom ls fun l hl => .inl hl,
    construct?_append ht _ _ atom' ls fun l hl => .inr hl]
  exact hword.runs henv ht hls (Tail.behind_le nofun hfit) le_rfl

/-- The case of a symbol that opens no parenthesis. -/
theorem agree_plainOperand_symbol [κ.Exact] [Base .inside Tail.inside.need ls.length atom atom']
    [Base κ κ.need ls.length atom atom'] (henv : env.Steady) (ht : Tails κ zs zs') {s : String}
    (hs : s ≠ "(") (hfit : Fit κ.ended (⟨.symbol s, k, a⟩ :: ls)) :
    Agree κ zs zs' (fun _ js => js.length ≤ ls.length + 1)
      (plainOperand atom env (⟨.symbol s, k, a⟩ :: (ls ++ zs)))
      (plainOperand atom' env (⟨.symbol s, k, a⟩ :: (ls ++ zs'))) := by
  have hopen : (Lexeme.mk (.symbol s) k a).token ≠ .symbol "(" := fun h => hs (Token.symbol.inj h)
  obtain ⟨-, -, hls⟩ := hfit.of_cons hopen
  -- a symbol that asks for an operand has it inside, by `Fit`
  have hasking {p q : Parser Term} (hasks : Lexeme.asks ⟨.symbol s, k, a⟩ = true)
      (h : Keeps κ κ.need ls.length p q) : Agree κ zs zs' (fun _ js => js.length ≤ ls.length + 1)
        (p env (ls ++ zs)) (q env (ls ++ zs')) :=
    (h.runs henv ht hls (Tested.need_le hopen hfit hasks) le_rfl).mono
      fun _ hle => hle.trans (Nat.le_succ _)
  rw [plainOperand_symbol, plainOperand_symbol]
  split
  · next hs => exact hasking (by simp [hs, Lexeme.asks]) inferInstance
  split
  · next hs => exact hasking (by simp [hs, Lexeme.asks]) inferInstance
  split
  · next hpower => exact hasking (unaryPower?_asks hpower k a) inferInstance
  -- any other symbol begins a value, which is read as a whole
  · have hvalue : Keeps κ 0 (ls.length + 1) valueTerm valueTerm := inferInstance
    exact hvalue.runs henv ht hfit (Nat.zero_le _) le_rfl

end

instance [κ.Exact] [∀ M : Fin N, Base .inside Tail.inside.need M atom atom']
    [∀ M : Fin N, Base κ κ.need M atom atom'] :
    Keeps κ κ.need N (plainOperand atom) (plainOperand atom') := by
  refine ⟨fun env henv zs zs' ht is hi hm hN => ?_⟩
  cases hi with
  | nil =>
    -- no operand begins with a closing parenthesis
    cases ht with
    | inside =>
      rw [List.nil_append, List.nil_append, plainOperand_closing, plainOperand_closing]
      exact .error _
    | closed =>
      rw [List.nil_append, List.nil_append, plainOperand_closing]
      exact .error _
    -- where a limit may follow an operand has to be inside
    | limited => cases hm
    | lenient => exact .of_lenient rfl _
  | @parens _ a b js ls hjs hls =>
    -- a group is read up to its own closing parenthesis
    have hgroup : Leaves κ (js.length + 1 + ls.length) groupTerm groupTerm := inferInstance
    have hlist (zs : List Lexeme) : opening a :: (js ++ closing b :: ls) ++ zs
        = opening a :: (js ++ closing b :: (ls ++ zs)) := by simp
    rw [hlist, hlist]
    refine (hgroup.runs henv ht hjs hls b le_rfl).mono fun _ hle => hle.trans ?_
    simp only [List.length_cons, List.length_append]
    omega
  | @cons _ l ls hplain hleads hls =>
    have hfit : Fit κ.ended (l :: ls) := .cons hplain hleads hls
    -- what is behind the first lexeme is shorter, so the nested parsers may be used on it
    have hlen : ls.length < N := hN
    have : Base .inside Tail.inside.need ls.length atom atom' :=
      inferInstanceAs (Base _ _ (⟨ls.length, hlen⟩ : Fin N) _ _)
    have : Base κ κ.need ls.length atom atom' :=
      inferInstanceAs (Base _ _ (⟨ls.length, hlen⟩ : Fin N) _ _)
    have hvalue : Keeps κ 0 N valueTerm valueTerm := inferInstance
    obtain ⟨t, k, a⟩ := l
    cases t with
    | word text quote =>
      exact (agree_plainOperand_word henv ht hfit).mono fun _ hle => hle.trans (Nat.le_succ _)
    | symbol s =>
      exact agree_plainOperand_symbol henv ht (fun hs => hplain.not_opening (hs ▸ rfl)) hfit
    | number text long => exact hvalue.runs henv ht hfit (Nat.zero_le _) hN
    | literal kind text => exact hvalue.runs henv ht hfit (Nat.zero_le _) hN
    | placeholder text => exact hvalue.runs henv ht hfit (Nat.zero_le _) hN
    | customOperator text => exact .error _
    | blank content => exact .error _

/-- What a type leaves is enough for the literal behind it. -/
instance [κ.Exact] [∀ M : Fin N, Base κ κ.need M atom atom'] :
    Keeps κ κ.need N (typedLiteral atom) (typedLiteral atom') := by
  unfold typedLiteral
  refine .of_bind runs_dataType fun {is kind js} _ _ hN _ ⟨hlt, hneed⟩ => ?_
  have hlen : js.length < N := hlt.trans_le hN
  have : Base κ κ.need js.length atom atom' :=
    inferInstanceAs (Base _ _ (⟨js.length, hlen⟩ : Fin N) _ _)
  refine ⟨hlt.le, ?_⟩
  cases kind with
  | interval => exact ⟨κ.need, js.length, hneed (.inl rfl), le_rfl, inferInstance⟩
  | binary => exact ⟨κ.need, js.length, hneed (.inr rfl), le_rfl, inferInstance⟩
  | custom => exact ⟨0, js.length, Nat.zero_le _, le_rfl, inferInstance⟩
  | builtin => exact ⟨0, js.length, Nat.zero_le _, le_rfl, inferInstance⟩

end

/-- Inside parentheses an operand is read up to the closing one, so both tails are far away. -/
theorem keeps_operandInside (n n' : Above N) :
    Keeps .inside Tail.inside.need N (operandWithin n) (operandWithin n') :=
  Keeps.loop (fun n n' M _ => by
    unfold operandWithin
    infer_instance) n n'

/-- What is inside parentheses in an operand ends there, whatever the operand ends at. -/
instance [κ.Exact] (n n' : Above N) : Keeps κ κ.need N (operandWithin n) (operandWithin n') := by
  refine ⟨.loop (fun n n' M hn hn' ih => ?_) n n'⟩
  have (K : Fin M) : Base κ κ.need K (operandWithin n) (operandWithin n') := ⟨⟨ih K⟩⟩
  have (K : Fin M) : Base .inside Tail.inside.need K (operandWithin n) (operandWithin n') :=
    ⟨keeps_operandInside ⟨n, K.isLt.trans_le hn⟩ ⟨n', K.isLt.trans_le hn'⟩⟩
  have hround : Keeps κ κ.need M (operandWithin (n + 1)) (operandWithin (n' + 1)) := by
    unfold operandWithin
    infer_instance
  exact hround.runs

instance [κ.Exact] : Keeps κ κ.need N operand operand := by
  unfold operand
  infer_instance

/-! ### Periods and subscripts -/

instance : Keeps κ κ.need N subscript subscript := by
  unfold subscript
  dsimp only
  infer_instance

/-- A name in the place of a field. -/
def fieldName? (l : Lexeme) : Option Ident :=
  match l.token with
  | .literal .single text => some ⟨text, some '\x27'⟩
  | .placeholder text => some ⟨text, none⟩
  | _ => none

/-- An expression in the place of a field. -/
def fieldTerm : Parser Term := do
  let t ← termAbove (Tier.period.power (← dialect))
  ensure (t.shape != .other && t.shape != .wildcard)
  return t

/-- Behind a period: a field, a call, or any other name. -/
theorem afterPeriod_eq :
    afterPeriod = take? fieldName? >>= fun o => match o with
      | some i => pure ⟨.identifier i, []⟩
      | none => attempt fieldTerm >>= fun part => match part with
        | some t => pure t
        | none => (fun i => ⟨.identifier i, []⟩) <$> ident := by
  funext env ls
  cases ls with
  | nil => rfl
  | cons l ls =>
    obtain ⟨t, k, a⟩ := l
    cases t with
    | literal kind text => cases kind <;> rfl
    | _ => rfl

instance [κ.Exact] : Keeps κ κ.need N afterPeriod afterPeriod := by
  have hfield : Keeps κ κ.need N fieldTerm fieldTerm := by
    unfold fieldTerm
    infer_instance
  rw [afterPeriod_eq]
  refine .of_take? ⟨⟨fun _ => rfl, fun _ _ => rfl⟩, fun _ => rfl⟩ (fun _ _ => inferInstance) ?_
  exact .of_attempt hfield (fun _ => inferInstance) inferInstance

section

variable {env : Env} {ls : List Lexeme} {n : Nat} {t : Term}

/-- Behind an expression no field and no element is taken, unless a period or a bracket comes
    next. -/
theorem access_of_head (h : ∀ l ∈ ls.head?, l.token ≠ .symbol "." ∧ l.token ≠ .symbol "[") :
    access (n + 1) t env ls = .ok (t, ls) := by
  have hperiod : symbol "." env ls = .ok (false, ls) := symbol_of_head fun l hl => (h l hl).1
  have hbracket : symbol "[" env ls = .ok (false, ls) := symbol_of_head fun l hl => (h l hl).2
  rw [access, bind_of_ok (a := ls) (r := ls) rfl, bind_of_ok hperiod, if_neg Bool.false_ne_true,
    bind_of_ok hbracket, if_neg Bool.false_ne_true]
  rfl

/-- An element, behind its bracket. -/
theorem access_bracket {k : String} {a : Bool} :
    access (n + 1) t env (⟨.symbol "[", k, a⟩ :: ls)
      = (subscript >>= fun qs => access n ⟨.access, t.queries ++ qs⟩ : Parser Term) env ls := rfl

/-- A field, behind its period. -/
theorem access_period {k : String} {a : Bool} (hstar : ∀ l ∈ ls.head?, l.token ≠ .symbol "*") :
    access (n + 1) t env (⟨.symbol ".", k, a⟩ :: ls)
      = (afterPeriod >>= fun part =>
          access n ⟨t.shape.join part.shape, t.queries ++ part.queries⟩ : Parser Term) env ls := by
  have hat : atSymbol "*" env ls = .ok (false, ls) := by
    cases ls with
    | nil => rfl
    | cons l ls =>
      have hl : (l.token == .symbol "*") = false := beq_false_of_ne (hstar l rfl)
      show (Except.ok (l.token == .symbol "*", l :: ls) : Except Halt (Bool × List Lexeme)) = _
      rw [hl]
  rw [access, bind_of_ok (a := ⟨.symbol ".", k, a⟩ :: ls) (r := ⟨.symbol ".", k, a⟩ :: ls) rfl,
    bind_of_ok (a := true) (r := ls) rfl, if_pos rfl, bind_of_ok hat, if_neg Bool.false_ne_true]

/-- All fields: a wildcard in one dialect, and no part of the expression in the others. -/
theorem access_star {k k' : String} {a a' : Bool} :
    access (n + 1) t env (⟨.symbol ".", k, a⟩ :: ⟨.symbol "*", k', a'⟩ :: ls)
      = if env.dialect = .postgresql then
          (ensure t.shape.isName >>= fun _ => pure ⟨.wildcard, t.queries⟩ : Parser Term) env ls
        else .ok (t, ⟨.symbol ".", k, a⟩ :: ⟨.symbol "*", k', a'⟩ :: ls) := by
  have hdialect : isDialect .postgresql env (⟨.symbol "*", k', a'⟩ :: ls)
      = .ok (env.dialect == .postgresql, ⟨.symbol "*", k', a'⟩ :: ls) := rfl
  rw [access, bind_of_ok rfl, bind_of_ok (a := true) rfl, if_pos rfl, bind_of_ok (a := true) rfl,
    if_pos rfl, bind_of_ok hdialect]
  simp only [beq_iff_eq]
  split
  · rfl
  · rfl

end

/-- What a period stands before: a field, or a star, behind which nothing else is taken. -/
theorem agree_access_period [κ.Exact] {env : Env} (henv : env.Steady) {zs zs' ls : List Lexeme}
    (ht : Tails κ zs zs') {k : String} {a : Bool} (hfit : Fit κ.ended (⟨.symbol ".", k, a⟩ :: ls))
    {n n' : Nat} [∀ t, Base κ 0 ls.length (access n t) (access n' t)] (t : Term) :
    Agree κ zs zs' (fun _ js => js.length ≤ ls.length + 1)
      (access (n + 1) t env (⟨.symbol ".", k, a⟩ :: ls ++ zs))
      (access (n' + 1) t env (⟨.symbol ".", k, a⟩ :: ls ++ zs')) := by
  obtain ⟨-, -, hls⟩ := hfit.of_cons (by simp)
  rw [List.cons_append, List.cons_append]
  by_cases hstar : ∀ m ∈ ls.head?, m.token ≠ .symbol "*"
  · obtain ⟨hhead, hhead'⟩ := ht.head_append (fun _ => by simp) (fun _ => by simp) hstar
    rw [access_period hhead, access_period hhead']
    have hfield : Keeps κ κ.need ls.length
        (afterPeriod >>= fun part =>
          access n ⟨t.shape.join part.shape, t.queries ++ part.queries⟩)
        (afterPeriod >>= fun part =>
          access n' ⟨t.shape.join part.shape, t.queries ++ part.queries⟩) := inferInstance
    refine (hfield.runs henv ht hls (Tested.need_le (by simp) hfit (by simp [Lexeme.asks]))
      le_rfl).mono fun _ hle => hle.trans (Nat.le_succ _)
  · -- a star behind the period
    cases ls with
    | nil => exact absurd (by simp) hstar
    | cons m ms =>
      have hm : m.token = .symbol "*" := by
        by_contra hne
        exact hstar fun _ h => by cases h; exact hne
      obtain ⟨_, k', a'⟩ := m
      subst hm
      obtain ⟨-, -, hms⟩ := hls.of_cons (by simp)
      have hname : Keeps κ 0 ms.length
          (ensure t.shape.isName >>= fun _ => pure (Term.mk .wildcard t.queries))
          (ensure t.shape.isName >>= fun _ => pure (Term.mk .wildcard t.queries)) :=
        inferInstance
      rw [List.cons_append, List.cons_append, access_star, access_star]
      split
      · refine (hname.runs henv ht hms (Nat.zero_le _) le_rfl).mono fun _ hle => ?_
        exact hle.trans (Nat.le_add_right _ 2)
      · exact .ok hfit le_rfl

instance [κ.Exact] (n n' : Above N) (t : Term) : Keeps κ 0 N (access n t) (access n' t) := by
  refine Keeps.loopWith (fun n n' M _ t => ?_) n n' t
  refine ⟨fun env henv zs zs' ht is hi hm hN => ?_⟩
  by_cases hnext : ∀ l ∈ is.head?, l.token ≠ .symbol "." ∧ l.token ≠ .symbol "["
  · obtain ⟨h, h'⟩ := ht.head_append (fun _ => by simp) (fun _ => by simp) hnext
    rw [access_of_head h, access_of_head h']
    exact .ok hi le_rfl
  -- a period or a bracket comes next
  obtain ⟨⟨token, k, a⟩, ls, rfl, hl⟩ : ∃ l ls, is = l :: ls ∧
      (l.token = .symbol "." ∨ l.token = .symbol "[") := by
    cases is with
    | nil => exact absurd (by simp) hnext
    | cons l ls =>
      refine ⟨l, ls, rfl, ?_⟩
      by_contra hne
      exact hnext fun m hm => by cases hm; exact not_or.mp hne
  have hlen : ls.length < M := hN
  have (t : Term) : Base κ 0 ls.length (access n t) (access n' t) :=
    inferInstanceAs (Base κ 0 (⟨ls.length, hlen⟩ : Fin M) _ _)
  rcases hl with rfl | rfl
  · exact agree_access_period henv ht hi t
  · obtain ⟨-, -, hls⟩ := hi.of_cons (by simp)
    have hsubscript : Keeps κ κ.need ls.length
        (subscript >>= fun qs => access n ⟨.access, t.queries ++ qs⟩)
        (subscript >>= fun qs => access n' ⟨.access, t.queries ++ qs⟩) := inferInstance
    rw [List.cons_append, List.cons_append, access_bracket, access_bracket]
    exact (hsubscript.runs henv ht hls (Tested.need_le (by simp) hi (by simp [Lexeme.asks]))
      le_rfl).mono fun _ hle => hle.trans (Nat.le_succ _)

end QueryGate.Sql.Parser
