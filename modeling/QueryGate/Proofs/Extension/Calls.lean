import QueryGate.Proofs.Extension.Values

namespace QueryGate.Sql.Parser

/-!
# Calls and constructs keep to their text

Calls of functions with all that may follow their arguments, and the constructs that a word
introduces.
-/

set_option synthInstance.maxSize 100000

variable {α β : Type} {κ : Tail} {m N : Nat}

/-! ### Calls -/

instance : Keeps κ 0 N nullTreatment nullTreatment := by
  unfold nullTreatment
  infer_instance

instance : Keeps .inside 0 N argumentOperator argumentOperator := by
  unfold argumentOperator
  infer_instance

/-- The value of a named argument. -/
def argumentValue : Parser Term := do
  argumentOperator
  wildcardTerm

/-- A named argument, or a wildcard in the place of its name, or the expression that was read. -/
theorem argumentByExpr_of_some {env : Env} {ls ms : List Lexeme} {named : Term}
    (h : attempt expr env ls = .ok (some named, ms)) :
    argumentByExpr env ls = attempt argumentValue env ms >>= fun r =>
      match r.1 with
      | some t => .ok (named.queries ++ t.queries, r.2)
      | none => wildcard env ls >>= fun w =>
          if w.1 then .ok ([], w.2) else .ok (named.queries, ms) := by
  rw [argumentByExpr, bind_of_ok (a := ls) (r := ls) rfl, bind_of_ok h]
  show (attempt argumentValue env ms >>= _) = _
  -- without a value behind the name the wildcard is tried from the start
  congr 1
  funext r
  obtain ⟨o, ks⟩ := r
  cases o with
  | some t => rfl
  | none =>
    show (wildcard env ls >>= _) = _
    congr 1
    funext w
    obtain ⟨b, ks⟩ := w
    cases b <;> rfl

instance : Keeps .inside 0 N argumentByExpr argumentByExpr := by
  refine ⟨fun env henv zs zs' ht is hi hm hN => ?_⟩
  have hexpr : Keeps .inside 0 N expr expr := inferInstance
  have hvalue : Keeps .inside 0 N argumentValue argumentValue := by
    unfold argumentValue
    infer_instance
  -- the wildcard either takes something or leaves `is` as it was
  have hwildcard {γ : Type} {f g : Bool × List Lexeme → Except Halt (γ × List Lexeme)}
      {R : γ → List Lexeme → Prop}
      (hyes : ∀ js, Fit false js → js.length < is.length →
        Agree .inside zs zs' R (f (true, js ++ zs)) (g (true, js ++ zs')))
      (hno : Agree .inside zs zs' R (f (false, is ++ zs)) (g (false, is ++ zs'))) :
      Agree .inside zs zs' R (wildcard env (is ++ zs) >>= f) (wildcard env (is ++ zs') >>= g) := by
    refine (runs_wildcard henv ht hi hm hN).bind fun {b js} hj hR => ?_
    cases b with
    | true => exact hyes js hj hR
    | false =>
      obtain rfl : js = is := hR
      exact hno
  rcases (hexpr.runs.attempt henv ht hi hm hN).cases with
    ⟨e, hl, hκ | hm'⟩ | ⟨o, js, hl, hm', hjs, hR⟩
  -- inside parentheses both texts fail with one error
  · cases hκ
  · have herror {ls} (h : attempt expr env ls = .error e) : argumentByExpr env ls = .error e := by
      rw [argumentByExpr, bind_of_ok (a := ls) (r := ls) rfl, bind_of_error h]
    rw [herror hl, herror hm']
    exact .error e
  -- the same three ways in both texts: no term, a term with a value behind, a term alone
  · cases o with
    | none =>
      obtain rfl : js = is := hR
      have hnone {ls} (h : attempt expr env ls = .ok (none, ls)) : argumentByExpr env ls
          = wildcard env ls >>= fun w => if w.1 then .ok ([], w.2) else .error .misfit := by
        rw [argumentByExpr, bind_of_ok (a := ls) (r := ls) rfl, bind_of_ok h]
        show (wildcard env ls >>= _) = _
        congr 1
        funext w
        obtain ⟨b, ks⟩ := w
        cases b <;> rfl
      rw [hnone hl, hnone hm']
      exact hwildcard (fun js hj hlt => .ok hj hlt.le) (.error _)
    | some named =>
      rw [argumentByExpr_of_some hl, argumentByExpr_of_some hm']
      refine (hvalue.runs.attempt henv ht hjs (Nat.zero_le _) (le_trans hR hN)).bind
        fun {o ks} hks hR' => ?_
      cases o with
      | some t => exact .ok hks (le_trans hR' hR)
      | none => exact hwildcard (fun js hj hlt => .ok hj hlt.le) (.ok hjs hR)

instance : Keeps .inside 0 N argument argument := by
  unfold argument
  infer_instance

instance : Keeps .inside 0 N jsonClauses jsonClauses := by
  unfold jsonClauses
  dsimp only
  infer_instance

instance : Keeps .inside 0 N overflowClause overflowClause := by
  unfold overflowClause
  dsimp only
  refine .of_test runs_keywords (fun _ _ M => ?_) inferInstance
  show Keeps _ _ _ (keyword "ERROR" >>= _) (keyword "ERROR" >>= _)
  refine .of_test runs_keyword (fun _ _ _ => inferInstance) ?_
  show Keeps _ _ _ (expectKeyword "TRUNCATE" >>= _) (expectKeyword "TRUNCATE" >>= _)
  refine .andThen inferInstance fun _ => .of_look inferInstance fun b => ?_
  cases b with
  | true => infer_instance
  | false =>
    exact .of_peekToken rfl rfl rfl fun t => by
      split <;> infer_instance

instance : Leaves κ N argumentList argumentList := by
  unfold argumentList
  dsimp only
  infer_instance

/-- What a filter holds, behind its word. -/
def filterCondition : Parser (List Query) := do
  if ← both (symbol "(") (keyword "WHERE") then
    let qs ← exprQueries
    expectSymbol ")"
    return qs
  else return []

/-- MySQL has no `FILTER`. -/
theorem filterClause_eq :
    filterClause = isDialect .mysql >>= fun b =>
      if b then pure [] else keyword "FILTER" >>= fun b =>
        if b then filterCondition else pure [] := by
  rw [filterClause]
  congr 1
  funext b
  cases b with
  | true => rfl
  | false =>
    rw [if_neg Bool.false_ne_true, if_neg Bool.false_ne_true, both, bind_assoc]
    congr 1
    funext b
    cases b <;> rfl

/-- A parenthesis behind `FILTER` holds a condition, and no other one is opened. -/
theorem agree_filterCondition {env : Env} (henv : env.Steady) {zs zs' : List Lexeme}
    (ht : Tails κ zs zs') {l : Lexeme} {ls : List Lexeme} (hl : l.keyword = "FILTER")
    (hopen : l.token ≠ .symbol "(") (hfit : Fit κ.ended (l :: ls)) :
    Agree κ zs zs' (fun _ js => js.length ≤ ls.length) (filterCondition env (ls ++ zs))
      (filterCondition env (ls ++ zs')) := by
  obtain ⟨hplain, -, hls⟩ := hfit.of_cons hopen
  -- without a parenthesis there is no condition, and nothing is read
  have hnone {ls : List Lexeme} (h : ∀ l ∈ ls.head?, l.token ≠ .symbol "(") :
      filterCondition env ls = .ok ([], ls) := by
    rw [filterCondition, both, bind_assoc, bind_of_ok (symbol_of_head h)]
    rfl
  rcases hls.parens_or_head ht with ⟨a, b, js, ls, hjs, hrest, rfl⟩ | ⟨h, h'⟩
  · -- a plain `FILTER` has `WHERE` in its parentheses
    have hwhere := hplain.filter hl a
    cases hjs with
    | nil => exact absurd (hwhere _ _ rfl) (by simp)
    | parens => exact absurd (hwhere _ _ rfl) (by simp)
    | @cons _ w js _ _ hjs =>
      have hw : w.keyword = "WHERE" := hwhere _ _ rfl
      have hstep (zs : List Lexeme) :
          filterCondition env (opening a :: (w :: js ++ closing b :: ls) ++ zs)
            = (exprQueries >>= fun qs => expectSymbol ")" >>= fun _ => pure qs : Parser _) env
              (js ++ closing b :: (ls ++ zs)) := by
        have hread : keyword "WHERE" env (w :: (js ++ closing b :: (ls ++ zs)))
            = .ok (true, js ++ closing b :: (ls ++ zs)) := by
          show (if (w.keyword == "WHERE") = true then _ else _ : Parser Bool) env _ = _
          rw [if_pos (beq_iff_eq.mpr hw)]
          rfl
        have hlist : opening a :: (w :: js ++ closing b :: ls) ++ zs
            = opening a :: w :: (js ++ closing b :: (ls ++ zs)) := by simp
        have hsymbol : symbol "(" env (opening a :: w :: (js ++ closing b :: (ls ++ zs)))
            = .ok (true, w :: (js ++ closing b :: (ls ++ zs))) := rfl
        rw [hlist, filterCondition, both, bind_assoc, bind_of_ok hsymbol, if_pos rfl,
          bind_of_ok hread]
        rfl
      have hleaves : Leaves κ (js.length + 1 + ls.length)
          (exprQueries >>= fun qs => expectSymbol ")" >>= fun _ => pure qs)
          (exprQueries >>= fun qs => expectSymbol ")" >>= fun _ => pure qs) := inferInstance
      rw [hstep, hstep]
      refine (hleaves.runs henv ht hjs hrest b le_rfl).mono fun _ hle => hle.trans ?_
      simp only [List.length_cons, List.length_append]
      omega
  · rw [hnone h, hnone h']
    exact .ok hls le_rfl

instance : Keeps κ 0 N filterClause filterClause := by
  rw [filterClause_eq]
  refine .of_look inferInstance fun b => ?_
  cases b with
  | true => infer_instance
  | false =>
    show Keeps _ _ _ (keyword "FILTER" >>= _) (keyword "FILTER" >>= _)
    refine ⟨fun env henv zs zs' ht is hi hm hN => (runs_keyword henv ht hi hm hN).bind
      fun {b js} hj hR => ?_⟩
    cases hR with
    | no => exact .ok hi le_rfl
    | yes hl hopen hfit hlt =>
      exact (agree_filterCondition henv ht (eq_of_beq hl) hopen hfit).mono
        fun _ hle => hle.trans hlt.le

section

variable {atom atom' : Parser Term}

instance [Base .inside Tail.inside.need N atom atom'] : Keeps κ 0 N (call atom) (call atom') := by
  unfold call
  dsimp only
  infer_instance

end

/-! ### Words that introduce an expression -/

instance (n n' : Above N) : Keeps κ κ.need N (caseBranches n) (caseBranches n') :=
  Keeps.loop (fun n n' M _ => by
    unfold caseBranches
    dsimp only
    infer_instance) n n'

instance : Keeps κ κ.need N caseTerm caseTerm := by
  unfold caseTerm
  dsimp only
  infer_instance

instance : Keeps κ 0 N castTerm castTerm := by
  unfold castTerm
  dsimp only
  infer_instance

instance : Keeps κ 0 N convertTerm convertTerm := by
  unfold convertTerm
  dsimp only
  infer_instance

instance : Keeps κ 0 N existsTerm existsTerm := by
  unfold existsTerm
  infer_instance

instance : Keeps κ 0 N extractTerm extractTerm := by
  unfold extractTerm
  infer_instance

/-- A number. -/
def number? (l : Lexeme) : Option Unit :=
  match l.token with
  | .number _ _ => some ()
  | _ => none

/-- What follows `CEIL (` or `FLOOR (`. -/
def roundArguments : Parser Term := do
  let qs ← exprQueries
  if ← keyword "TO" then
    discard timePart
    return .of qs
  else if ← symbol "," then
    if (← take? number?).isSome then return .of qs else misfit
  else return .of qs

/-- Rounding has its arguments in parentheses. -/
theorem roundTerm_eq : roundTerm = parenthesized roundArguments := by
  rw [roundTerm]
  dsimp only
  -- the third argument is the only part written differently
  refine congrArg parenthesized (bind_congr fun qs => bind_congr fun b => ?_)
  cases b with
  | true => rfl
  | false =>
    refine bind_congr fun b => ?_
    cases b with
    | false => rfl
    | true =>
      funext env ls
      cases ls with
      | nil => rfl
      | cons l ls =>
        obtain ⟨t, k, a⟩ := l
        cases t <;> rfl

instance : Keeps κ 0 N roundTerm roundTerm := by
  have hnumber (M : Nat) : Keeps .inside 0 M (take? number?) (take? number?) :=
    keeps_take? ⟨⟨fun _ => rfl, nofun⟩, fun _ => rfl⟩
  have harguments (M : Nat) : Keeps .inside 0 M roundArguments roundArguments := by
    unfold roundArguments
    infer_instance
  rw [roundTerm_eq]
  infer_instance

instance : Keeps κ 0 N substringTerm substringTerm := by
  unfold substringTerm
  dsimp only
  infer_instance

instance : Keeps κ 0 N overlayTerm overlayTerm := by
  unfold overlayTerm
  infer_instance

instance : Keeps κ 0 N trimTerm trimTerm := by
  unfold trimTerm
  infer_instance

instance : Keeps κ 0 N matchTerm matchTerm := by
  unfold matchTerm
  dsimp only
  infer_instance

instance : Keeps κ κ.need N notTerm notTerm := by
  unfold notTerm
  infer_instance

instance : Keeps κ κ.need N arrayTerm arrayTerm := by
  unfold arrayTerm
  dsimp only
  infer_instance

instance : Keeps κ 0 N timeFunction timeFunction := by
  unfold timeFunction
  infer_instance

section

variable {atom atom' : Parser Term}

instance [κ.Exact] [Base .inside Tail.inside.need N atom atom'] :
    Keeps κ 0 N (positionTerm atom) (positionTerm atom') := by
  unfold positionTerm
  refine .of_look inferInstance fun d => .of_attempt inferInstance ?_ ?_
  · infer_instance
  · infer_instance

/-- A construct keeps to its text.  Behind a word that asks for more there is a lexeme. -/
theorem keeps_construct [κ.Exact] [Base .inside Tail.inside.need N atom atom']
    [Base κ κ.need N atom atom'] (d : Dialect) {k : String} (hm : k ∈ askingWords → m = κ.need)
    (behind : Option Token) :
    Option.Rel (Keeps κ m N) (construct? d atom k behind) (construct? d atom' k behind) := by
  -- a construct needs nothing behind its word, unless the word asks for it
  have hzero {p q : Parser Term} (h : Keeps κ 0 N p q) :
      Option.Rel (Keeps κ m N) (some p) (some q) :=
    .some (h.mono (Nat.zero_le _) le_rfl)
  have hasking {p q : Parser Term} (hk : k ∈ askingWords) (h : Keeps κ κ.need N p q) :
      Option.Rel (Keeps κ m N) (some p) (some q) := by
    rw [hm hk]
    exact .some h
  unfold construct?
  split
  -- one case per word; the asking ones are the ones that need the tail to be read exactly
  all_goals try split
  all_goals first
    | exact .none
    | exact hzero inferInstance
    | exact hasking (by decide) inferInstance
    | (split
       · exact hzero inferInstance
       · exact .none)

/-- What stands behind a word matters only if it is an opening bracket. -/
theorem construct?_behind (d : Dialect) (k : String) {behind : Option Token}
    (hparen : behind ≠ some (.symbol "(")) (hbracket : behind ≠ some (.symbol "[")) :
    construct? d atom k behind = construct? d atom k none := by
  unfold construct?
  simp only [beq_eq_false_iff_ne.mpr hparen, beq_eq_false_iff_ne.mpr hbracket]
  rfl

/-! ### Words -/

/-- A literal that a word introduces. -/
def introduced? (i : Ident) (l : Lexeme) : Option Unit :=
  match l.token with
  | .literal kind _ =>
    if [.single, .double, .hex].contains kind && i.text.startsWith "_" then some () else none
  | _ => none

/-- A name before a parenthesis is a call; one before a literal introduces it; any other is a
    column. -/
theorem wordTerm_eq (atom : Parser Term) (i : Ident) :
    wordTerm atom i = atSymbol "(" >>= fun b => if b then call atom else
      take? (introduced? i) >>= fun o =>
        if o.isSome then pure (.of []) else pure ⟨.identifier i, []⟩ := by
  funext env ls
  cases ls with
  | nil => rfl
  | cons l ls =>
    obtain ⟨t, k, a⟩ := l
    cases t with
    | literal kind text =>
      have hat : atSymbol "(" env (⟨.literal kind text, k, a⟩ :: ls)
          = .ok (false, ⟨.literal kind text, k, a⟩ :: ls) := rfl
      rw [wordTerm, bind_of_ok (a := some (.literal kind text)) rfl, bind_of_ok hat,
        if_neg Bool.false_ne_true]
      dsimp only
      -- only a literal behind an introducer belongs to the name
      by_cases hkind : ([.single, .double, .hex].contains kind && i.text.startsWith "_") = true
      · have htake : introduced? i ⟨.literal kind text, k, a⟩ = some () := if_pos hkind
        rw [if_pos hkind, bind_of_ok (take?_of_some htake)]
        rfl
      · have htake : introduced? i ⟨.literal kind text, k, a⟩ = none := if_neg hkind
        rw [if_neg hkind, bind_of_ok (take?_of_none htake)]
        rfl
    | symbol s =>
      have hat : atSymbol "(" env (⟨.symbol s, k, a⟩ :: ls)
          = .ok (Token.symbol s == .symbol "(", ⟨.symbol s, k, a⟩ :: ls) := rfl
      rw [wordTerm, bind_of_ok (a := some (.symbol s)) rfl, bind_of_ok hat]
      by_cases hs : s = "("
      · subst hs
        rfl
      · rw [if_neg (by simpa using hs)]
        -- a symbol that is no parenthesis stands for no literal either
        generalize ho : some (Token.symbol s) = o
        split
        · exact absurd (Token.symbol.inj (Option.some.inj ho)) hs
        · cases ho
        · rfl
    | _ => rfl

instance {i : Ident} [Base .inside Tail.inside.need N atom atom'] :
    Keeps κ 0 N (wordTerm atom i) (wordTerm atom' i) := by
  have hliteral : Keeps κ 0 N (take? (introduced? i)) (take? (introduced? i)) :=
    keeps_take? ⟨⟨fun _ => rfl, fun _ _ => rfl⟩, fun _ => rfl⟩
  rw [wordTerm_eq, wordTerm_eq]
  infer_instance

end

end QueryGate.Sql.Parser
