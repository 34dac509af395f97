import QueryGate.Proofs.Extension.Sources

namespace QueryGate.Sql.Parser

/-!
# Queries keep to their text
-/

set_option synthInstance.maxSize 100000

variable {α β : Type} {κ : Tail} {m N : Nat}

section

variable [κ.Easy]

/-! ### Projection -/

instance : Keeps κ 0 N distinctClause distinctClause := by
  unfold distinctClause
  infer_instance

instance : Keeps κ 0 N topClause topClause := by
  unfold topClause
  dsimp only
  infer_instance

instance : Keeps κ 0 N selectItem selectItem := by
  unfold selectItem
  refine .andThen inferInstance fun t => ?_
  split <;> infer_instance

instance : Keeps κ 0 N projection projection := by
  unfold projection
  infer_instance

instance : Keeps κ 0 N intoClause intoClause := by
  unfold intoClause
  infer_instance

/-! ### Clauses of a selection -/

omit [κ.Easy] in
/-- Keywords in a row are not there where the last one may not stand before a limit. -/
theorem Keeps.of_foreign {k : String} {ks : List String} {f g : Bool → Parser β}
    [AllAbsent κ (k :: ks)] [h : LastAmong (k :: ks) foreignWords] (hκ : κ.ended = true)
    (hno : Keeps κ m N (f false) (g false)) :
    Keeps κ m N (keywords (k :: ks) >>= f) (keywords (k :: ks) >>= g) := by
  refine .of_bind runs_keywords fun {is b js} hi hm hN hj hR => ?_
  cases hR with
  | no => exact ⟨le_rfl, m, N, hm, hN, hno⟩
  | yes hl hopen hfit hlt =>
    obtain ⟨-, hleads, -⟩ := hfit.of_cons hopen
    exact absurd (h.mem _ (eq_of_beq hl)) (hleads hκ).not_foreign

instance (n n' : Above N) : Keeps κ 0 N (lateralViews n) (lateralViews n') := by
  cases hκ : κ.ended with
  | true =>
    -- an alias at the end of a view could be the word of the limit
    exact Keeps.loop (fun n n' M _ => by
      unfold lateralViews
      exact .of_foreign hκ inferInstance) n n'
  | false =>
    have : κ.Unlimited := ⟨hκ⟩
    exact Keeps.loop (fun n n' M _ => by
      unfold lateralViews
      infer_instance) n n'

instance : Keeps κ 0 N tuple tuple := by
  unfold tuple
  infer_instance

instance : Keeps κ 0 N tupleOrExpr tupleOrExpr := by
  unfold tupleOrExpr
  infer_instance

/-- An empty pair of parentheses, or an expression. -/
def groupExpr : Parser (List Query) := do
  match ← get with
  | ⟨.symbol "(", _, _⟩ :: ⟨.symbol ")", _, _⟩ :: rest =>
    set rest
    return []
  | _ => exprQueries

/-- A grouping item that is no empty pair of parentheses is an expression. -/
theorem groupExpr_eq {env : Env} {ls : List Lexeme}
    (h : ∀ l m ms, ls = l :: m :: ms → l.token = .symbol "(" → m.token ≠ .symbol ")") :
    groupExpr env ls = exprQueries env ls := by
  rw [groupExpr, bind_of_ok (a := ls) (r := ls) rfl]
  split
  · exact absurd rfl (h _ _ _ rfl rfl)
  · rfl

instance : Keeps κ 0 N groupExpr groupExpr := by
  have hexpr : Keeps κ 0 N exprQueries exprQueries := inferInstance
  refine ⟨fun env henv zs zs' ht is hi hm hN => ?_⟩
  have hhead {ls : List Lexeme} (h : ∀ l ∈ ls.head?, l.token ≠ .symbol "(") :
      groupExpr env ls = exprQueries env ls :=
    -- without a parenthesis ahead the item is an expression
    groupExpr_eq fun l m ms hls hl => by
      subst hls
      exact absurd hl (h l rfl)
  -- only the empty pair of parentheses is an item of its own
  rcases hi.parens_or_head ht with ⟨a, b, js, ls, hjs, hls, rfl⟩ | ⟨h, h'⟩
  · cases js with
    | nil => exact .ok hls (by simp only [List.nil_append, List.length_cons]; omega)
    | cons m ms =>
      have hm : m.token ≠ .symbol ")" := by
        cases hjs with
        | cons hplain => exact hplain.not_closing
        | parens => simp
      have hne {zs : List Lexeme} :
          groupExpr env (opening a :: (m :: ms ++ closing b :: ls) ++ zs) = exprQueries env _ :=
        groupExpr_eq fun _ _ _ heq _ => by
          obtain ⟨-, htail⟩ := List.cons.inj heq
          exact (List.cons.inj htail).1 ▸ hm
      rw [hne, hne]
      exact hexpr.runs henv ht (.parens hjs hls) (Nat.zero_le _) hN
  · rw [hhead h, hhead h']
    exact hexpr.runs henv ht hi hm hN

instance : Keeps κ 0 N groupItem groupItem := by
  have heq : groupItem = isDialect .postgresql >>= fun b =>
      if b then keywords ["GROUPING", "SETS"] >>= fun b =>
        if b then parenthesized (commaLists tuple)
        else keywordOf? ["CUBE", "ROLLUP"] >>= fun o =>
          if o.isSome then parenthesized (commaLists tupleOrExpr) else groupExpr
      else exprQueries := rfl
  rw [heq]
  infer_instance

instance : Keeps κ 0 N groupItems groupItems := by
  unfold groupItems
  dsimp only
  infer_instance

instance : Keeps κ 0 N namedWindow namedWindow := by
  unfold namedWindow
  infer_instance

instance : Keeps κ 0 N windowsAndQualify windowsAndQualify := by
  unfold windowsAndQualify
  dsimp only
  infer_instance

instance : Keeps κ 0 N selectBody selectBody := by
  unfold selectBody
  infer_instance

/-! ### Bodies -/

instance : Keeps κ 0 N valuesRow valuesRow := by
  unfold valuesRow
  infer_instance

instance : Keeps κ 0 N simpleBody simpleBody := by
  unfold simpleBody
  infer_instance

instance : Keeps κ 0 N setQuantifier setQuantifier := by
  unfold setQuantifier
  infer_instance

section

variable {operators : List String} {operand operand' : Parser Body}

instance [AllAbsent κ operators] [Base κ 0 N operand operand'] (n n' : Above N) (left : Body) :
    Keeps κ 0 N (combinations operators operand n left) (combinations operators operand' n' left) :=
  Keeps.loopWith (fun n n' M _ left => by
    have : Base κ 0 M operand operand' := inferInstance
    unfold combinations
    infer_instance) n n' left

end

instance : Keeps κ 0 N intersections intersections := by
  have (M : Fin (N + 1)) : Base κ 0 M simpleBody simpleBody := ⟨inferInstance⟩
  unfold intersections
  infer_instance

instance : Keeps κ 0 N queryBody queryBody := by
  have (M : Fin (N + 1)) : Base κ 0 M intersections intersections := ⟨inferInstance⟩
  unfold queryBody
  infer_instance

/-! ### Clauses after the body -/

instance : Keeps κ 0 N offsetValue offsetValue := by
  unfold offsetValue
  infer_instance

instance : Keeps κ 0 N fetchClause fetchClause := by
  unfold fetchClause
  dsimp only
  infer_instance

instance : Keeps κ 0 N optionalRowName optionalRowName := by
  unfold optionalRowName
  infer_instance

instance (n n' : Above N) : Keeps κ 0 N (documentOptions n) (documentOptions n') :=
  Keeps.loop (fun n n' M _ => by
    unfold documentOptions
    dsimp only
    refine .of_test runs_symbol (fun _ _ K => ?_) inferInstance
    rw [if_pos rfl, if_pos rfl, keywordOf_bind, keywordOf_bind]
    refine .of_test runs_keywordOf? (fun l _ K => ?_) inferInstance
    dsimp only
    generalize l.keyword = k
    split <;> infer_instance) n n'

instance : Keeps κ 0 N documentClause documentClause := by
  unfold documentClause
  dsimp only
  infer_instance

instance : Keeps κ 0 N lockClause lockClause := by
  unfold lockClause
  dsimp only
  infer_instance

instance (n n' : Above N) : Keeps κ 0 N (forClauses n) (forClauses n') :=
  Keeps.loop (fun n n' M _ => by
    unfold forClauses
    infer_instance) n n'

/-! ### Queries -/

instance : Keeps κ 0 N cteQuery cteQuery := by
  unfold cteQuery
  dsimp only
  infer_instance

instance : Keeps κ 0 N cte cte := by
  unfold cte
  dsimp only
  infer_instance

instance : Keeps κ 0 N withClause withClause := by
  unfold withClause
  infer_instance

end

end QueryGate.Sql.Parser
