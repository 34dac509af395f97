import QueryGate.Proofs.Extension.Queries

namespace QueryGate.Sql.Parser

/-!
# Statements keep to their text

Changes and whole queries in parentheses, and the environment that nests them.
-/

set_option synthInstance.maxSize 100000

variable {α β : Type} {κ : Tail} {m N : Nat}

section

variable [κ.Easy]

/-! ### Around a body -/

/-- The common table expressions before a query, and whether they are recursive. -/
def queryStart : Parser (Bool × List Cte) := do
  if ← keyword "WITH" then withClause else pure (false, [])

/-- What follows the limit of a query. -/
def queryEnd (start : Bool × List Cte) (body : Body) (reads : List Query) : Parser Query := do
  if ← keyword "FETCH" then fetchClause
  let locks ← withFuel forClauses
  return .mk start.1 start.2 body reads locks

instance : Keeps κ 0 N queryStart queryStart := by
  unfold queryStart
  infer_instance

instance {start : Bool × List Cte} {body : Body} {reads : List Query} :
    Keeps κ 0 N (queryEnd start body reads) (queryEnd start body reads) := by
  unfold queryEnd
  dsimp only
  infer_instance

end

section

variable [κ.Unlimited]

/-! ### Changes -/

instance : Keeps κ 0 N limitClause limitClause := by
  unfold limitClause
  infer_instance

/-- The change that a verb stands for. -/
def verbChange? (o : Option String) : Parser (Option Change) :=
  match o with
  | some "INSERT" => return some .insert
  | some "UPDATE" => return some .update
  | some "DELETE" => return some .delete
  | some "MERGE" => return some .merge
  | _ => return none

instance {o : Option String} : Looks κ m N (verbChange? o) (verbChange? o) := by
  unfold verbChange?
  split <;> infer_instance

instance : Keeps κ 0 N changeVerb? changeVerb? := by
  have heq : changeVerb? = keywordOf? ["INSERT", "UPDATE", "DELETE", "MERGE"] >>= verbChange? := rfl
  rw [heq]
  infer_instance

instance : Keeps κ 0 N returningClause returningClause := by
  unfold returningClause
  infer_instance

instance : Keeps κ 0 N insertBody insertBody := by
  unfold insertBody
  dsimp only
  infer_instance

instance : Keeps κ 0 N assignment assignment := by
  unfold assignment
  infer_instance

instance : Keeps κ 0 N updateBody updateBody := by
  unfold updateBody
  infer_instance

instance : Keeps κ 0 N deleteBody deleteBody := by
  unfold deleteBody
  infer_instance

instance : Keeps κ 0 N mergeAction mergeAction := by
  unfold mergeAction
  rw [keywordOf_bind]
  refine .of_test runs_keywordOf? (fun l _ K => ?_) inferInstance
  dsimp only
  generalize l.keyword = k
  split <;> infer_instance

instance (n n' : Above N) : Keeps κ 0 N (mergeBranches n) (mergeBranches n') :=
  Keeps.loop (fun n n' M _ => by
    unfold mergeBranches
    dsimp only
    infer_instance) n n'

instance : Keeps κ 0 N mergeBody mergeBody := by
  unfold mergeBody
  infer_instance

instance {c : Change} : Keeps κ 0 N (changeReads c) (changeReads c) := by
  cases c <;> (unfold changeReads; infer_instance)

/-! ### Queries -/

/-- A change in the place of a query. -/
def changeQuery (start : Bool × List Cte) (kind : Change) : Parser Query := do
  return .mk start.1 start.2 (.change kind (← changeReads kind)) [] []

/-- A query that is no change. -/
def bodyQuery (start : Bool × List Cte) : Parser Query := do
  let body ← queryBody
  let order ← clauseBy "ORDER" (commaLists orderItem)
  let limit ← limitClause
  queryEnd start body (order ++ limit)

/-- A query in two steps: its start, and then a change or a body with what follows it. -/
theorem queryHere_eq : queryHere = queryStart >>= fun start => changeVerb? >>= fun o => match o with
    | some kind => changeQuery start kind
    | none => bodyQuery start := by
  rw [queryHere, queryStart, bind_assoc]
  refine bind_congr fun b => ?_
  cases b <;> rfl

instance {start : Bool × List Cte} {kind : Change} :
    Keeps κ 0 N (changeQuery start kind) (changeQuery start kind) := by
  unfold changeQuery
  infer_instance

instance {start : Bool × List Cte} : Keeps κ 0 N (bodyQuery start) (bodyQuery start) := by
  unfold bodyQuery
  infer_instance

instance : Keeps κ 0 N queryHere queryHere := by
  rw [queryHere_eq]
  refine .andThen inferInstance fun start => .andThen inferInstance fun o => ?_
  cases o <;> infer_instance

end

/-! ### What is nested -/

/-- At every level the nested parsers have equal answers for tails that agree: induction on the
    levels. -/
theorem steady_env (d : Dialect) (n : Nat) : (env d n).Steady := by
  induction n with
  | zero =>
    exact ⟨fun _ _ => .error _, fun _ _ _ _ _ _ _ _ _ => .error _, fun _ => ⟨.tooDeep, rfl⟩⟩
  | succ n ih =>
    refine ⟨fun {κ _ _ _ is} ht hi => ?_, fun power {κ _ _ _ is} ht hi hneed => ?_, fun power => ?_⟩
    · have hquery : Keeps κ 0 is.length queryHere queryHere := inferInstance
      exact hquery.runs ih ht hi (Nat.zero_le _) le_rfl
    · have hterm : Keeps κ κ.need is.length (termBody power) (termBody power) := inferInstance
      exact hterm.runs ih ht hi hneed le_rfl
    · exact ⟨.misfit, termBody_nil power _⟩

end QueryGate.Sql.Parser
