import QueryGate.Proofs.Grammar.Sources

namespace QueryGate.Sql.Parser

/-!
# Queries and changes are uniform

The parsers of queries and of data-changing statements, and the knot: with any number of levels to
spend, what is nested is read the same on twins.

Three parsers build a node with an effect: `changeVerb?`, `lockClause` and `selectBody`, which asks
`intoClause`.  For these it matters that the word was taken.
-/

set_option synthInstance.maxSize 100000

variable {W : String → Prop}

/-! ### Projection -/

instance : Uniform W distinctClause := by
  unfold distinctClause
  infer_instance

instance : Uniform W topClause := by
  unfold topClause
  infer_instance

instance : Uniform W selectItem := by
  refine .andThen inferInstance fun t _ => ?_
  split <;> infer_instance

instance : Uniform W projection := by
  unfold projection
  infer_instance

/-- A target is there only behind its word. -/
theorem Relates.intoClause :
    Relates W (fun a b => a = b ∧ (a.isSome = true → W "INTO")) intoClause intoClause := by
  refine Relates.keyword.bind fun b _ h => ?_
  obtain ⟨rfl, hword⟩ := h
  cases b with
  | false => exact .pure ⟨rfl, nofun⟩
  | true => exact Uniform.relates.mono fun h => ⟨h.1, fun _ => hword rfl⟩

/-! ### Clauses of a selection -/

instance (fuel : Nat) : Uniform W (lateralViews fuel) := by
  induction fuel with
  | zero => exact inferInstanceAs (Uniform W misfit)
  | succ fuel ih =>
    unfold lateralViews
    infer_instance

instance : Uniform W tuple := by
  unfold tuple
  infer_instance

instance : Uniform W tupleOrExpr := by
  unfold tupleOrExpr
  infer_instance

instance : Uniform W groupItem := by
  unfold groupItem
  refine .andThen inferInstance fun _ _ => ?_
  split
  · refine .andThen inferInstance fun _ _ => ?_
    split
    · infer_instance
    refine .andThen inferInstance fun _ _ => ?_
    split
    · infer_instance
    -- an empty pair of parentheses
    refine ⟨Relates.get.bind fun ls ms ht => ?_⟩
    split
    · cases ht with
      | cons _ hopen _ h =>
        cases hopen
        cases h with
        | cons _ hclose _ h =>
          cases hclose
          exact .back h
    · next hno =>
      split
      · cases ht with
        | cons _ hopen _ h =>
          cases hopen
          cases h with
          | cons _ hclose _ h =>
            cases hclose
            exact (hno _ _ _ _ _ rfl).elim
      · exact Uniform.relates
  · infer_instance

instance : Uniform W groupItems := by
  unfold groupItems
  infer_instance

instance : Uniform W namedWindow := by
  unfold namedWindow
  infer_instance

instance : Uniform W windowsAndQualify := by
  unfold windowsAndQualify
  infer_instance

instance : Uniform W selectBody := by
  refine ⟨.after fun distinct _ => .after fun top _ => .after fun items _ =>
    Relates.intoClause.bind fun into _ h => ?_⟩
  obtain ⟨rfl, hinto⟩ := h
  have (rs : List Read) [Spelled W rs] : Spelled W (Body.select into rs) := Spelled.select hinto
  exact Uniform.relates

/-! ### Bodies -/

instance : Uniform W valuesRow := by
  unfold valuesRow
  infer_instance

instance : Uniform W tableBody := by
  refine ⟨Relates.nextToken.bind fun a a' ha => Relates.nextToken.bind fun b b' hb =>
    Relates.nextToken.bind fun c c' hc => ?_⟩
  cases ha <;> cases hb <;> cases hc
  · split <;> exact Uniform.relates
  -- a number in one of the three places is neither a word nor a period
  all_goals
    repeat' split
    all_goals first
      | exact Uniform.relates
      | cases ‹some (Token.word _ _) = some (Token.word _ _)›
        exact Uniform.relates
      | simp_all

instance : Uniform W simpleBody := by
  unfold simpleBody
  infer_instance

instance : Uniform W setQuantifier := by
  unfold setQuantifier
  infer_instance

instance {operators : List String} {operand : Parser Body} [Uniform W operand] (fuel : Nat)
    (left : Body) [h : Spelled W left] : Uniform W (combinations operators operand fuel left) := by
  induction fuel generalizing left with
  | zero => exact inferInstanceAs (Uniform W misfit)
  | succ fuel ih =>
    unfold combinations
    infer_instance

instance : Uniform W intersections := by
  unfold intersections
  infer_instance

instance : Uniform W queryBody := by
  unfold queryBody
  infer_instance

/-! ### Clauses after the body -/

instance : Uniform W offsetValue := by
  unfold offsetValue
  infer_instance

instance : Uniform W limitClause := by
  unfold limitClause
  dsimp only
  refine .andThen inferInstance fun _ _ => ?_
  split
  all_goals
    refine .andThen inferInstance fun offsetFirst h => ?_
    cases offsetFirst with
    | none => infer_instance
    | some offset =>
      have := Spelled.of_some h
      infer_instance

instance : Uniform W fetchClause := by
  unfold fetchClause
  infer_instance

instance : Uniform W optionalRowName := by
  unfold optionalRowName
  infer_instance

instance (fuel : Nat) : Uniform W (documentOptions fuel) := by
  induction fuel with
  | zero => exact inferInstanceAs (Uniform W misfit)
  | succ fuel ih =>
    refine .andThen inferInstance fun _ _ => ?_
    split
    · refine .andThen inferInstance fun _ _ => ?_
      split <;> infer_instance
    · infer_instance

instance : Uniform W documentClause := by
  unfold documentClause
  infer_instance

/-- A lock is of the kind that its word names. -/
instance : Uniform W lockClause := by
  refine ⟨Relates.keywordOf.bind fun k _ h => ?_⟩
  obtain ⟨rfl, hmem, hword⟩ := h
  have : Spelled W (if k == "UPDATE" then Lock.forUpdate else .forShare) := by
    split
    · next hk =>
      cases eq_of_beq hk
      exact .lock hword
    · next hk =>
      have hshare : k = "SHARE" := by simpa [show k ≠ "UPDATE" by simpa using hk] using hmem
      subst hshare
      exact .lock hword
  exact Uniform.relates

instance (fuel : Nat) : Uniform W (forClauses fuel) := by
  induction fuel with
  | zero => exact inferInstanceAs (Uniform W misfit)
  | succ fuel ih =>
    unfold forClauses
    infer_instance

/-! ### Queries -/

instance : Uniform W cteQuery := by
  unfold cteQuery
  infer_instance

instance : Uniform W cte := by
  unfold cte
  infer_instance

instance : Uniform W withClause := by
  unfold withClause
  infer_instance

/-! ### Changes -/

/-- A change is of the kind that its verb names. -/
instance : Uniform W changeVerb? := by
  refine ⟨Relates.keywordOf?.bind fun o _ h => ?_⟩
  obtain ⟨rfl, hword⟩ := h
  split
  · have : Spelled W Change.insert := .kind (hword _ rfl).2
    exact Uniform.relates
  · have : Spelled W Change.update := .kind (hword _ rfl).2
    exact Uniform.relates
  · have : Spelled W Change.delete := .kind (hword _ rfl).2
    exact Uniform.relates
  · have : Spelled W Change.merge := .kind (hword _ rfl).2
    exact Uniform.relates
  · exact Uniform.relates

instance : Uniform W returningClause := Uniform.map

instance : Uniform W insertBody := by
  unfold insertBody
  infer_instance

instance : Uniform W assignment := by
  unfold assignment
  infer_instance

instance : Uniform W updateBody := by
  unfold updateBody
  infer_instance

instance : Uniform W deleteBody := by
  unfold deleteBody
  infer_instance

instance : Uniform W mergeAction := by
  refine .andThen inferInstance fun k _ => ?_
  split <;> infer_instance

instance (fuel : Nat) : Uniform W (mergeBranches fuel) := by
  induction fuel with
  | zero => exact inferInstanceAs (Uniform W misfit)
  | succ fuel ih =>
    unfold mergeBranches
    infer_instance

instance : Uniform W mergeBody := by
  unfold mergeBody
  infer_instance

instance {kind : Change} : Uniform W (changeReads kind) := by
  cases kind
  · exact inferInstanceAs (Uniform W insertBody)
  · exact inferInstanceAs (Uniform W updateBody)
  · exact inferInstanceAs (Uniform W deleteBody)
  · exact inferInstanceAs (Uniform W mergeBody)

instance : Uniform W queryHere := by
  unfold queryHere
  dsimp only
  refine .andThen inferInstance fun _ _ => ?_
  split
  all_goals
    refine .andThen inferInstance fun w hw => ?_
    have := hw.snd
    refine .andThen inferInstance fun verb h => ?_
    cases verb with
    | none => infer_instance
    | some kind =>
      have := Spelled.of_some h
      infer_instance

/-! ### Levels and statements -/

/-- However many levels there are to spend, what is nested is the same for twins. -/
theorem env_blind (d : Dialect) (n : Nat) : (env d n).Blind W := by
  induction n with
  | zero => exact ⟨fun _ => rfl, fun _ _ _ _ => rfl⟩
  | succ n ih =>
    exact ⟨fun ht => Uniform.alike queryHere ih ht, fun power _ _ ht =>
      Uniform.alike (termBody power) ih ht⟩

instance : Uniform W statement := by
  refine .andThen inferInstance fun _ _ => ?_
  split
  · infer_instance
  · refine .andThen inferInstance fun verb h => ?_
    cases verb with
    | none => infer_instance
    | some kind =>
      have := Spelled.of_some h
      infer_instance

instance (fuel : Nat) : Uniform W (semicolons fuel) := by
  induction fuel with
  | zero => exact inferInstanceAs (Uniform W (pure ()))
  | succ fuel ih =>
    unfold semicolons
    infer_instance

instance : Uniform W (do return (← peek).isNone : Parser Bool) :=
  .of_lexeme Relates.peek fun _ => inferInstance

instance (fuel : Nat) : Uniform W (statementList fuel) := by
  induction fuel with
  | zero => exact inferInstanceAs (Uniform W misfit)
  | succ fuel ih =>
    unfold statementList
    refine .andThen inferInstance fun _ _ => .of_lexeme Relates.peek fun l => ?_
    infer_instance

/-- **Statements on twins.** Token lists that differ in the counts of their numbers have the same
    statements, and a statement has an effect only where its word is among the keywords. -/
theorem parseTokens_twins {d : Dialect} {ts us : List Token}
    (h : Twins W (lexemes false ts) (lexemes false us)) :
    parseTokens d ts = parseTokens d us ∧ ∀ ss, parseTokens d ts = .ok ss → Spelled W ss := by
  have halike := Uniform.alike (withFuel statementList) (env_blind d (levels - 1)) h
  rcases halike.cases with ⟨e, hl, hm⟩ | ⟨a, ls', ms', hl, hm, ha, -⟩
  · simp only [parseTokens, hl, hm]
    exact ⟨trivial, nofun⟩
  · simp only [parseTokens, hl, hm]
    refine ⟨rfl, fun ss hss => ?_⟩
    cases hss
    exact ha

end QueryGate.Sql.Parser
