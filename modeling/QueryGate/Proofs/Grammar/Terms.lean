import QueryGate.Proofs.Grammar.Uniform

namespace QueryGate.Sql.Parser

/-!
# Types and expressions are uniform

The parsers of data types and of expressions, in the order of the grammar.  `atom`, the parser of
operands with less fuel, is uniform by induction on the fuel.
-/

set_option synthInstance.maxSize 100000

variable {W : String → Prop}

/-! ### Data types -/

/-- Whether the token is a count decides, and twins agree on that. -/
instance : Uniform W uint :=
  Uniform.of_token Relates.nextToken
    (fun t => by split <;> infer_instance)
    (fun b c hs ht => by simp only [hs, ht])

instance : Uniform W optionalPrecision := by
  unfold optionalPrecision
  infer_instance

instance : Uniform W optionalScale := by
  unfold optionalScale
  infer_instance

instance : Uniform W optionalLength := by
  unfold optionalLength
  infer_instance

instance : Uniform W optionalZone := by
  unfold optionalZone
  infer_instance

instance : Uniform W optionalIntervalFields := by
  refine Uniform.andThen inferInstance fun k _ => ?_
  split <;> infer_instance

instance : Uniform W quotedValue :=
  Uniform.of_token Relates.nextToken fun t => by split <;> infer_instance

instance : Uniform W enumMember := by
  unfold enumMember
  infer_instance

instance (fuel : Nat) : Uniform W (modifiers fuel) := by
  induction fuel with
  | zero => exact inferInstanceAs (Uniform W misfit)
  | succ fuel ih => exact Uniform.of_token Relates.nextToken fun t => by split <;> infer_instance

instance : Uniform W characterType := by
  unfold characterType
  infer_instance

instance (fuel : Nat) : Uniform W (arrayBrackets fuel) := by
  induction fuel with
  | zero => exact inferInstanceAs (Uniform W (pure ()))
  | succ fuel ih =>
    unfold arrayBrackets
    infer_instance

instance {element : Parser TypeKind} {k : String} [Uniform W element] :
    Uniform W (typeBehind element k) := by
  refine Uniform.andThen inferInstance fun d _ => ?_
  -- the four families of types, and the types by name
  split
  · infer_instance
  split
  · infer_instance
  split
  · infer_instance
  split
  · infer_instance
  split <;> infer_instance

instance : Uniform W namedType := by
  unfold namedType
  infer_instance

instance {element : Parser TypeKind} [Uniform W element] : Uniform W (bareType element) := by
  refine Uniform.andThen inferInstance fun d _ => ?_
  refine Uniform.of_lexeme Relates.peek fun l => ?_
  split
  · infer_instance
  · infer_instance

instance (fuel : Nat) : Uniform W (dataTypeWithin fuel) := by
  induction fuel with
  | zero => exact inferInstanceAs (Uniform W misfit)
  | succ fuel ih =>
    unfold dataTypeWithin
    infer_instance

instance : Uniform W dataType := Uniform.withFuel

/-! ### Literals and intervals -/

instance (fuel : Nat) : Uniform W (adjacentLiterals fuel) := by
  induction fuel with
  | zero => exact inferInstanceAs (Uniform W (pure ()))
  | succ fuel ih =>
    refine ⟨Relates.get.bind fun ls ms ht => ?_⟩
    cases ht with
    | nil => exact .pure ⟨rfl, inferInstance⟩
    | @cons t u _ _ _ _ _ htoken _ h =>
      cases htoken with
      -- a count is no literal in either list
      | count => exact .pure ⟨rfl, inferInstance⟩
      | same =>
        cases t with
        | literal kind text =>
          dsimp only
          split
          · exact (Relates.set h).bind fun _ _ _ => ih.relates
          · exact .pure ⟨rfl, inferInstance⟩
        | _ => exact .pure ⟨rfl, inferInstance⟩

/-- What stands directly behind a mark: a word, or a number without a suffix. -/
def behindMark : Option Lexeme → Parser Unit
  | some ⟨.word _ _, _, true⟩ => pure ()
  | some ⟨.number _ false, _, true⟩ => pure ()
  | _ => misfit

/-- A value that begins with a symbol is a placeholder behind a mark. -/
theorem value_symbol (s k : String) (a : Bool) (env : Env) (ls : List Lexeme) :
    value env (⟨.symbol s, k, a⟩ :: ls)
      = (do ensure (s == ":" || s == "@"); behindMark (← next)) env ls := by
  rfl

instance (l : Option Lexeme) : Uniform W (behindMark l) := by
  unfold behindMark
  split <;> infer_instance

instance : Uniform W value := by
  refine ⟨fun env henv ls ms ht => ?_⟩
  cases ht with
  | nil => rfl
  | @cons t u k a ls ms hword htoken hmark h =>
    cases htoken with
    | count => exact ⟨⟨rfl, inferInstance⟩, h⟩
    | same =>
      cases t with
      | word text quote =>
        cases quote with
        | none => exact Uniform.alike (ensure (["TRUE", "FALSE", "NULL"].contains k)) henv h
        | some quote => exact Uniform.alike (ensure (quote == '"')) henv h
      | number => exact ⟨⟨rfl, inferInstance⟩, h⟩
      | placeholder => exact ⟨⟨rfl, inferInstance⟩, h⟩
      | literal kind text =>
        exact Uniform.alike (do
          if (← dialect).joinsLiterals && (kind == .single || kind == .double) then
            withFuel adjacentLiterals) henv h
      | symbol s =>
        rw [value_symbol, value_symbol]
        cases hs : s == ":" || s == "@" with
        | false => rfl
        | true =>
          -- a number behind a mark is the same in both
          have hhead := hmark (by simpa [Lexeme.isMark] using hs)
          cases h with
          | nil => rfl
          | cons _ _ _ h =>
            cases hhead
            exact Uniform.alike (behindMark _) henv h
      | customOperator => rfl
      | blank => rfl

instance : Uniform W valueTerm := by
  unfold valueTerm
  infer_instance

instance : Uniform W timePart := by
  refine Uniform.andThen inferInstance fun d _ => ?_
  exact Uniform.of_lexeme Relates.next fun l => by split <;> infer_instance

instance {atom : Parser Term} [Uniform W atom] : Uniform W (intervalTerm atom) := by
  unfold intervalTerm
  infer_instance

instance {atom : Parser Term} [Uniform W atom] : Uniform W (typedLiteral atom) := by
  refine Uniform.andThen inferInstance fun kind _ => ?_
  cases kind <;> infer_instance

/-! ### Wildcards -/

instance (fuel : Nat) : Uniform W (starAfterNames fuel) := by
  induction fuel with
  | zero => exact inferInstanceAs (Uniform W misfit)
  | succ fuel ih =>
    refine Uniform.andThen inferInstance fun b _ => ?_
    have hnext : Uniform W (nextToken >>= fun t => match t with
        | some (.word _ _) | some (.literal .single _) | some (.placeholder _) =>
          starAfterNames fuel
        | some (.symbol "*") => pure true
        | _ => misfit) :=
      Uniform.of_token Relates.nextToken fun t => by split <;> infer_instance
    infer_instance

/-- Where no star is found, the lexemes in front are put back. -/
instance : Uniform W wildcard := by
  refine ⟨Relates.get.bind fun ls ms hstart => Relates.nextToken.bind fun t u h => ?_⟩
  have hback := Relates.back (W := W) (a := false) hstart
  cases h with
  | count => exact hback
  | same =>
    split
    · exact .pure ⟨rfl, inferInstance⟩
    · exact .after fun _ _ => .ite (.after fun _ _ => .ite (.pure ⟨rfl, inferInstance⟩) hback) hback
    · exact .after fun _ _ => .ite (.after fun _ _ => .ite (.pure ⟨rfl, inferInstance⟩) hback) hback
    · exact hback

instance : Uniform W wildcardTerm := by
  unfold wildcardTerm
  infer_instance

/-! ### Ordering and windows -/

instance : Uniform W orderItem := by
  unfold orderItem
  infer_instance

section

/-! ### Calls -/

instance : Uniform W argumentOperator := by
  unfold argumentOperator
  infer_instance

/-- The expression may turn out to be the name of the argument, the argument, or nothing. -/
instance : Uniform W argumentByExpr := by
  refine ⟨Relates.get.bind fun ls ms hstart => .after fun named _ => ?_⟩
  cases named with
  | none => exact Uniform.relates
  | some named =>
    have hnamed := Spelled.of_some ‹Spelled W (some named)›
    refine Relates.get.bind fun ls' ms' hbehind => .after fun t ht => ?_
    cases t with
    | some t =>
      have := Spelled.of_some ht
      exact .pure ⟨rfl, inferInstance⟩
    | none =>
      exact (Relates.set hstart).bind fun _ _ _ =>
        .after fun _ _ => .ite (.pure ⟨rfl, inferInstance⟩) (.back hbehind)

instance : Uniform W argument := by
  refine .andThen inferInstance fun _ _ => ?_
  split
  · infer_instance
  · refine .andThen inferInstance fun t ht => ?_
    cases t with
    | none => infer_instance
    | some t =>
      have := Spelled.of_some ht
      infer_instance

instance : Uniform W nullTreatment := by
  unfold nullTreatment
  infer_instance

instance : Uniform W jsonClauses := by
  unfold jsonClauses
  infer_instance

instance : Uniform W overflowClause := by
  unfold overflowClause
  dsimp only
  refine .andThen inferInstance fun _ _ => ?_
  split
  · refine .andThen inferInstance fun _ _ => ?_
    split
    · infer_instance
    · refine .andThen inferInstance fun _ _ => .andThen inferInstance fun _ _ => ?_
      split
      · infer_instance
      · exact .of_token Relates.peekToken fun t => by
          split
          · split <;> infer_instance
          · infer_instance
  · infer_instance

instance : Uniform W argumentList := by
  unfold argumentList
  infer_instance

instance : Uniform W filterClause := by
  unfold filterClause
  infer_instance

variable {atom : Parser Term} [Uniform W atom]

instance : Uniform W (frameBound atom) := by
  unfold frameBound
  dsimp only
  refine .andThen inferInstance fun _ _ => ?_
  split
  · infer_instance
  · refine .andThen inferInstance fun _ _ => ?_
    split
    · infer_instance
    · exact .of_token Relates.peekToken fun t => by split <;> infer_instance

instance : Uniform W (windowSpec atom) := by
  unfold windowSpec
  dsimp only
  refine .of_lexeme Relates.peek fun l => ?_
  split
  · split <;> infer_instance
  · infer_instance

instance : Uniform W (call atom) := by
  unfold call
  infer_instance

/-! ### Words that introduce an expression -/

omit [Uniform W atom] in
instance (fuel : Nat) : Uniform W (caseBranches fuel) := by
  induction fuel with
  | zero => exact inferInstanceAs (Uniform W misfit)
  | succ fuel ih =>
    unfold caseBranches
    infer_instance

instance : Uniform W caseTerm := by
  unfold caseTerm
  infer_instance

instance : Uniform W castTerm := by
  unfold castTerm
  infer_instance

instance : Uniform W convertTerm := by
  unfold convertTerm
  infer_instance

instance : Uniform W existsTerm := by
  unfold existsTerm
  infer_instance

instance : Uniform W extractTerm := by
  unfold extractTerm
  infer_instance

instance : Uniform W roundTerm := by
  refine .inParens (.andThen inferInstance fun qs _ => .andThen inferInstance fun _ _ => ?_)
  split
  · infer_instance
  · refine .andThen inferInstance fun _ _ => ?_
    split
    · exact .of_token Relates.peekToken fun t => by split <;> infer_instance
    · infer_instance

instance : Uniform W (positionTerm atom) := by
  refine .andThen inferInstance fun d _ => .andThen inferInstance fun t ht => ?_
  cases t with
  | none => infer_instance
  | some t =>
    have := Spelled.of_some ht
    infer_instance

instance : Uniform W substringTerm := by
  unfold substringTerm
  infer_instance

instance : Uniform W overlayTerm := by
  unfold overlayTerm
  infer_instance

instance : Uniform W trimTerm := by
  unfold trimTerm
  infer_instance

instance : Uniform W matchTerm := by
  unfold matchTerm
  infer_instance

instance : Uniform W notTerm := by
  unfold notTerm
  infer_instance

instance : Uniform W arrayTerm := by
  unfold arrayTerm
  infer_instance

instance : Uniform W timeFunction := by
  unfold timeFunction
  infer_instance

/-- Each construct is uniform, so whichever is chosen is. -/
theorem Uniform.of_construct? {d : Dialect} {k : String} {behind : Option Token} {c : Parser Term}
    (h : construct? d atom k behind = some c) : Uniform W c := by
  unfold construct? at h
  split at h <;> (try split_ifs at h) <;> cases h <;> infer_instance

omit [Uniform W atom] in
/-- A construct does not depend on a count behind its word. -/
theorem construct?_number (d : Dialect) (k : String) {s t : String} (b c : Bool) :
    construct? d atom k (some (.number s b)) = construct? d atom k (some (.number t c)) := by
  have hsymbol (u v : String) (e : Bool) :
      (some (Token.number u e) == some (.symbol v)) = false := rfl
  unfold construct?
  rw [hsymbol s, hsymbol s, hsymbol t, hsymbol t]

instance {i : Ident} : Uniform W (wordTerm atom i) := by
  refine .of_token Relates.peekToken fun t => ?_
  split
  · infer_instance
  · split <;> infer_instance
  · infer_instance

/-! ### Operands -/

instance : Uniform W (bracedTerm atom) := by
  refine .andThen inferInstance fun t ht => ?_
  cases t with
  | some t =>
    have := Spelled.of_some ht
    infer_instance
  | none => exact .of_lexeme Relates.next fun l => by split <;> infer_instance

instance : Uniform W groupTerm := by
  unfold groupTerm
  infer_instance

/-- A literal or an operator that stands for nothing here is left for `value`. -/
instance : Uniform W (plainOperand atom) := by
  refine .andThen inferInstance fun d _ => ⟨Relates.get.bind fun ls ms hstart => ?_⟩
  -- any other operand goes back to where it began
  have hback : Relates W (Same W) (do set ls; valueTerm) (do set ms; valueTerm) :=
    (Relates.set hstart).bind fun _ _ _ => Uniform.relates
  refine Relates.next.bind fun l m h => ?_
  cases h with
  | none => exact Uniform.relates
  | @some t u k a _ htoken =>
    cases htoken with
    -- counts differ in the number only, which is not looked at
    | count => exact hback
    | same =>
      cases t with
      | word text quote =>
        refine (Uniform.of_token Relates.peekToken (fun t => ?_) fun b c _ _ => ?_).relates
        · split
          -- a word may begin a construct, and both lists show the same token behind it
          · infer_instance
          · next c hc =>
            have : Uniform W c := Uniform.of_construct? hc
            infer_instance
        · rw [construct?_number d k b c]
      | symbol s =>
        dsimp only
        refine .ite Uniform.relates (.ite Uniform.relates (.ite Uniform.relates ?_))
        split
        · exact Uniform.relates
        · exact hback
      | number => exact hback
      | literal => exact hback
      | placeholder => exact hback
      | customOperator => exact Uniform.relates
      | blank => exact Uniform.relates

end

instance (fuel : Nat) : Uniform W (operandWithin fuel) := by
  induction fuel with
  | zero => exact inferInstanceAs (Uniform W misfit)
  | succ fuel ih =>
    refine .andThen inferInstance fun t ht => ?_
    cases t with
    | some t =>
      have := Spelled.of_some ht
      infer_instance
    | none => infer_instance

instance : Uniform W operand := Uniform.withFuel

/-! ### Periods and subscripts -/

instance : Uniform W subscript := by
  unfold subscript
  dsimp only
  infer_instance

instance : Uniform W afterPeriod := by
  refine .of_token Relates.peekToken fun t => ?_
  split
  · infer_instance
  · infer_instance
  · refine .andThen inferInstance fun t ht => ?_
    cases t with
    | some t =>
      have := Spelled.of_some ht
      infer_instance
    | none => infer_instance

instance (fuel : Nat) (t : Term) [ht : Spelled W t] : Uniform W (access fuel t) := by
  induction fuel generalizing t with
  | zero => exact inferInstanceAs (Uniform W (pure t))
  | succ fuel ih =>
    refine ⟨Relates.get.bind fun ls ms hstart => .after fun _ _ => .ite ?_ ?_⟩
    · refine .after fun _ _ => .ite (.after fun _ _ => .ite Uniform.relates (.back hstart)) ?_
      exact .after fun part _ => (ih _).relates
    · refine .after fun _ _ => .ite ?_ Uniform.relates
      exact .after fun qs _ => (ih _).relates

/-! ### Infix operators -/

instance {power : Nat} {comparison : Bool} : Uniform W (rightSide power comparison) := by
  unfold rightSide
  dsimp only
  refine .andThen inferInstance fun _ _ => ?_
  split
  · refine ⟨Relates.get.bind fun ls ms hstart => .after fun _ _ => .after fun _ _ => .ite ?_ ?_⟩
    · exact (Relates.set hstart).bind fun _ _ _ => Uniform.relates
    · exact Uniform.relates
  · infer_instance

instance : Uniform W isOperand := by
  unfold isOperand
  infer_instance

instance : Uniform W inOperand := by
  refine .andThen inferInstance fun _ _ => ?_
  split
  · infer_instance
  · refine .inParens (.andThen inferInstance fun q hq => ?_)
    cases q with
    | none => infer_instance
    | some q =>
      have := Spelled.of_some hq
      infer_instance

instance : Uniform W patternOperand := by
  unfold patternOperand
  infer_instance

instance : Uniform W betweenOperand := by
  unfold betweenOperand
  infer_instance

instance : Uniform W predicate := by
  unfold predicate
  infer_instance

instance (fuel : Nat) : Uniform W (operatorName fuel) := by
  induction fuel with
  | zero => exact inferInstanceAs (Uniform W misfit)
  | succ fuel ih =>
    unfold operatorName
    infer_instance

/-- How tight an operator binds does not depend on counts. -/
theorem Twins.infixPower_eq {ls ms : List Lexeme} (h : Twins W ls ms) (d : Dialect) :
    infixPower d ls = infixPower d ms := by
  -- how strongly a symbol binds may depend on the token behind it, which is a twin
  have hsymbol {ls ms : List Lexeme} (h : Twins W ls ms) (s : String) :
      symbolPower d s ls = symbolPower d s ms := by
    cases h with
    | nil => rfl
    | @cons t _ _ _ _ _ _ htoken _ _ =>
      cases htoken with
      | count => rfl
      | same =>
        cases t with
        | literal kind text => cases kind <;> rfl
        | _ => rfl
  -- and a word may look at two lexemes
  have hkeyword {ls ms : List Lexeme} (h : Twins W ls ms) (k : String) :
      keywordTier? d k ls = keywordTier? d k ms := by
    cases h with
    | nil => rfl
    | cons _ _ _ h =>
      cases h with
      | nil => rfl
      | cons _ _ _ _ => rfl
  cases h with
  | nil => rfl
  | @cons t u k a ls ms _ htoken _ h =>
    cases htoken with
    | count => rfl
    | same => simp only [infixPower, hsymbol h, hkeyword h]

instance {power : Nat} : Uniform W (infixOperand power) := by
  refine .andThen inferInstance fun d _ => .andThen inferInstance fun own _ => ?_
  split
  · infer_instance
  refine ⟨Relates.get.bind fun ls ms ht => ?_⟩
  cases ht with
  | nil => exact Uniform.relates
  | @cons t u k a ls ms _ htoken _ h =>
    -- behind the operator the lexemes are twins
    have hset {p : Parser (List Query)} [Uniform W p] :
        Relates W (Same W) (do set ls; p) (do set ms; p) :=
      (Relates.set h).bind fun _ _ _ => Uniform.relates
    cases htoken with
    | same =>
      dsimp only
      refine .ite hset ?_
      split
      iterate 4 exact hset
      · exact .after fun _ _ => hset
      iterate 2 exact hset
      iterate 8 exact Uniform.relates
      iterate 2 exact hset
      · refine (Relates.set h).bind fun _ _ _ => ?_
        split <;> exact Uniform.relates
    | count =>
      simp only [isBinary, Bool.false_eq_true, if_false]
      split
      iterate 4 exact hset
      · exact .after fun _ _ => hset
      iterate 2 exact hset
      iterate 8 exact Uniform.relates
      iterate 3 exact hset

instance {power : Nat} (fuel : Nat) (t : Term) [ht : Spelled W t] :
    Uniform W (infixes power fuel t) := by
  induction fuel generalizing t with
  | zero => exact inferInstanceAs (Uniform W (pure t))
  | succ fuel ih =>
    refine .andThen inferInstance fun d _ => ⟨Relates.get.bind fun ls ms h => ?_⟩
    rw [h.infixPower_eq d]
    exact .ite Uniform.relates (.after fun qs _ => (ih _).relates)

instance {power : Nat} : Uniform W (termBody power) := by
  unfold termBody
  infer_instance

end QueryGate.Sql.Parser
