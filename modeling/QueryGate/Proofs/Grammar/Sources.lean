import QueryGate.Proofs.Grammar.Terms

namespace QueryGate.Sql.Parser

/-!
# The items of a `FROM` clause are uniform

The parsers of tables, table functions and joins.  `item`, the parser of items with less fuel, is
uniform by induction on the fuel.
-/

set_option synthInstance.maxSize 100000

variable {W : String → Prop}

instance : Uniform W exprReads := Uniform.map

/-! ### Aliases -/

instance : Uniform W aliasColumn := by
  unfold aliasColumn
  infer_instance

instance : Uniform W optionalColumns := by
  unfold optionalColumns
  infer_instance

instance : Uniform W tableAlias := by
  unfold tableAlias
  infer_instance

/-! ### Pivots -/

instance : Uniform W namedValue := by
  unfold namedValue
  infer_instance

instance : Uniform W pivotAggregate :=
  .of_token Relates.nextToken fun t => by split <;> infer_instance

instance : Uniform W pivotColumns := by
  unfold pivotColumns
  infer_instance

instance : Uniform W pivotClause := by
  unfold pivotClause
  infer_instance

instance : Uniform W unpivotClause := by
  unfold unpivotClause
  infer_instance

instance (fuel : Nat) : Uniform W (pivots fuel) := by
  induction fuel with
  | zero => exact inferInstanceAs (Uniform W misfit)
  | succ fuel ih =>
    refine .andThen inferInstance fun k _ => ?_
    cases k <;> infer_instance

/-! ### Rows from a document -/

instance (fuel : Nat) : Uniform W (jsonFallbacks fuel) := by
  induction fuel with
  | zero => exact inferInstanceAs (Uniform W misfit)
  | succ fuel ih =>
    refine .andThen inferInstance fun k _ => ?_
    cases k <;> infer_instance

instance (fuel : Nat) : Uniform W (jsonColumn fuel) := by
  induction fuel with
  | zero => exact inferInstanceAs (Uniform W misfit)
  | succ fuel ih =>
    unfold jsonColumn
    infer_instance

instance : Uniform W jsonTable := by
  unfold jsonTable
  infer_instance

instance (fuel : Nat) : Uniform W (xmlOptions fuel) := by
  induction fuel with
  | zero => exact inferInstanceAs (Uniform W misfit)
  | succ fuel ih =>
    unfold xmlOptions
    infer_instance

instance : Uniform W xmlColumn := by
  unfold xmlColumn
  infer_instance

instance : Uniform W xmlDocument := by
  unfold xmlDocument
  infer_instance

instance : Uniform W xmlTable := by
  unfold xmlTable
  infer_instance

/-! ### Tables -/

instance : Uniform W tableArguments := by
  unfold tableArguments
  infer_instance

instance : Uniform W indexHint := by
  unfold indexHint
  infer_instance

instance (fuel : Nat) : Uniform W (indexHints fuel) := by
  induction fuel with
  | zero => exact inferInstanceAs (Uniform W misfit)
  | succ fuel ih =>
    unfold indexHints
    infer_instance

instance : Uniform W tableHints := by
  refine ⟨Relates.get.bind fun ls ms hstart => .after fun _ _ => .ite ?_ Uniform.relates⟩
  exact .after fun _ _ => .ite Uniform.relates (.back hstart)

instance : Uniform W numberLiteral :=
  .of_token Relates.nextToken fun t => by split <;> infer_instance

instance {inParens : Bool} : Uniform W (sampleSize inParens) := by
  unfold sampleSize
  dsimp only
  refine .andThen inferInstance fun _ _ => ?_
  split
  · infer_instance
  · refine .andThen inferInstance fun qs hqs => ?_
    cases qs with
    | some qs =>
      have := Spelled.of_some hqs
      infer_instance
    | none => exact .of_token Relates.nextToken fun t => by split <;> infer_instance

instance : Uniform W sampleClause := by
  unfold sampleClause
  infer_instance

instance : Uniform W namedTable := by
  unfold namedTable
  infer_instance

instance : Uniform W lateralFunction := by
  unfold lateralFunction
  infer_instance

instance : Uniform W unnest := by
  unfold unnest
  infer_instance

instance : Uniform W derivedTable := by
  unfold derivedTable
  infer_instance

/-! ### Joins -/

instance : Uniform W joinCondition := by
  unfold joinCondition
  infer_instance

instance : Uniform W joinWords := by
  refine .andThen inferInstance fun k _ => ?_
  split <;> infer_instance

section

variable {item : Parser (List Read)} [Uniform W item]

instance : Uniform W (join item) := by
  unfold join
  infer_instance

instance (fuel : Nat) : Uniform W (joins item fuel) := by
  induction fuel with
  | zero => exact inferInstanceAs (Uniform W misfit)
  | succ fuel ih =>
    refine .andThen inferInstance fun reads hreads => ?_
    cases reads with
    | some reads =>
      have := Spelled.of_some hreads
      infer_instance
    | none => infer_instance

end

section

variable {item : Parser Source} [Uniform W item]

instance : Uniform W (joined item) := by
  unfold joined
  infer_instance

instance : Uniform W (nestedJoin item) := by
  refine .andThen inferInstance fun p hp => ?_
  have := hp.fst
  have := hp.snd
  infer_instance

end

instance (fuel : Nat) : Uniform W (itemWithin fuel) := by
  induction fuel with
  | zero => exact inferInstanceAs (Uniform W misfit)
  | succ fuel ih =>
    unfold itemWithin
    refine .andThen inferInstance fun _ _ => ?_
    split
    · infer_instance
    refine .andThen inferInstance fun _ _ => ?_
    split
    · infer_instance
    refine .andThen inferInstance fun _ _ => ?_
    split
    · refine .andThen inferInstance fun reads hreads => ?_
      cases reads with
      | some reads =>
        have := Spelled.of_some hreads
        infer_instance
      | none => infer_instance
    refine .andThen inferInstance fun _ _ => ?_
    split
    · infer_instance
    -- a table function or a table, by the two lexemes ahead
    have htable : Relates W (Same W) (Source.of <$> namedTable) (Source.of <$> namedTable) :=
      Uniform.relates
    refine ⟨Relates.get.bind fun ls ms ht => ?_⟩
    cases ht with
    | nil => exact htable
    | cons _ _ _ h =>
      cases h with
      | nil => exact htable
      | cons _ htoken _ h =>
        cases htoken with
        | count => exact htable
        | same =>
          split
          · next heq =>
            cases heq
            refine .ite ?_ (.ite ?_ htable)
            · exact (Relates.set h).bind fun _ _ _ => Uniform.relates
            · exact (Relates.set h).bind fun _ _ _ => Uniform.relates
          · split
            · next hno _ _ _ _ _ heq =>
              cases heq
              exact (hno _ _ _ _ rfl).elim
            · exact htable

instance : Uniform W source := by
  refine .andThen inferInstance fun p hp => ?_
  have := hp.fst
  have := hp.snd
  infer_instance

instance : Uniform W sources := by
  unfold sources
  infer_instance

end QueryGate.Sql.Parser
