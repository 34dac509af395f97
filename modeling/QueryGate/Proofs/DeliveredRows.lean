import QueryGate.Proofs.ExecutorPlan
import QueryGate.Proofs.RowCap

namespace QueryGate

/-!
# Delivered rows

A database may deliver more rows than an executor gives out, whatever limit the statement carries.
How many there are and what an output says about the others is a matter of the row cap alone:

* `QueryOutput.Delivers` — what an output holds of the rows that there are;
* `Executor.kept_delivers` — what is kept of an answer delivers its rows;
* `Executor.run_of_answered` — a run that nothing goes wrong with;
* `Executor.execute_delivers` — every accepted statement whose requests are answered gives such an
  output.
-/

/-! ### Outputs -/

/-- What an output holds of an answer to a statement, of which so many rows are given out. -/
structure QueryOutput.Delivers (o : QueryOutput) (statement : String) (maxRows : Nat)
    (reply : Reply) : Prop where
  statement_eq : o.statement = statement
  /-- The first row brings the names of the columns. -/
  columns_eq : o.columns = match reply.rows with
    | [] => []
    | _ :: _ => reply.columns
  length_eq : o.rows.length = min maxRows reply.rows.length
  /-- The rows that are given out are the first ones, in their order. -/
  row_eq : ∀ i row, i < maxRows → reply.rows[i]? = some row →
    o.rows[i]? = some (Executor.rowJson reply.columns row)
  truncated_iff : o.truncated = true ↔ maxRows < reply.rows.length

namespace Executor

variable {e : Executor} {db : Database} {sent : List Request} {allowed : AllowList}
variable {schema : Option String} {sql statement : List Char}

/-- What is kept of an answer delivers its rows. -/
theorem kept_delivers (statement : String) (maxRows : Nat) (reply : Reply) :
    (kept statement maxRows reply).Delivers statement maxRows reply where
  statement_eq := rfl
  columns_eq := by
    rw [kept]
    cases reply.rows <;> rfl
  length_eq := by rw [kept, List.length_map, List.length_take]
  row_eq i row hi hrow := by rw [kept, List.getElem?_map, List.getElem?_take_of_lt hi, hrow]; rfl
  truncated_iff := decide_eq_true_iff

/-! ### Runs without a fault -/

/-- Nothing goes wrong with a database that answers everything in full. -/
theorem allAnswered_of_complete (h : ∀ before r, (db before r).fault = none) (sent : List Request)
    (qs : List Sending) : AllAnswered db sent qs := by
  intro before q after _
  rw [faultAt, Sending.fault?, h]
  cases q.rows with
  | none => rfl
  | some n => exact ite_self none

/-- A plan is sent to its end if nothing goes wrong with any request. -/
theorem sendPlan_of_answered {qs : List Sending} (h : AllAnswered db sent qs) :
    sendPlan db sent qs = (sent ++ requests qs, none) := by
  obtain ⟨-, hsend⟩ | ⟨before, q, after, f, hqs, -, hq, -⟩ := sendPlan_cases db sent qs
  · exact hsend
  · rw [h before q after hqs] at hq
    cases hq

/-- The requests of a plan are the opening, the statement and the rollback. -/
theorem requests_planFor (e : Executor) (schema : Option String) (statement : String) :
    requests (e.planFor schema statement) =
      opening e.settings schema ++ [.plain statement, rollback] := by
  simp [planFor, plan_eq, requests, Function.comp_def]

/-- A run that nothing goes wrong with sends its plan and gives what is kept of the answer. -/
theorem run_of_answered {statement : String}
    (h : AllAnswered db sent (e.planFor schema statement)) :
    (e.run db sent schema statement).value =
      ⟨sent ++ requests (e.planFor schema statement),
        .ok (kept statement e.gate.settings.rowCap
          (db (sent ++ opening e.settings schema) (.plain statement)))⟩ := by
  have hsend := sendPlan_of_answered h
  rw [planFor] at hsend
  rw [run, transact_eq_sendPlan, hsend]
  rfl

/-- So does the run of an accepted statement. -/
theorem execute_of_answered (haccepted : (e.gate.prepare allowed sql).value = .accepted statement)
    (hanswered : AllAnswered db sent (e.planFor schema (String.ofList statement))) :
    (e.execute db sent allowed schema sql).value =
      ⟨sent ++ requests (e.planFor schema (String.ofList statement)),
        .ok (kept (String.ofList statement) e.gate.settings.rowCap
          (db (sent ++ opening e.settings schema) (.plain (String.ofList statement))))⟩ := by
  rw [← run_of_answered hanswered]
  simp only [execute, bind, Logged.andThen, haccepted]

/-- **The rows of an accepted statement.** If nothing goes wrong with a request, the run gives out
    the first rows of what the database delivers, up to the row cap, and says truly whether there
    are more, and the statement that it names is the one that was sent. -/
theorem execute_delivers (haccepted : (e.gate.prepare allowed sql).value = .accepted statement)
    (hanswered : AllAnswered db sent (e.planFor schema (String.ofList statement))) :
    ∃ o, (e.execute db sent allowed schema sql).value.result = .ok o ∧
      o.Delivers (String.ofList statement) (max 1 e.gate.settings.maxRows)
        (db (sent ++ opening e.settings schema) (.plain o.statement)) ∧
      (e.execute db sent allowed schema sql).value.sent =
        sent ++ (opening e.settings schema ++ [.plain o.statement, rollback]) := by
  rw [execute_of_answered haccepted hanswered, requests_planFor]
  exact ⟨_, rfl, kept_delivers _ _ _, rfl⟩

end Executor

/-! ### A limit above the cap -/

/-- An executor that gives out two rows, whatever limit a statement carries. -/
def twoRows : Executor := ⟨⟨{ GateSettings.default with maxRows := 2 }⟩, .default⟩

/-- A database that answers a text with three rows and everything else without a row. -/
def threeRows (text : String) : Database := fun _ r =>
  if r.sql = text then ⟨["n"], [#v[.int 1], #v[.int 2], #v[.int 3]], none⟩ else .done

private theorem threeRows_answered (text : String) (sent : List Request) (qs : List Sending) :
    AllAnswered (threeRows text) sent qs := by
  refine Executor.allAnswered_of_complete (fun before r => ?_) sent qs
  rw [threeRows]
  split <;> rfl

/-- The statement has a limit within the cap and is sent as it is. -/
theorem prepare_limitedText : (twoRows.gate.prepare onlyT limitedText).value = .accepted limitedText :=
  Gate.accepted_of_count (g := twoRows.gate) check_limitedText limit_limitedText (absurd rfl)

/-- A query for nine rows is sent as it is, and two of the three rows are given out. -/
theorem limitedText_delivers :
    (twoRows.gate.prepare onlyT limitedText).value = .accepted limitedText ∧
    AllAnswered (threeRows (String.ofList limitedText)) []
      (twoRows.planFor none (String.ofList limitedText)) ∧
    ∃ o, (twoRows.execute (threeRows (String.ofList limitedText)) [] onlyT none limitedText).value.result
        = .ok o ∧ o.rows.length = 2 ∧ o.truncated = true := by
  have hanswered : AllAnswered (threeRows (String.ofList limitedText)) []
      (twoRows.planFor none (String.ofList limitedText)) := threeRows_answered _ _ _
  obtain ⟨o, ho, hdelivers, -⟩ := Executor.execute_delivers prepare_limitedText hanswered
  rw [hdelivers.statement_eq] at hdelivers
  have hreply : (threeRows (String.ofList limitedText)
      ([] ++ Executor.opening twoRows.settings none) (.plain (String.ofList limitedText))).rows.length
        = 3 := by
    rw [threeRows, Request.plain, if_pos rfl]
    rfl
  refine ⟨prepare_limitedText, hanswered, o, ho, ?_, ?_⟩
  · rw [hdelivers.length_eq, hreply]
    rfl
  · rw [hdelivers.truncated_iff, hreply]
    decide

end QueryGate
