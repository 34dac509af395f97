import Mathlib.Data.List.Basic
import QueryGate.Executor

namespace QueryGate

/-!
# Rows as they arrive

An executor takes the rows of an answer one by one.  What it has in the end is a matter of all the
rows that there are:

* `Executor.firstRows` — the rows up to a maximum, and whether there are more;
* `Executor.Keeps` — what is kept once some rows have arrived, which `Keeps.next` preserves;
* `Executor.receive_eq` — the first rows are what is kept, unless a fault comes before a row too many.
-/

namespace Executor

variable {maxRows : Nat} {columns : List String} {fault : Option Fault} {r : Received}
variable {seen rest : List (Vector Cell columns.length)} {row : Vector Cell columns.length}

/-- The rows up to a maximum, the names of the columns if there is a row, and whether there are more
    rows than that. -/
def firstRows (maxRows : Nat) (columns : List String)
    (rows : List (Vector Cell columns.length)) : Received where
  columns := if rows.isEmpty then [] else columns
  rows := (rows.take maxRows).map (rowJson columns)
  truncated := decide (maxRows < rows.length)

/-- What is kept once some rows have arrived, none of which is one too many. -/
structure Keeps (maxRows : Nat) (columns : List String) (seen : List (Vector Cell columns.length))
    (r : Received) : Prop where
  columns_eq : r.columns = if seen.isEmpty then [] else columns
  rows_eq : r.rows = seen.map (rowJson columns)
  complete : r.truncated = false
  bounded : seen.length ≤ maxRows

/-- Before the first row nothing has been received. -/
theorem Keeps.start (maxRows : Nat) (columns : List String) :
    Keeps maxRows columns [] .nothing :=
  ⟨rfl, rfl, rfl, Nat.zero_le _⟩

/-- The names of the columns do not change with the rows. -/
theorem Keeps.columns_next (h : Keeps maxRows columns seen r) :
    (if r.columns.isEmpty then columns else r.columns) = columns := by
  cases seen with
  | nil => rw [h.columns_eq]; rfl
  | cons first seen =>
    rw [h.columns_eq]
    exact ite_self columns

/-- Every row is received once. -/
theorem Keeps.length_eq (h : Keeps maxRows columns seen r) : r.rows.length = seen.length := by
  rw [h.rows_eq, List.length_map]

/-- **One more row.** It is kept behind the others while there are fewer than the maximum. -/
theorem Keeps.next (h : Keeps maxRows columns seen r) (hroom : seen.length < maxRows) :
    Keeps maxRows columns (seen ++ [row])
      ⟨columns, r.rows ++ [rowJson columns row], r.truncated⟩ where
  columns_eq := by cases seen <;> rfl
  rows_eq := by rw [h.rows_eq, List.map_append, List.map_singleton]
  complete := h.complete
  bounded := by rw [List.length_append, List.length_singleton]; exact hroom

/-- What is kept of rows that are not too many. -/
theorem Keeps.eq_firstRows (h : Keeps maxRows columns seen r) :
    r = firstRows maxRows columns seen := by
  have hmore : ¬maxRows < seen.length := Nat.not_lt.mpr h.bounded
  cases r with
  | mk names rows truncated =>
    obtain ⟨rfl, rfl, rfl, hle⟩ := h
    simp [firstRows, List.take_of_length_le hle, hmore]

/-- **All rows.** The first ones are kept.  A fault behind them is met unless there is a row too
    many. -/
theorem receive_eq (h : Keeps maxRows columns seen r) :
    receive maxRows columns fault r rest =
      if maxRows < (seen ++ rest).length then .ok (firstRows maxRows columns (seen ++ rest))
      else match fault with
        | some f => .error f
        | none => .ok (firstRows maxRows columns (seen ++ rest)) := by
  induction rest generalizing seen r with
  | nil =>
    have hmore : ¬maxRows < seen.length := Nat.not_lt.mpr h.bounded
    rw [List.append_nil, if_neg hmore, ← h.eq_firstRows]
    cases fault <;> rfl
  | cons row rest ih =>
    rw [receive]
    simp only [h.columns_next, h.length_eq]
    by_cases hfull : maxRows ≤ seen.length
    · -- the row is one too many
      have hlength : seen.length = maxRows := Nat.le_antisymm h.bounded hfull
      have hmore : maxRows < (seen ++ row :: rest).length := by
        rw [List.length_append, List.length_cons]
        omega
      have htake : (seen ++ row :: rest).take maxRows = seen := List.take_left' hlength
      rw [if_pos hfull, if_pos hmore, firstRows, htake, h.rows_eq, decide_eq_true hmore]
      simp
    · have happend : seen ++ row :: rest = (seen ++ [row]) ++ rest := by
        rw [List.append_assoc, List.singleton_append]
      rw [if_neg hfull, happend]
      exact ih (h.next (Nat.lt_of_not_le hfull))

end Executor

end QueryGate
