import QueryGate.Proofs.TableUse

namespace QueryGate

open Sql

/-!
# The walk respects lexical scope

`Walk` keeps a depth, a stack of `WITH` clauses and, for each clause, how many of its queries have
been left.  This file shows that these three numbers carry exactly the scope that `Query.uses`
passes down the tree:

* `Walk.Inside` / `Walk.Settled` — the invariants: the stack shows one level deeper, respectively
  right here, the names of a scope;
* `Sql.Query.walk_visits` — one query moves the walk past its visits: the tables it reads are
  added, the clause around it counts it, and its own clause is gone;
* `Sql.Statement.tables_eq_eraseDups` — the tables of a statement are the tables that its uses
  read, each at its first occurrence.
-/

/-! ### First occurrences -/

/-- Going through a list from left to right and appending what is new adds to `seen` the first
    occurrences of what `seen` lacks. -/
private theorem foldl_firstOccurrences [BEq α] [LawfulBEq α] (xs : List α) (seen : List α) :
    xs.foldl (fun seen x => if seen.contains x then seen else seen ++ [x]) seen
      = seen ++ (xs.filter fun x => !seen.contains x).eraseDups := by
  induction xs generalizing seen with
  | nil => simp
  | cons x xs ih =>
    rw [List.foldl_cons, ih]
    by_cases hx : seen.contains x = true
    · simp only [hx, if_true, List.filter_cons, Bool.not_true, Bool.false_eq_true, if_false]
    · simp only [hx, List.filter_cons, Bool.not_false, if_true, Bool.false_eq_true, if_false,
        List.eraseDups_cons, List.filter_filter, List.append_assoc, List.singleton_append]
      congr 4
      funext y
      by_cases hy : y = x <;> simp [hy]

/-- The items without those that are there before are the first occurrences. -/
theorem firstOccurrences_eq_eraseDups [BEq α] [LawfulBEq α] (xs : List α) :
    firstOccurrences xs = xs.eraseDups := by
  rw [firstOccurrences, foldl_firstOccurrences]
  simp only [List.contains_nil, Bool.not_false, List.nil_append]
  rw [List.filter_eq_self.mpr fun _ _ => rfl]

/-! ### The invariants -/

namespace Scope

/-- Once all names of a scope are finished they are visible at every depth. -/
theorem visible_of_isComplete {s : Scope} (h : s.isComplete = true) (depth : Nat) :
    s.visible depth = s.names := by
  simp [visible, h]

/-- Below its own depth a clause shows the same names at every depth. -/
theorem visible_succ {s : Scope} {depth : Nat} (h : s.depth < depth) :
    s.visible (depth + 1) = s.visible depth := by
  simp [visible, h, Nat.lt_succ_of_lt h]

end Scope

namespace Walk

/-- One level deeper, the clauses around the walk show the names of `scope`. -/
structure Inside (w : Walk) (scope : List Ident) : Prop where
  depth_le : ∀ s ∈ w.scopes, s.depth ≤ w.depth
  shows : ∀ name, (w.scopes.any fun s => (s.visible (w.depth + 1)).contains name)
    = boundIn scope name

/-- Inside a scope with no clause left open at this depth: a query that is left here counts for
    nothing, and the names of `scope` are shown here as well. -/
structure Settled (w : Walk) (scope : List Ident) : Prop extends Inside w scope where
  complete : ∀ s ∈ w.scopes, s.depth = w.depth → s.isComplete = true

variable {w : Walk} {scope : List Ident}

/-- Nothing is counted where no clause is open. -/
theorem Settled.countFinished_eq (h : Settled w scope) :
    countFinished w.depth w.scopes = w.scopes := by
  cases hs : w.scopes with
  | nil => rfl
  | cons s ss =>
    have hc := h.complete s (by simp [hs])
    by_cases hd : s.depth = w.depth
    · simp [countFinished, hd, hc hd]
    · simp [countFinished, hd]

/-- In a settled place the bound names are those of the scope. -/
theorem Settled.binds_eq (h : Settled w scope) (name : String) :
    w.binds name = boundIn scope name := by
  rw [← h.shows name, binds, Bool.eq_iff_iff, List.any_eq_true, List.any_eq_true]
  refine exists_congr fun s => and_congr_right fun hs => ?_
  rcases Nat.lt_or_eq_of_le (h.depth_le s hs) with hlt | heq
  · rw [Scope.visible_succ hlt]
  · rw [Scope.visible_of_isComplete (h.complete s hs heq),
      Scope.visible_of_isComplete (h.complete s hs heq)]

end Walk
/-! ### One query -/

/-- What the uses read, in order. -/
def readTables (us : List TableUse) : List TableName := us.filterMap TableUse.read?

@[simp] theorem readTables_nil : readTables [] = [] := rfl

/-- Tables are read use by use. -/
theorem readTables_cons (u : TableUse) (us : List TableUse) :
    readTables (u :: us) = readTables [u] ++ readTables us :=
  List.filterMap_append (l := [u])

@[simp] theorem readTables_append (us vs : List TableUse) :
    readTables (us ++ vs) = readTables us ++ readTables vs := List.filterMap_append

namespace Walk

variable {w : Walk} {scope : List Ident}

/-- A walk with more tables. -/
def plus (w : Walk) (tables : List TableName) : Walk := { w with tables := w.tables ++ tables }

/-- Tables that are found do not disturb the scopes. -/
theorem Settled.plus (h : Settled w scope) (tables : List TableName) :
    Settled (w.plus tables) scope :=
  ⟨⟨h.depth_le, h.shows⟩, h.complete⟩

theorem plus_plus (w : Walk) (ts us : List TableName) :
    (w.plus ts).plus us = w.plus (ts ++ us) := by
  simp only [Walk.plus, List.append_assoc]

/-- Passing a table in a settled place adds it unless a visible name hides it. -/
theorem Settled.step_table (h : Settled w scope) (n : Name) :
    w.step (.table n) = w.plus (readTables [⟨scope, .relation n⟩]) := by
  have hread : readTables [⟨scope, .relation n⟩]
      = if !(TableName.ofName n).isQualified && boundIn scope (TableName.ofName n).table then []
        else [TableName.ofName n] := by
    simp only [readTables, List.filterMap_cons, List.filterMap_nil, TableUse.read?,
      TableUse.isHidden, TableRef.name, TableRef.isRelation, Bool.true_and]
    cases !(TableName.ofName n).isQualified && boundIn scope (TableName.ofName n).table <;> rfl
  rw [hread, step, h.binds_eq, Walk.plus]
  split <;> simp_all

/-- A query without a clause of its own settles where it begins. -/
theorem Inside.enter_nil (h : Inside w scope) (recursive : Bool) :
    Settled (w.step (.enter recursive [])) scope := by
  refine ⟨⟨fun s hs => ?_, fun name => ?_⟩, fun s hs heq => ?_⟩
  · exact Nat.le_succ_of_le (h.depth_le s hs)
  · rw [← h.shows name, Bool.eq_iff_iff, List.any_eq_true, List.any_eq_true]
    refine exists_congr fun s => and_congr_right fun hs => ?_
    have hlt : s.depth < w.depth + 1 := Nat.lt_succ_of_le (h.depth_le s hs)
    simp only [step, Scope.visible_succ hlt]
  · have hle := h.depth_le s hs
    simp only [step] at heq
    omega

/-- A walk at the depth of its innermost clause, some of whose queries have been left: the
    expressions of `done` are finished, those of `left` are still to come. -/
structure InClause (w : Walk) (scope : List Ident) (recursive : Bool) (done left : List Ident)
    (rest : List Scope) : Prop where
  scopes_eq : w.scopes = ⟨w.depth, lowerNames (done ++ left), recursive, done.length⟩ :: rest
  depth_lt : ∀ s ∈ rest, s.depth < w.depth
  shows : ∀ name, (rest.any fun s => (s.visible (w.depth + 1)).contains name) = boundIn scope name

variable {recursive : Bool} {done left : List Ident} {name : Ident} {rest : List Scope}

/-- No clause is deeper than the place. -/
theorem InClause.depth_le (h : InClause w scope recursive done left rest) :
    ∀ s ∈ w.scopes, s.depth ≤ w.depth := by
  intro s hs
  rw [h.scopes_eq, List.mem_cons] at hs
  rcases hs with rfl | hs
  · exact Nat.le_refl _
  · exact Nat.le_of_lt (h.depth_lt s hs)

/-- A clause whose query `name` comes next shows the finished names one level deeper, and this
    name if it is recursive. -/
theorem visible_next (depth : Nat) :
    (Scope.mk depth (lowerNames (done ++ name :: left)) recursive done.length).visible (depth + 1)
      = lowerNames (if recursive then done ++ [name] else done) := by
  have hshown : (Scope.mk depth (lowerNames (done ++ name :: left)) recursive done.length).visible
      (depth + 1) = (lowerNames (done ++ name :: left)).take
        (done.length + if recursive then 1 else 0) := by
    simp [Scope.visible, Scope.isComplete]
  rw [hshown]
  cases recursive
  · rw [lowerNames_append]
    exact List.take_left' (lowerNames_length done)
  · rw [show done ++ name :: left = (done ++ [name]) ++ left by simp, lowerNames_append]
    exact List.take_left' (by rw [lowerNames_length]; simp)

/-- Inside the next query of a clause the finished names are visible, and the query's own name
    if the clause is recursive. -/
theorem InClause.inside (h : InClause w scope recursive done (name :: left) rest) :
    Inside w (scope ++ if recursive then done ++ [name] else done) := by
  refine ⟨h.depth_le, fun x => ?_⟩
  rw [h.scopes_eq, List.any_cons, h.shows x, visible_next, boundIn_append, Bool.or_comm]
  rfl

/-- Leaving that query counts it. -/
theorem InClause.counted (h : InClause w scope recursive done (name :: left) rest)
    (tables : List TableName) :
    InClause ⟨w.depth, countFinished w.depth w.scopes, tables⟩ scope recursive
      (done ++ [name]) left rest := by
  refine ⟨?_, h.depth_lt, h.shows⟩
  simp [h.scopes_eq, countFinished, Scope.isComplete]

/-- Behind its clause a query is settled with all names of the clause. -/
theorem InClause.settled (h : InClause w scope recursive done [] rest) :
    Settled w (scope ++ done) := by
  have hcomplete :
      Scope.isComplete ⟨w.depth, lowerNames (done ++ []), recursive, done.length⟩ = true := by
    simp [Scope.isComplete]
  refine ⟨⟨h.depth_le, fun x => ?_⟩, fun s hs heq => ?_⟩
  · rw [h.scopes_eq, List.any_cons, h.shows x, Scope.visible_of_isComplete hcomplete,
      boundIn_append, Bool.or_comm, List.append_nil]
    rfl
  · rw [h.scopes_eq, List.mem_cons] at hs
    rcases hs with rfl | hs
    · exact hcomplete
    · exact absurd heq (Nat.ne_of_lt (h.depth_lt s hs))

/-- Entering a query that owns a clause opens the clause. -/
theorem Inside.enter_clause (h : Inside w scope) (recursive : Bool) (c : Cte) (cs : List Cte) :
    InClause (w.step (.enter recursive (boundNames (c :: cs)))) scope recursive []
      ((c :: cs).map Cte.name) w.scopes := by
  refine ⟨?_, fun s hs => ?_, fun name => ?_⟩
  · rw [List.nil_append, ← boundNames_eq_lowerNames]; rfl
  · exact Nat.lt_succ_of_le (h.depth_le s hs)
  · rw [← h.shows name, Bool.eq_iff_iff, List.any_eq_true, List.any_eq_true]
    refine exists_congr fun s => and_congr_right fun hs => ?_
    have hlt : s.depth < w.depth + 1 := Nat.lt_succ_of_le (h.depth_le s hs)
    simp only [step, Scope.visible_succ hlt]

/-- Leaving a query that owns no clause, or whose clause is the innermost one, gives the depth
    and the clauses around it back, and counts it there. -/
theorem step_leave {scopes : List Scope} (tables : List TableName) (depth : Nat)
    (h : ∀ s ∈ scopes, s.depth ≤ depth) (own : List Scope)
    (hown : own = scopes ∨ ∃ s, s.depth = depth + 1 ∧ own = s :: scopes) :
    (⟨depth + 1, own, tables⟩ : Walk).step .leave
      = ⟨depth, countFinished depth scopes, tables⟩ := by
  have hclose : closeScope (depth + 1) own = scopes := by
    rcases hown with rfl | ⟨s, hs, rfl⟩
    · cases own with
      | nil => rfl
      | cons s ss =>
        have hle := h s (by simp)
        have hne : s.depth ≠ depth + 1 := by omega
        simp [closeScope, hne]
    · simp [closeScope, hs]
  simp only [step, hclose, Nat.add_sub_cancel]

end Walk

open Walk

mutual

/-- **One query.** Behind a query the walk is at the depth where it was, the query counts in the
    clause around it, and the tables that the query reads are added. -/
theorem Sql.Query.walk_visits (q : Query) {w : Walk} {scope : List Ident} (h : Inside w scope) :
    q.visits.foldl step w
      = ⟨w.depth, countFinished w.depth w.scopes, w.tables ++ readTables (q.uses scope)⟩ := by
  match q with
  | .mk recursive ctes body tail locks =>
    rw [Query.visits, Query.uses, List.foldl_cons, List.foldl_append, List.foldl_append,
      List.foldl_append, List.foldl_cons, List.foldl_nil, readTables_append, readTables_append]
    match ctes with
    | [] =>
      -- no clause: the query is settled at once, and leaves the clauses as they were
      have hs : Settled (w.step (.enter recursive (boundNames []))) scope := h.enter_nil recursive
      rw [cteVisits, List.foldl_nil, body.walk_visits hs, queryVisits_walk tail (hs.plus _),
        Walk.plus_plus]
      rw [List.map_nil, List.append_nil, cteUses, readTables_nil, List.nil_append]
      exact step_leave _ _ h.depth_le _ (.inl rfl)
    | c :: cs =>
      -- the clause is read first and is then complete
      have hc := h.enter_clause recursive c cs
      obtain ⟨⟨depth', scopes', tables'⟩, hw', hdepth, htables, hdone⟩ :=
        cteVisits_walk (c :: cs) hc
      obtain rfl : depth' = w.depth + 1 := hdepth
      obtain rfl : tables' = w.tables ++ readTables (cteUses (scope ++ []) recursive (c :: cs)) :=
        htables
      rw [hw', body.walk_visits hdone.settled, queryVisits_walk tail (hdone.settled.plus _),
        Walk.plus_plus, Walk.plus]
      rw [step_leave _ _ h.depth_le _ (.inr ⟨_, rfl, hdone.scopes_eq⟩)]
      simp only [List.nil_append, List.append_nil, List.append_assoc]
  termination_by sizeOf q

/-- **One clause.** Behind its queries a clause has finished all of them. -/
theorem cteVisits_walk (cs : List Cte) {w : Walk} {scope done : List Ident} {recursive : Bool}
    {rest : List Scope} (h : InClause w scope recursive done (cs.map Cte.name) rest) :
    ∃ w', (cteVisits cs).foldl step w = w' ∧ w'.depth = w.depth ∧
      w'.tables = w.tables ++ readTables (cteUses (scope ++ done) recursive cs) ∧
      InClause w' scope recursive (done ++ cs.map Cte.name) [] rest := by
  match cs with
  | [] => exact ⟨w, rfl, rfl, by simp [cteUses], by simpa using h⟩
  | .mk name q :: cs =>
    have hnext := h.counted (w.tables ++ readTables (q.uses
      (scope ++ if recursive then done ++ [name] else done)))
    obtain ⟨w', hw', hdepth, htables, hdone⟩ := cteVisits_walk cs hnext
    refine ⟨w', ?_, hdepth, ?_, ?_⟩
    · rw [cteVisits, List.foldl_append, q.walk_visits h.inside]
      exact hw'
    · rw [htables, cteUses, readTables_append]
      cases recursive <;> simp [Cte.name, List.append_assoc]
    · simpa [List.append_assoc] using hdone
  termination_by sizeOf cs

/-- **One body.** In a settled place a body only adds the tables that it reads. -/
theorem Sql.Body.walk_visits (b : Body) {w : Walk} {scope : List Ident} (h : Settled w scope) :
    b.visits.foldl step w = w.plus (readTables (b.uses scope)) := by
  match b with
  | .select _ reads => exact readVisits_walk reads h
  | .values queries => exact queryVisits_walk queries h
  | .nested q =>
    rw [Body.visits, Body.uses, q.walk_visits h.toInside, h.countFinished_eq]
    rfl
  | .combined left right =>
    rw [Body.visits, Body.uses, List.foldl_append, left.walk_visits h,
      right.walk_visits (h.plus _), Walk.plus_plus, readTables_append]
  | .table schema table =>
    simp [Body.visits, Body.uses, readTables, TableUse.read?, TableRef.isRelation, Walk.plus]
  | .change _ reads => exact readVisits_walk reads h
  termination_by sizeOf b

/-- What a body reads, item by item. -/
theorem readVisits_walk (rs : List Read) {w : Walk} {scope : List Ident} (h : Settled w scope) :
    (readVisits rs).foldl step w = w.plus (readTables (readUses scope rs)) := by
  match rs with
  | [] => simp [readVisits, readUses, Walk.plus]
  | .relation name :: rs =>
    rw [readVisits, readUses, List.foldl_cons, h.step_table,
      readTables_cons ⟨scope, .relation name⟩ (readUses scope rs), ← Walk.plus_plus]
    exact readVisits_walk rs (h.plus _)
  | .query q :: rs =>
    rw [readVisits, readUses, List.foldl_append, q.walk_visits h.toInside, h.countFinished_eq,
      readTables_append, ← Walk.plus_plus]
    exact readVisits_walk rs (h.plus _)
  termination_by sizeOf rs

/-- Queries in a row. -/
theorem queryVisits_walk (qs : List Query) {w : Walk} {scope : List Ident} (h : Settled w scope) :
    (queryVisits qs).foldl step w = w.plus (readTables (queryUses scope qs)) := by
  match qs with
  | [] => simp [queryVisits, queryUses, Walk.plus]
  | q :: qs =>
    rw [queryVisits, queryUses, List.foldl_append, q.walk_visits h.toInside, h.countFinished_eq,
      readTables_append, ← Walk.plus_plus]
    exact queryVisits_walk qs (h.plus _)
  termination_by sizeOf qs

end

/-! ### Statements -/

/-- Outside of everything nothing is visible. -/
theorem Walk.start_settled : Settled .start [] :=
  ⟨⟨fun _ hs => absurd hs List.not_mem_nil, fun _ => rfl⟩, fun _ hs => absurd hs List.not_mem_nil⟩

/-- Along the whole walk exactly the tables that the uses read are passed, in order. -/
theorem Sql.Statement.walk_tables (s : Statement) :
    (s.visits.foldl step .start).tables = readTables s.uses := by
  cases s with
  | query q => rw [Statement.visits, q.walk_visits Walk.start_settled.toInside]; rfl
  | change kind reads =>
    rw [Statement.visits, readVisits_walk reads Walk.start_settled]; rfl

/-- **Lexical scope.** The tables of a statement are the tables that its uses read under lexical
    scope, from left to right, each at its first occurrence only. -/
theorem Sql.Statement.tables_eq_eraseDups (s : Statement) :
    s.tables = (s.uses.filterMap TableUse.read?).eraseDups := by
  rw [Statement.tables, firstOccurrences_eq_eraseDups, s.walk_tables, readTables]

end QueryGate
