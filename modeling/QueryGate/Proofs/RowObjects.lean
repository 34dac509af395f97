import Mathlib.Data.List.Dedup
import Mathlib.Data.String.Basic
import QueryGate.Proofs.DeliveredRows

namespace QueryGate

/-!
# Rows as objects

The object of a row has a member for each name of a column, so that columns with one name share a
member.  Which of them it stands for, and when none is lost, is said here:

* `Json.lookup_putMember` / `Json.mem_names_putMember` — one more member of an object;
* `Json.ofMembers_eq` / `Json.lookup_reverse_of_last` — of members with one name the last one counts;
* `Executor.ObjectOf` — what the members of a row's object are, as `rowJson_eq` says;
* `Executor.ObjectOf.holds_iff` — every column is held iff columns with one name agree;
* `Executor.execute_rows` — the same for every row of every output.
-/

/-! ### Members -/

namespace Json

variable {name : String} {v : Json} {ms : List (String × Json)}

/-- The first member is found by its name, and the others are found behind it. -/
theorem lookup_cons (m : String × Json) (ms : List (String × Json)) (n : String) :
    (m :: ms).lookup n = if n = m.1 then some m.2 else ms.lookup n := by
  rw [List.lookup_cons]
  by_cases hn : n = m.1
  · rw [if_pos hn, beq_iff_eq.mpr hn]
  · rw [if_neg hn, beq_eq_false_iff_ne.mpr hn]

/-- A member that is put is found by its name, and the others are found as before. -/
theorem lookup_putMember (name : String) (v : Json) (ms : List (String × Json)) (n : String) :
    (putMember name v ms).lookup n = if n = name then some v else ms.lookup n := by
  induction ms with
  | nil => exact lookup_cons (name, v) [] n
  | cons m ms ih =>
    obtain ⟨first, w⟩ := m
    rw [putMember]
    split
    · exact lookup_cons (name, v) _ n
    -- the name is put before, in the place of, or behind the first member
    · split
      · next heq =>
        subst heq
        rw [lookup_cons, lookup_cons]
        by_cases hn : n = name
        · rw [if_pos hn, if_pos hn]
        · rw [if_neg hn, if_neg hn, if_neg hn]
      · next hne =>
        rw [lookup_cons, lookup_cons, ih]
        -- the member put behind is another one
        by_cases hfirst : n = first
        · have hother : n ≠ name := fun hn => hne (hn.symm.trans hfirst)
          rw [if_pos hfirst, if_neg hother, if_pos hfirst]
        · rw [if_neg hfirst, if_neg hfirst]

/-- The names after one more member. -/
theorem mem_names_putMember (name : String) (v : Json) (ms : List (String × Json)) (n : String) :
    n ∈ (putMember name v ms).map Prod.fst ↔ n = name ∨ n ∈ ms.map Prod.fst := by
  induction ms with
  | nil => simp [putMember]
  | cons m ms ih =>
    obtain ⟨first, w⟩ := m
    rw [putMember]
    split
    · simp
    · split
      · next heq =>
        subst heq
        simp
      · simp only [List.map_cons, List.mem_cons, ih]
        exact or_left_comm

/-- Sorted names stay sorted. -/
theorem sorted_putMember (name : String) (v : Json) (h : (ms.map Prod.fst).Pairwise (· < ·)) :
    ((putMember name v ms).map Prod.fst).Pairwise (· < ·) := by
  induction ms with
  | nil => simp [putMember]
  | cons m ms ih =>
    obtain ⟨first, w⟩ := m
    obtain ⟨hfirst, hrest⟩ := List.pairwise_cons.mp h
    rw [putMember]
    split
    -- a smaller name is less than all others
    · next hlt =>
      refine List.pairwise_cons.mpr ⟨fun n hn => ?_, h⟩
      obtain rfl | hn := List.mem_cons.mp hn
      · exact hlt
      · exact lt_trans hlt (hfirst n hn)
    · next hnot =>
      split
      · next heq =>
        subst heq
        exact h
      · next hne =>
        -- the first name stays the least, also before the new one
        refine List.pairwise_cons.mpr ⟨fun n hn => ?_, ih hrest⟩
        obtain rfl | hn := (mem_names_putMember name v ms n).mp hn
        · exact lt_of_le_of_ne (not_lt.mp hnot) (Ne.symm hne)
        · exact hfirst n hn

/-- The members of an object: each name is found with what stands last under it. -/
theorem ofMembers_eq (members : List (String × Json)) : ∃ sorted, ofMembers members = .object sorted ∧
    (sorted.map Prod.fst).Pairwise (· < ·) ∧
    (∀ n, n ∈ sorted.map Prod.fst ↔ n ∈ members.map Prod.fst) ∧
    ∀ n, sorted.lookup n = members.reverse.lookup n := by
  refine ⟨_, rfl, ?_⟩
  induction members using List.reverseRecOn with
  | nil => simp
  | append_singleton members m ih =>
    obtain ⟨hsorted, hnames, hlookup⟩ := ih
    rw [List.foldl_append, List.foldl_cons, List.foldl_nil]
    refine ⟨sorted_putMember _ _ hsorted, fun n => ?_, fun n => ?_⟩
    · rw [mem_names_putMember, hnames, List.map_append, List.mem_append, or_comm]
      simp
    · rw [lookup_putMember, hlookup, List.reverse_append, List.reverse_singleton,
        List.singleton_append, lookup_cons]

/-- What stands last under a name is found from the end. -/
theorem lookup_reverse_of_last {j : Nat} (hj : ms[j]? = some (name, v))
    (hlast : ∀ k m, j < k → ms[k]? = some m → m.1 ≠ name) : ms.reverse.lookup name = some v := by
  obtain ⟨hlt, hget⟩ := List.getElem?_eq_some_iff.mp hj
  have hsplit : ms = ms.take j ++ (name, v) :: ms.drop (j + 1) := by
    rw [← hget, List.getElem_cons_drop, List.take_append_drop]
  rw [List.lookup_eq_some_iff]
  refine ⟨(ms.drop (j + 1)).reverse, (ms.take j).reverse, ?_, fun m hm => ?_⟩
  · conv_lhs => rw [hsplit]
    simp
  · obtain ⟨i, hi⟩ := List.mem_iff_getElem?.mp (List.mem_reverse.mp hm)
    rw [List.getElem?_drop] at hi
    have hne := hlast _ m (by omega) hi
    simpa using hne.symm

end Json

/-! ### Rows -/

namespace Executor

variable {columns : List String} {row : Vector Cell columns.length}
variable {members : List (String × Json)}

/-- What the members of a row's object are. -/
structure ObjectOf (columns : List String) (row : Vector Cell columns.length)
    (members : List (String × Json)) : Prop where
  /-- The names are sorted, and none stands twice. -/
  sorted : (members.map Prod.fst).Pairwise (· < ·)
  mem_names_iff : ∀ name, name ∈ members.map Prod.fst ↔ name ∈ columns
  /-- Under each name stands the value of the last column that has it. -/
  lookup_eq : ∀ j : Fin columns.length, (∀ k, j < k → columns.get k ≠ columns.get j) →
    members.lookup (columns.get j) = some (row.get j).json

/-- Every column is held under its name. -/
def HoldsColumns (columns : List String) (row : Vector Cell columns.length)
    (members : List (String × Json)) : Prop :=
  ∀ j, members.lookup (columns.get j) = some (row.get j).json

/-- Columns with one name have the same value. -/
def NamesAgree (columns : List String) (row : Vector Cell columns.length) : Prop :=
  ∀ j k, columns.get j = columns.get k → (row.get j).json = (row.get k).json

/-- A row as an object has these members. -/
theorem rowJson_eq (columns : List String) (row : Vector Cell columns.length) :
    ∃ members, rowJson columns row = .object members ∧ ObjectOf columns row members := by
  have hlength : columns.length ≤ (row.toList.map Cell.json).length := by simp
  -- the members as they are put, column by column
  have hget : ∀ j : Fin columns.length,
      (columns.zip (row.toList.map Cell.json))[j.val]? = some (columns.get j, (row.get j).json) := by
    intro j
    simp [Vector.get]
  obtain ⟨members, hobject, hsorted, hnames, hlookup⟩ :=
    Json.ofMembers_eq (columns.zip (row.toList.map Cell.json))
  refine ⟨members, hobject, hsorted, fun name => ?_, fun j hlast => ?_⟩
  · rw [hnames, List.map_fst_zip hlength]
  · rw [hlookup]
    -- the last member put under a name is the one that is found
    refine Json.lookup_reverse_of_last (hget j) fun k m hk hm => ?_
    have hlt : k < columns.length := by
      have hzip := (List.getElem?_eq_some_iff.mp hm).1
      simp at hzip
      omega
    rw [hget ⟨k, hlt⟩] at hm
    cases hm
    exact hlast ⟨k, hlt⟩ hk

/-- Every name of a column is the name of a last one. -/
theorem exists_last (columns : List String) (j : Fin columns.length) : ∃ last : Fin columns.length,
    columns.get last = columns.get j ∧ ∀ k, last < k → columns.get k ≠ columns.get last := by
  have hsome : (Finset.univ.filter fun k => columns.get k = columns.get j).Nonempty :=
    ⟨j, by simp⟩
  obtain ⟨last, hlast, hmax⟩ := Finset.exists_max_image _ id hsome
  have hname : columns.get last = columns.get j := (Finset.mem_filter.mp hlast).2
  refine ⟨last, hname, fun k hk hsame => ?_⟩
  have hle : k ≤ last := hmax k (Finset.mem_filter.mpr ⟨Finset.mem_univ k, hsame.trans hname⟩)
  exact absurd hle (not_le.mpr hk)

/-- An object has a member for each different name. -/
theorem ObjectOf.length_eq (h : ObjectOf columns row members) :
    members.length = columns.dedup.length := by
  have hnodup : (members.map Prod.fst).Nodup := h.sorted.imp ne_of_lt
  have hperm : (members.map Prod.fst).Perm columns.dedup :=
    (List.perm_ext_iff_of_nodup hnodup columns.nodup_dedup).mpr fun name => by
      rw [h.mem_names_iff, List.mem_dedup]
  rw [← hperm.length_eq, List.length_map]

/-- There are as many members as columns iff no name stands twice. -/
theorem ObjectOf.length_eq_iff (h : ObjectOf columns row members) :
    members.length = columns.length ↔ columns.Nodup := by
  rw [h.length_eq]
  refine ⟨fun hlength => ?_, fun hnodup => by rw [hnodup.dedup]⟩
  exact List.dedup_eq_self.mp (columns.dedup_sublist.eq_of_length hlength)

/-- Every column is held iff columns with one name have the same value. -/
theorem ObjectOf.holds_iff (h : ObjectOf columns row members) :
    HoldsColumns columns row members ↔ NamesAgree columns row := by
  constructor
  · intro hheld j k hname
    have hj := hheld j
    rw [hname, hheld k] at hj
    exact (Option.some.inj hj).symm
  · intro hagree j
    obtain ⟨last, hname, hlast⟩ := exists_last columns j
    rw [← hname, h.lookup_eq last hlast, hagree last j hname]

/-! ### Outputs -/

section Output

variable {e : Executor} {db : Database} {sent : List Request} {allowed : AllowList}
variable {schema : Option String} {sql : List Char} {o : QueryOutput}

/-- What the database answers to a statement that an executor sends. -/
def reply (e : Executor) (db : Database) (sent : List Request) (schema : Option String)
    (statement : String) : Reply :=
  db (sent ++ opening e.settings schema) (.plain statement)

/-- An output is what is kept of the answer to its statement. -/
theorem output_of_execute (h : (e.execute db sent allowed schema sql).value.result = .ok o) :
    o = kept o.statement e.gate.settings.rowCap (e.reply db sent schema o.statement) := by
  simp only [execute, bind, Logged.andThen] at h
  cases hprepare : (e.gate.prepare allowed sql).value with
  | rejected r =>
    rw [hprepare] at h
    cases h
  | undecided =>
    rw [hprepare] at h
    cases h
  | accepted statement =>
    rw [hprepare] at h
    -- an accepted statement is run, and what is run follows the plan
    have hne := accepted_ne hprepare
    have hfollows : ∃ done, e.FollowsPlan db sent schema (String.ofList statement) done
        (e.run db sent schema (String.ofList statement)).value :=
      run_follows_plan schema (hne _ (by simp)) (hne _ (by simp)) (hne _ (by simp))
    obtain ⟨done, hfollows⟩ := hfollows
    exact hfollows.output_eq o h ▸ rfl

/-- A row that is given out is the object of a row of the answer. -/
theorem row_of_kept {statement : String} {maxRows i : Nat} {reply : Reply} {json : Json}
    (h : (kept statement maxRows reply).rows[i]? = some json) :
    (kept statement maxRows reply).columns = reply.columns ∧
      ∃ row, reply.rows[i]? = some row ∧ json = rowJson reply.columns row := by
  rw [kept, List.getElem?_map, Option.map_eq_some_iff] at h
  obtain ⟨row, htake, rfl⟩ := h
  have hrow : reply.rows[i]? = some row := by
    rw [List.getElem?_take] at htake
    split at htake
    · exact htake
    · cases htake
  refine ⟨?_, row, hrow, rfl⟩
  have hsome : reply.rows ≠ [] := List.ne_nil_of_mem (List.mem_of_getElem? hrow)
  rw [kept, List.isEmpty_eq_false_iff.mpr hsome]
  rfl

/-- **The rows of an output.** Each is the object of a row of the answer.  Under the name of a column
    it holds the value of the last column with that name; so it holds every column iff columns with
    one name agree, and has a member for each column iff no name stands twice. -/
theorem execute_rows (h : (e.execute db sent allowed schema sql).value.result = .ok o) {i : Nat}
    {json : Json} (hjson : o.rows[i]? = some json) :
    let reply := e.reply db sent schema o.statement
    o.columns = reply.columns ∧
      ∃ row members, reply.rows[i]? = some row ∧ json = .object members ∧
        ObjectOf reply.columns row members ∧
        (HoldsColumns reply.columns row members ↔ NamesAgree reply.columns row) ∧
        (members.length = o.columns.length ↔ o.columns.Nodup) := by
  intro reply
  -- the rows of the output are those that were kept from the reply
  have hkept := output_of_execute h
  have hcolumns : o.columns = (kept o.statement e.gate.settings.rowCap reply).columns :=
    congrArg QueryOutput.columns hkept
  rw [hkept] at hjson
  obtain ⟨hnames, row, hrow, rfl⟩ := row_of_kept hjson
  obtain ⟨members, hobject, hmembers⟩ := rowJson_eq _ row
  rw [hnames] at hcolumns
  refine ⟨hcolumns, row, members, hrow, hobject, hmembers, hmembers.holds_iff, ?_⟩
  rw [hcolumns]
  exact hmembers.length_eq_iff

end Output

end Executor

/-! ### Two columns with one name -/

/-- A database that answers a text with one row of these columns and everything else without a row. -/
def oneRow (columns : List String) (row : Vector Cell columns.length) (text : String) : Database :=
  fun _ r => if r.sql = text then ⟨columns, [row], none⟩ else .done

/-- A limited query gives the row out. -/
private theorem execute_limitedText (columns : List String) (row : Vector Cell columns.length) :
    (twoRows.execute (oneRow columns row (String.ofList limitedText)) [] onlyT none
      limitedText).value.result =
        .ok ⟨String.ofList limitedText, columns, [Executor.rowJson columns row], false⟩ := by
  have hcomplete : ∀ before r,
      (oneRow columns row (String.ofList limitedText) before r).fault = none := by
    intro before r
    rw [oneRow]
    split <;> rfl
  have hanswered := Executor.allAnswered_of_complete hcomplete []
    (twoRows.planFor none (String.ofList limitedText))
  rw [Executor.execute_of_answered prepare_limitedText hanswered, oneRow, Request.plain, if_pos rfl]
  rfl

/-- Two names that differ are both held. -/
theorem limitedText_rows : ∃ o, (twoRows.execute (oneRow ["id", "name"] #v[.int 1, .text "x"]
      (String.ofList limitedText)) [] onlyT none limitedText).value.result = .ok o ∧
    o.rows[0]? = some (Executor.rowJson ["id", "name"] #v[.int 1, .text "x"]) ∧
    ∃ members, Executor.rowJson ["id", "name"] #v[.int 1, .text "x"] = .object members ∧
      members.length = o.columns.length := by
  have hrun := execute_limitedText ["id", "name"] #v[.int 1, .text "x"]
  obtain ⟨-, row, members, -, hobject, -, -, hlength⟩ := Executor.execute_rows hrun (i := 0) rfl
  exact ⟨_, hrun, rfl, members, hobject, hlength.mpr (by decide)⟩

/-- Of two columns with one name the first is lost. -/
theorem limitedText_column_lost : (twoRows.execute (oneRow ["id", "id"] #v[.int 1, .int 2]
      (String.ofList limitedText)) [] onlyT none limitedText).value.result =
    .ok ⟨String.ofList limitedText, ["id", "id"], [.object [("id", .int 2)]], false⟩ := by
  have hobject : Executor.rowJson ["id", "id"] #v[.int 1, .int 2] = .object [("id", .int 2)] := by
    simp [Executor.rowJson, Json.ofMembers, Json.putMember, Cell.json]
  rw [execute_limitedText, hobject]

end QueryGate
