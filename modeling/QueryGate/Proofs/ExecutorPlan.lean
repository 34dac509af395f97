import QueryGate.Executor
import QueryGate.Proofs.CappedText
import QueryGate.Proofs.RowStream

namespace QueryGate

open Sql

/-!
# What an executor sends

An executor has a plan for a statement that the gate accepts, and follows it up to the first request
that is not answered in full.  The plan is written out here with the texts that go to the database:

* `Executor.plan` — the requests in their order, and how much of each answer is read;
* `sendPlan_cases` — sending a list of requests ends behind the last one or at the first fault;
* `Executor.transact_eq_sendPlan` — a transaction sends the plan;
* `Executor.FollowsPlan` — what a run that follows a plan has sent and how it has ended;
* `Executor.execute_follows_plan` — every run follows the plan of the accepted text, and without an
  accepted text nothing is sent.
-/

/-! ### Plans -/

/-- A request of a plan, and of how many rows more than that nothing is read; without a number the
    answer is read to its end. -/
structure Sending where
  request : Request
  rows : Option Nat

namespace Sending

/-- A request whose answer is read to its end. -/
def whole (r : Request) : Sending := ⟨r, none⟩

/-- What goes wrong with an answer as far as it is read. -/
def fault? (q : Sending) (reply : Reply) : Option Fault :=
  match q.rows with
  | some n => if n < reply.rows.length then none else reply.fault
  | none => reply.fault

@[simp] theorem whole_request (r : Request) : (whole r).request = r := rfl

/-- A request that is sent at once fails where its reply has a fault. -/
@[simp] theorem whole_fault? (r : Request) (reply : Reply) : (whole r).fault? reply = reply.fault :=
  rfl

end Sending

/-- The requests of a plan. -/
def requests (qs : List Sending) : List Request := qs.map Sending.request

@[simp] theorem requests_nil : requests [] = [] := rfl

@[simp] theorem requests_cons (q : Sending) (qs : List Sending) :
    requests (q :: qs) = q.request :: requests qs := rfl

@[simp] theorem requests_append (ps qs : List Sending) :
    requests (ps ++ qs) = requests ps ++ requests qs := List.map_append

/-- The requests that run a statement: the transaction, its bounds, the statement, of which so many
    rows are kept, and the end of the transaction. -/
def Executor.plan (s : ExecutionSettings) (schema : Option String) (maxRows : Nat)
    (statement : String) : List Sending :=
  let timeout := toString s.timeoutMs ++ "ms"
  [Sending.whole ⟨"BEGIN", []⟩] ++
  (if s.readOnly then [Sending.whole ⟨"SET TRANSACTION READ ONLY", []⟩] else []) ++
  [Sending.whole ⟨"SELECT set_config('statement_timeout', $1, true)", [timeout]⟩] ++
  (match schema with
    | some name => [Sending.whole ⟨"SELECT set_config('search_path', quote_ident($1), true)", [name]⟩]
    | none => []) ++
  [Sending.mk ⟨statement, []⟩ (some maxRows), Sending.whole ⟨"ROLLBACK", []⟩]

/-- The texts that are sent whatever the statement, the settings and the schema are. -/
def Executor.fixedTexts : List String :=
  ["BEGIN", "SET TRANSACTION READ ONLY", "SELECT set_config('statement_timeout', $1, true)",
    "SELECT set_config('search_path', quote_ident($1), true)", "ROLLBACK"]

/-! ### Sending a plan -/

section Send

variable (db : Database) (sent : List Request)

/-- What goes wrong with a request of a plan once those before it are sent. -/
def faultAt (before : List Sending) (q : Sending) : Option Fault :=
  q.fault? (db (sent ++ requests before) q.request)

/-- Nothing goes wrong with any request. -/
def AllAnswered (qs : List Sending) : Prop :=
  ∀ before q after, qs = before ++ q :: after → faultAt db sent before q = none

/-- Sends requests in order, up to and including the first one with a fault. -/
def sendPlan (db : Database) (sent : List Request) : List Sending → List Request × Option Fault
  | [] => (sent, none)
  | q :: rest =>
    match q.fault? (db sent q.request) with
    | some f => (sent ++ [q.request], some f)
    | none => sendPlan db (sent ++ [q.request]) rest

variable {db sent}

/-- A plan of nothing has no fault. -/
theorem allAnswered_nil : AllAnswered db sent [] := by
  intro before q after h
  simp at h

/-- What is true of the head and of the rest behind it is true of all. -/
theorem AllAnswered.cons {q : Sending} {qs : List Sending}
    (hq : q.fault? (db sent q.request) = none) (hqs : AllAnswered db (sent ++ [q.request]) qs) :
    AllAnswered db sent (q :: qs) := by
  intro before p after h
  cases before with
  | nil =>
    obtain ⟨rfl, -⟩ := List.cons_eq_cons.mp h
    simpa [faultAt] using hq
  | cons b before =>
    obtain ⟨rfl, hrest⟩ := List.cons_eq_cons.mp h
    have hp := hqs before p after hrest
    simpa [faultAt] using hp

/-- A plan without a fault has none in its first part. -/
theorem AllAnswered.left {ps qs : List Sending} (h : AllAnswered db sent (ps ++ qs)) :
    AllAnswered db sent ps := by
  intro before q after hps
  apply h before q (after ++ qs)
  rw [hps, List.append_assoc, List.cons_append]

/-- A plan without a fault has none at its end. -/
theorem AllAnswered.last {ps : List Sending} {q : Sending} (h : AllAnswered db sent (ps ++ [q])) :
    faultAt db sent ps q = none := h ps q [] rfl

/-- **Sending a plan.** Either everything is sent and nothing goes wrong, or what is sent ends with
    the first request that something goes wrong with. -/
theorem sendPlan_cases (db : Database) (sent : List Request) (qs : List Sending) :
    (AllAnswered db sent qs ∧ sendPlan db sent qs = (sent ++ requests qs, none)) ∨
    ∃ before q after f, qs = before ++ q :: after ∧ AllAnswered db sent before ∧
      faultAt db sent before q = some f ∧
      sendPlan db sent qs = (sent ++ requests (before ++ [q]), some f) := by
  induction qs generalizing sent with
  | nil => exact .inl ⟨allAnswered_nil, by simp [sendPlan]⟩
  -- the first request is answered, or it is the first fault
  | cons q qs ih =>
    rw [sendPlan]
    cases hq : q.fault? (db sent q.request) with
    | some f =>
      refine .inr ⟨[], q, qs, f, rfl, allAnswered_nil, ?_, by simp⟩
      simpa [faultAt] using hq
    | none =>
      obtain ⟨hall, hsend⟩ | ⟨before, p, after, f, rfl, hall, hp, hsend⟩ := ih (sent ++ [q.request])
      · exact .inl ⟨hall.cons hq, by simp [hsend]⟩
      · refine .inr ⟨q :: before, p, after, f, rfl, hall.cons hq, ?_, by simp [hsend]⟩
        simpa [faultAt] using hp

/-- A plan in two parts: the second is sent if nothing goes wrong with the first. -/
theorem sendPlan_append (db : Database) (sent : List Request) (ps qs : List Sending) :
    sendPlan db sent (ps ++ qs) = match sendPlan db sent ps with
      | (sent, none) => sendPlan db sent qs
      | (sent, some f) => (sent, some f) := by
  induction ps generalizing sent with
  | nil => simp [sendPlan]
  | cons p ps ih =>
    rw [List.cons_append, sendPlan, sendPlan]
    cases p.fault? (db sent p.request) with
    | some f => rfl
    | none => exact ih _

/-- Requests whose answers are read to their ends. -/
theorem sendAll_eq_sendPlan (db : Database) (sent : List Request) (rs : List Request) :
    db.sendAll sent rs = sendPlan db sent (rs.map .whole) := by
  induction rs generalizing sent with
  | nil => rfl
  | cons r rs ih =>
    rw [Database.sendAll, List.map_cons, sendPlan, Sending.whole_request, Sending.whole_fault?]
    cases (db sent r).fault with
    | some f => rfl
    | none => exact ih _

end Send

/-! ### Transactions -/

namespace Executor

variable (s : ExecutionSettings) (schema : Option String) (maxRows : Nat) (statement : String)

/-- The plan is the opening, the statement and the rollback. -/
theorem plan_eq : plan s schema maxRows statement =
    (opening s schema).map Sending.whole ++
      [Sending.mk (.plain statement) (some maxRows), .whole rollback] := by
  cases schema <;> cases h : s.readOnly <;>
    simp [plan, opening, h, begin, readOnly, timeout, searchPath, rollback, Request.plain]

/-- Everything but the statement has a fixed text: settings and schema are parameters. -/
theorem mem_plan {r : Request} (h : r ∈ requests (plan s schema maxRows statement)) :
    r = ⟨statement, []⟩ ∨ r.sql ∈ fixedTexts := by
  cases schema <;> cases hread : s.readOnly <;>
    simp only [plan, hread, requests, List.map_append, List.mem_append, List.map_cons, List.map_nil,
      List.mem_cons, List.not_mem_nil, Sending.whole_request, if_true, or_false,
      Bool.false_eq_true, if_false] at h <;>
    grind [fixedTexts]

/-- A statement that differs from the fixed texts without parameters makes all requests of its plan
    different. -/
theorem plan_nodup (hbegin : statement ≠ "BEGIN") (hread : statement ≠ "SET TRANSACTION READ ONLY")
    (hrollback : statement ≠ "ROLLBACK") : (requests (plan s schema maxRows statement)).Nodup := by
  cases schema <;> cases hmode : s.readOnly <;>
    simp [plan, hmode, requests, Ne.symm hbegin, Ne.symm hread, hrollback]

/-- What is kept of a reply to the statement: its first rows. -/
def kept (statement : String) (maxRows : Nat) (reply : Reply) : QueryOutput where
  statement := statement
  columns := if reply.rows.isEmpty then [] else reply.columns
  rows := (reply.rows.take maxRows).map (rowJson reply.columns)
  truncated := decide (maxRows < reply.rows.length)

/-- The output is what is kept of the reply, if nothing goes wrong as far as it is read. -/
theorem output_eq (reply : Reply) : output statement maxRows reply =
    match (Sending.mk (.plain statement) (some maxRows)).fault? reply with
    | some f => .error f
    | none => .ok (kept statement maxRows reply) := by
  rw [output, receive_eq (.start maxRows reply.columns), List.nil_append, Sending.fault?]
  by_cases hmore : maxRows < reply.rows.length
  · simp only [if_pos hmore]
    rfl
  · simp only [if_neg hmore]
    cases reply.fault <;> rfl

/-- **A transaction sends its plan.** It ends with the first fault of the plan, and without one it
    gives what is kept of the reply to the statement. -/
theorem transact_eq_sendPlan (db : Database) (sent : List Request) :
    transact db sent s schema maxRows statement =
      match sendPlan db sent (plan s schema maxRows statement) with
      | (sent', some f) => (sent', .error f)
      | (sent', none) =>
        (sent', .ok (kept statement maxRows (db (sent ++ opening s schema) ⟨statement, []⟩))) := by
  have hrequests : requests ((opening s schema).map .whole) = opening s schema := by
    simp [requests, Function.comp_def]
  rw [transact, plan_eq, sendPlan_append, sendAll_eq_sendPlan]
  obtain ⟨-, hopen⟩ | ⟨_, _, _, f, -, -, -, hopen⟩ :=
    sendPlan_cases db sent ((opening s schema).map .whole)
  · rw [hopen, hrequests]
    simp only [sendPlan, output_eq, sendAll_eq_sendPlan, List.map_cons, List.map_nil]
    -- the statement is answered or not, and then the rollback
    cases (Sending.mk (.plain statement) (some maxRows)).fault?
        (db (sent ++ opening s schema) (.plain statement)) with
    | some f => rfl
    | none =>
      simp only [Sending.whole_request, Sending.whole_fault?]
      cases (db (sent ++ opening s schema ++ [Request.plain statement]) rollback).fault <;> rfl
  · rw [hopen]

/-! ### Runs -/

/-- The error of a run that ends with a fault. -/
def ending (s : ExecutionSettings) : Fault → ExecutionError
  | .failed error => .database error
  | .unanswered => .timeout (deadline s)

/-- The plan of an executor for an accepted statement. -/
def planFor (e : Executor) (schema : Option String) (statement : String) : List Sending :=
  plan e.settings schema e.gate.settings.rowCap statement

/-- What a run has sent of the plan for a statement, and how it has ended. -/
structure FollowsPlan (e : Executor) (db : Database) (sent : List Request)
    (schema : Option String) (statement : String) (done : List Sending) (run : Run) : Prop where
  /-- Behind what was sent before stands what was sent of the plan. -/
  sent_eq : run.sent = sent ++ requests done
  planned : done <+: e.planFor schema statement
  once : (requests done).Nodup
  fixed : ∀ r ∈ requests done, r = ⟨statement, []⟩ ∨ r.sql ∈ fixedTexts
  /-- Nothing goes wrong before the last request. -/
  answered : ∀ before q, done = before ++ [q] → AllAnswered db sent before
  /-- There is an output iff the whole plan was sent and nothing went wrong. -/
  output_iff : (∃ o, run.result = .ok o) ↔
    done = e.planFor schema statement ∧ AllAnswered db sent done
  /-- An output is never a part of what there was to keep. -/
  output_eq : ∀ o, run.result = .ok o → o = kept statement e.gate.settings.rowCap
    (db (sent ++ opening e.settings schema) ⟨statement, []⟩)
  /-- There is an error iff something went wrong with the last request, and it says what. -/
  error_iff : ∀ error, run.result = .error error ↔
    ∃ before q f, done = before ++ [q] ∧ faultAt db sent before q = some f ∧
      error = ending e.settings f

variable {s schema maxRows statement}
variable {e : Executor} {db : Database} {sent : List Request}

/-- A run whose requests are all answered follows the plan to its end. -/
theorem FollowsPlan.of_answered (hnodup : (requests (e.planFor schema statement)).Nodup)
    (hall : AllAnswered db sent (e.planFor schema statement)) :
    e.FollowsPlan db sent schema statement (e.planFor schema statement)
      ⟨sent ++ requests (e.planFor schema statement),
        .ok (kept statement e.gate.settings.rowCap
          (db (sent ++ opening e.settings schema) ⟨statement, []⟩))⟩ where
  sent_eq := rfl
  planned := List.prefix_rfl
  once := hnodup
  fixed _ := mem_plan _ _ _ _
  -- every request was answered, also those before any other
  answered before q hdone := by
    rw [hdone] at hall
    exact hall.left
  output_iff := ⟨fun _ => ⟨rfl, hall⟩, fun _ => ⟨_, rfl⟩⟩
  output_eq o ho := by
    cases ho
    rfl
  error_iff error := by
    refine ⟨nofun, ?_⟩
    rintro ⟨before, q, f, hdone, hq, -⟩
    -- the last request has no fault, so no error can come from it
    rw [hdone] at hall
    rw [hall.last] at hq
    cases hq

/-- A run follows the plan up to the first request that something goes wrong with. -/
theorem FollowsPlan.of_fault {before after : List Sending} {q : Sending} {f : Fault}
    (hnodup : (requests (e.planFor schema statement)).Nodup)
    (hplan : e.planFor schema statement = before ++ q :: after)
    (hall : AllAnswered db sent before) (hq : faultAt db sent before q = some f) :
    e.FollowsPlan db sent schema statement (before ++ [q])
      ⟨sent ++ requests (before ++ [q]), .error (ending e.settings f)⟩ := by
  -- what was sent is the plan up to the fault
  have hplanned : before ++ [q] <+: e.planFor schema statement :=
    ⟨after, by rw [hplan, List.append_assoc, List.singleton_append]⟩
  have hsub : (requests (before ++ [q])).Sublist (requests (e.planFor schema statement)) :=
    (hplanned.map Sending.request).sublist
  refine ⟨rfl, hplanned, hnodup.sublist hsub, ?_, ?_, ⟨nofun, ?_⟩, nofun, fun error => ⟨?_, ?_⟩⟩
  · intro r hr
    exact mem_plan _ _ _ _ (hsub.subset hr)
  · intro before' q' hdone
    -- the last request sent is the one that failed
    obtain ⟨rfl, -⟩ := List.append_inj' hdone rfl
    exact hall
  · rintro ⟨-, hdone⟩
    rw [hdone.last] at hq
    cases hq
  · intro h
    cases h
    exact ⟨before, q, f, rfl, hq, rfl⟩
  · rintro ⟨before', q', f', hdone, hq', rfl⟩
    obtain ⟨rfl, hlast⟩ := List.append_inj' hdone rfl
    obtain rfl := List.singleton_injective hlast
    rw [hq, Option.some.injEq] at hq'
    rw [hq']

/-- The run of a statement follows the plan for it. -/
theorem run_follows_plan (schema : Option String) (hbegin : statement ≠ "BEGIN")
    (hread : statement ≠ "SET TRANSACTION READ ONLY") (hrollback : statement ≠ "ROLLBACK") :
    ∃ done, e.FollowsPlan db sent schema statement done (e.run db sent schema statement).value := by
  have hnodup : (requests (e.planFor schema statement)).Nodup :=
    plan_nodup _ _ _ _ hbegin hread hrollback
  rw [run, transact_eq_sendPlan]
  obtain ⟨hall, hsend⟩ | ⟨before, q, after, f, hplan, hall, hq, hsend⟩ :=
    sendPlan_cases db sent (plan e.settings schema e.gate.settings.rowCap statement)
  · rw [hsend]
    exact ⟨_, .of_answered hnodup hall⟩
  · rw [hsend]
    have hfollows := FollowsPlan.of_fault hnodup hplan hall hq
    cases f with
    | failed error => exact ⟨_, hfollows⟩
    | unanswered => exact ⟨_, hfollows⟩

/-! ### The protocol -/

/-- A text that starts with another word than a query does starts no query. -/
theorem not_starts_of_step {d : Dialect} {c : Char} {cs R : List Char} {word : String}
    {ts : List Token} (hstep : Lexer.step d none c cs = .ok (.word word none, R))
    (hword : ((Token.word word none).isKeyword "select" ||
      (Token.word word none).isKeyword "with") = false) (hts : tokens d (c :: cs) = .ok ts) :
    Rules.checkStart ts ≠ .ok () := by
  intro hstart
  obtain ⟨q, hscan⟩ := (tokens_eq_ok_iff _ _ _).mp hts
  obtain ⟨t, ht, hkeyword⟩ := (Rules.checkStart_eq_ok_iff _).mp hstart
  cases hscan with
  | token hfirst hrest =>
    rw [hstep] at hfirst
    cases hfirst
    -- the word is significant, so that the check looks at it
    obtain rfl : Token.word word none = t := Option.some.inj ht
    rw [hword] at hkeyword
    cases hkeyword

/-- The texts that are sent without parameters start no query. -/
theorem start_of_plain (d : Dialect) {ts : List Token} : ∀ text ∈ ["BEGIN",
    "SET TRANSACTION READ ONLY", "ROLLBACK"], tokens d text.toList = .ok ts →
      Rules.checkStart ts ≠ .ok () := by
  -- each of the fixed texts begins with a word that starts no query
  have hbegin : Lexer.step d none 'B' "EGIN".toList = .ok (.word "BEGIN" none, []) := by
    cases d <;> rfl
  have hset : Lexer.step d none 'S' "ET TRANSACTION READ ONLY".toList
      = .ok (.word "SET" none, " TRANSACTION READ ONLY".toList) := by
    cases d <;> rfl
  have hrollback : Lexer.step d none 'R' "OLLBACK".toList = .ok (.word "ROLLBACK" none, []) := by
    cases d <;> rfl
  intro text htext hts
  simp only [List.mem_cons, List.not_mem_nil, or_false] at htext
  obtain rfl | rfl | rfl := htext
  · exact not_starts_of_step hbegin (by decide) hts
  · exact not_starts_of_step hset (by decide) hts
  · exact not_starts_of_step hrollback (by decide) hts

/-- An accepted text is none of them, since it starts a query. -/
theorem accepted_ne {g : Gate} {allowed : AllowList} {maxRows : Nat} {sql out : List Char}
    (h : (g.prepareWithin allowed maxRows sql).value = .accepted out) :
    ∀ text ∈ ["BEGIN", "SET TRANSACTION READ ONLY", "ROLLBACK"], String.ofList out ≠ text := by
  rintro _ htext rfl
  obtain ⟨st, -, -, -, hout⟩ := (g.prepareWithin_eq_accepted_iff _ _ _ _).mp h
  obtain ⟨-, hmeets⟩ := (g.rules.check_eq_ok_iff _ _ _).mp hout
  obtain ⟨ts, hts, hstart, -⟩ := hmeets.readable
  rw [← String.toList_ofList (l := out)] at hts
  exact start_of_plain _ _ htext hts hstart

/-- **The protocol of an executor.** Without an accepted text nothing is sent and the run ends with
    the decision of the gate.  With one the run follows the plan for it. -/
theorem execute_follows_plan (e : Executor) (db : Database) (sent : List Request)
    (allowed : AllowList) (schema : Option String) (sql : List Char) :
    match (e.gate.prepare allowed sql).value with
    | .rejected r =>
      (e.execute db sent allowed schema sql).value = ⟨sent, .error (.rejected r)⟩
    | .undecided => (e.execute db sent allowed schema sql).value = ⟨sent, .error .undecided⟩
    | .accepted statement => ∃ done, e.FollowsPlan db sent schema (String.ofList statement) done
        (e.execute db sent allowed schema sql).value := by
  simp only [execute, bind, Logged.andThen]
  cases hprepare : (e.gate.prepare allowed sql).value with
  | rejected r => rfl
  | undecided => rfl
  | accepted statement =>
    -- an accepted statement is neither of the texts that frame a transaction
    have hne := accepted_ne hprepare
    apply run_follows_plan
    · exact hne _ (by simp)
    · exact hne _ (by simp)
    · exact hne _ (by simp)

end Executor

end QueryGate
