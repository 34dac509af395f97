import QueryGate.Proofs.StableCaps
import QueryGate.Proofs.TokenPlaces

namespace QueryGate

open Sql

/-!
# What a log tells

A gate never quotes a statement in its log.  More than that: what it logs is settled by a few things
that say nothing of the text, so two statements that share them have the same log.

* `Gate.Stage` / `Gate.stage` — the stage at which a gate is done with a statement;
* `RowLimit.clampedCount?` — the count that a rewrite replaces;
* `RowLimit.enforce_events` — a rewrite of a text that can be read reports that count and nothing
  else, the fault of a text that cannot be read least of all;
* `Gate.logAt` — a log without a statement, and `Gate.prepareWithin_events`, that it is the log;
* `Gate.log_independent` — two statements that end alike are logged alike.
-/

/-- The reason of a decision, if it is a rejection. -/
def Decision.reason? : Decision → Option Reason
  | .rejected r => some r.reason
  | .accepted _ | .undecided => none

/-! ### Rewriting -/

namespace RowLimit

/-- The count that the rewrite of a text replaces by the maximum. -/
def clampedCount? (d : Dialect) (policy : LimitPolicy) (m : Nat) (cs : List Char) : Option Nat :=
  if policy = .clamp then
    match explicitLimit d cs with
    | .rows n => if max 1 m < n then some n else none
    | .absent | .unbounded => none
  else none

variable {d : Dialect} {st : List Char} {ts : List Token}

/-- **Silence.** The rewrite of a text that can be read reports a count that it replaces and nothing
    else. -/
theorem enforce_events (policy : LimitPolicy) (m : Nat) (h : Ready st) (hts : tokens d st = .ok ts) :
    (enforce d policy m st).events =
      (clampedCount? d policy m st).toList.map fun n => clampedEvent n (max 1 m) := by
  have hlimit := explicitLimit_of_ready h hts
  have hst := h.withoutTrailingSemicolons_eq
  obtain ⟨placed, hscan, rfl⟩ := (tokens_eq_ok_iff_scan d st ts).mp hts
  rw [clampedCount?, hlimit]
  cases hcap : findCap d (placed.map Placed.token) with
  | absent =>
    simp only [enforce, hst, hscan, hcap, RowCap.limit, ite_self]
    rfl
  | unbounded =>
    simp only [enforce, hst, hscan, hcap, RowCap.limit, ite_self]
    rfl
  | rows n position =>
    simp only [RowCap.limit]
    -- only a count that is lowered is logged
    by_cases hclamp : policy = .clamp ∧ max 1 m < n
    · obtain ⟨rfl, hn⟩ := hclamp
      rw [if_pos rfl, if_pos hn]
      cases position with
      | none =>
        -- a count that is not written is one, which no cap lowers
        have hone := findCap_unwritten hcap
        omega
      | some i =>
        rw [← hst] at hscan
        obtain ⟨_, _, _, -, -, hclamped⟩ := enforce_clamp_eq hscan hcap hn
        rw [hclamped]
        rfl
    · have hkeep : policy = .clamp → n ≤ max 1 m := fun hp => by
        by_contra hn
        exact hclamp ⟨hp, by omega⟩
      have hnone : (if policy = .clamp then if max 1 m < n then some n else none else none) = none := by
        split
        · next hp => exact if_neg (Nat.not_lt.mpr (hkeep hp))
        · rfl
      rw [hnone, enforce_of_count (by rw [hst]; exact hts) hcap hkeep]
      rfl

end RowLimit

/-! ### Deciding -/

namespace Gate

/-- The stages of preparing a statement. -/
inductive Stage where
  | validation
  | limitCheck
  | revalidation
  | acceptance
deriving DecidableEq, Repr

variable (g : Gate) (allowed : AllowList) (maxRows : Nat) (sql : List Char)

/-- The stage at which a gate is done with a statement. -/
def stage : Stage :=
  match g.rules.check allowed sql with
  | .error _ => .validation
  | .ok st =>
    match g.excess? (max 1 maxRows) st with
    | some _ => .limitCheck
    | none =>
      match g.rules.check allowed (g.capRows (max 1 maxRows) st).value with
      | .error _ => .revalidation
      | .ok _ => .acceptance

/-- The count that is replaced in a statement that the rules let through. -/
def clampedCount? : Option Nat :=
  match g.rules.check allowed sql with
  | .error _ => none
  | .ok st => RowLimit.clampedCount? g.dialect g.settings.limitPolicy (max 1 maxRows) st

/-- What is logged of a rejection with this reason, of a statement with so many bytes. -/
def rejectionAt (bytes : Nat) (reason : Reason) : Event :=
  ⟨.info, "SQL statement rejected",
    [("reason", .text reason.code), ("dialect", .text g.dialect.name), ("statement_len", .count bytes)]⟩

/-- What is logged of a capped statement that is rejected for this reason. -/
def recheckAt (reason : Reason) : Event :=
  ⟨.warn, "Row-capped statement failed re-validation",
    [("reason", .text reason.code), ("dialect", .text g.dialect.name)]⟩

/-- The log of a statement of so many bytes that a gate is done with at a stage, for a reason if it is
    rejected, and in which a count is replaced or none. -/
def logAt (bytes : Nat) (clamped : Option Nat) (reason : Option Reason) : Stage → List Event
  | .validation | .limitCheck => reason.toList.map (g.rejectionAt bytes)
  | .revalidation => clamped.toList.map (RowLimit.clampedEvent · (max 1 maxRows)) ++
      reason.toList.flatMap fun reason => [g.recheckAt reason, g.rejectionAt bytes reason]
  | .acceptance => clamped.toList.map (RowLimit.clampedEvent · (max 1 maxRows)) ++
      [g.acceptedEvent (max 1 maxRows) allowed]

variable {g allowed maxRows sql} {st : List Char}

/-- A refusal logs its reason, if it has one, and the length of the text. -/
theorem refuse_events (r : Refusal) : (g.refuse sql r).events =
    (g.refuse sql r).value.reason?.toList.map
      (g.rejectionAt (String.ofList sql).utf8ByteSize) := by
  cases r <;> rfl

/-- What capping reports of a statement that the rules let through. -/
theorem capRows_events (hcheck : g.rules.check allowed sql = .ok st) (maxRows : Nat) :
    (g.capRows (max 1 maxRows) st).events = (g.clampedCount? allowed maxRows sql).toList.map
      (RowLimit.clampedEvent · (max 1 maxRows)) := by
  obtain ⟨-, hmeets⟩ := (g.rules.check_eq_ok_iff _ _ _).mp hcheck
  obtain ⟨ts, hts, -⟩ := hmeets.readable
  have hevents := RowLimit.enforce_events g.settings.limitPolicy (max 1 maxRows)
    (Rules.ready_of_check hcheck) hts
  have hmax : max 1 (max 1 maxRows) = max 1 maxRows := by omega
  rw [hmax] at hevents
  simp only [clampedCount?, hcheck]
  exact hevents

/-- **The log.** What a gate logs of a statement depends on the statement only by its bytes, the count
    that is replaced, the reason of a rejection and the stage. -/
theorem prepareWithin_events (g : Gate) (allowed : AllowList) (maxRows : Nat) (sql : List Char) :
    (g.prepareWithin allowed maxRows sql).events =
      g.logAt allowed maxRows (String.ofList sql).utf8ByteSize (g.clampedCount? allowed maxRows sql)
        (g.prepareWithin allowed maxRows sql).value.reason? (g.stage allowed maxRows sql) := by
  rw [prepareWithin, stage]
  -- the branches of the gate, each with its own events
  cases hcheck : g.rules.check allowed sql with
  | error r => exact refuse_events r
  | ok st =>
    cases hexcess : g.excess? (max 1 maxRows) st with
    | some requested =>
      simp only [hexcess]
      rfl
    | none =>
      have hcapped := capRows_events hcheck maxRows
      simp only [hexcess, capAndRecheck, bind, Logged.andThen, hcapped]
      cases g.rules.check allowed (g.capRows (max 1 maxRows) st).value with
      | error r =>
        cases r with
        | rejected r => rfl
        | undecided => rfl
      | ok _ => rfl

/-- **Independence.** Let two statements have as many bytes.  If a gate is done with both at the same
    stage, rejects both for the same reason or none of them, and replaces the same count in both or
    none, then it logs the same of both.  Of a validation and of a check of the shape it logs the same
    if the reasons are the same. -/
theorem log_independent (g : Gate) (allowed : AllowList) (maxRows : Nat) {sql sql' : List Char}
    (hbytes : (String.ofList sql).utf8ByteSize = (String.ofList sql').utf8ByteSize) :
    (g.stage allowed maxRows sql = g.stage allowed maxRows sql' →
      (g.prepareWithin allowed maxRows sql).value.reason? =
        (g.prepareWithin allowed maxRows sql').value.reason? →
      g.clampedCount? allowed maxRows sql = g.clampedCount? allowed maxRows sql' →
      (g.prepareWithin allowed maxRows sql).events = (g.prepareWithin allowed maxRows sql').events) ∧
    ((g.validate allowed sql).value.reason? = (g.validate allowed sql').value.reason? →
      (g.validate allowed sql).events = (g.validate allowed sql').events) ∧
    ((g.checkShape sql).value.reason? = (g.checkShape sql').value.reason? →
      (g.checkShape sql).events = (g.checkShape sql').events) := by
  -- a decision is logged by its reason and by the length of the text
  have hvalidate : ∀ sql, (g.validate allowed sql).events =
      (g.validate allowed sql).value.reason?.toList.map
        (g.rejectionAt (String.ofList sql).utf8ByteSize) := by
    intro sql
    rw [validate]
    cases g.rules.check allowed sql with
    | error r => exact refuse_events r
    | ok st => rfl
  have hshape : ∀ sql, (g.checkShape sql).events = (g.checkShape sql).value.reason?.toList.map
      (g.rejectionAt (String.ofList sql).utf8ByteSize) := by
    intro sql
    rw [checkShape]
    cases g.rules.checkShape sql with
    | error r => rfl
    | ok st => rfl
  refine ⟨fun hstage hreason hclamped => ?_, fun hreason => ?_, fun hreason => ?_⟩
  · rw [prepareWithin_events, prepareWithin_events, hbytes, hstage, hreason, hclamped]
  · rw [hvalidate, hvalidate, hbytes, hreason]
  · rw [hshape, hshape, hbytes, hreason]

end Gate

/-! ### A literal that is not logged -/

/-- A gate for PostgreSQL that clamps limits. -/
def clampGate : Gate := ⟨{ GateSettings.default with limitPolicy := .clamp }⟩

/-- A statement with a literal, of as many bytes as `limitedText` and with the same limit. -/
def literalText : List Char := "select'x'limit 9".toList

/-- The two statements are accepted, and the same is logged of both. -/
theorem literalText_logged_alike :
    (String.ofList limitedText).utf8ByteSize = (String.ofList literalText).utf8ByteSize ∧
    clampGate.stage onlyT 5 limitedText = .acceptance ∧
    clampGate.stage onlyT 5 literalText = .acceptance ∧
    clampGate.clampedCount? onlyT 5 limitedText = some 9 ∧
    clampGate.clampedCount? onlyT 5 literalText = some 9 ∧
    (clampGate.prepareWithin onlyT 5 limitedText).events =
      (clampGate.prepareWithin onlyT 5 literalText).events ∧
    (clampGate.validate onlyT limitedText).events = (clampGate.validate onlyT literalText).events ∧
    (clampGate.checkShape limitedText).events = (clampGate.checkShape literalText).events := by
  have hbytes : (String.ofList limitedText).utf8ByteSize = (String.ofList literalText).utf8ByteSize := by
    rw [utf8ByteSize_ofList, utf8ByteSize_ofList]
    decide
  have hstage : clampGate.stage onlyT 5 limitedText = .acceptance := by decide +kernel
  have hstage' : clampGate.stage onlyT 5 literalText = .acceptance := by decide +kernel
  have hclamped : clampGate.clampedCount? onlyT 5 limitedText = some 9 := by decide +kernel
  have hclamped' : clampGate.clampedCount? onlyT 5 literalText = some 9 := by decide +kernel
  obtain ⟨hprepare, hvalidate, hshape⟩ := Gate.log_independent clampGate onlyT 5 hbytes
  exact ⟨hbytes, hstage, hstage', hclamped, hclamped',
    hprepare (hstage.trans hstage'.symm) (by decide +kernel) (hclamped.trans hclamped'.symm),
    hvalidate (by decide +kernel), hshape (by decide +kernel)⟩

end QueryGate
