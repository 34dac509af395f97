import QueryGate.Proofs.Acceptance

namespace QueryGate

open Sql Text

/-!
# Semicolons at the end of a statement

A gate may drop the semicolons at the end of a statement before it counts statements.  That is all
it does differently:

* `stripsTo_iff` — what is left of a text without them is the only part of it that no blank stands
  around, that no semicolon ends, and that only blanks and semicolons follow;
* `Gate.SameView` — two gates that differ in this setting alone, and two texts that they look at as
  the same statement;
* `Gate.SameView.checkShape` / `validate` / `prepareWithin` — the decisions are the same;
* `Rules.checkShape_of_semicolon` — any other semicolon makes the second or the third rule fail;
* `Gate.lenient_decides_stripped` — so the lenient gate decides on a text as the strict one does on
  the text without the semicolons at its end.
-/

/-! ### The part of a text that is left -/

/-- A text is blanks, this part, and a run of semicolons and blanks; the part has no blank at its
    ends and does not end in a semicolon. -/
structure StripsTo (cs part : List Char) : Prop extends Trimmed part where
  split : ∃ lead run, cs = lead ++ part ++ run ∧ (∀ c ∈ lead, isBlank c = true) ∧
    ∀ c ∈ run, (isBlank c || c == ';') = true
  unended : part.getLast? ≠ some ';'

/-- The stripped text is what a text strips to. -/
theorem stripsTo_withoutTrailingSemicolons (cs : List Char) :
    StripsTo cs (withoutTrailingSemicolons cs) := by
  refine ⟨withoutTrailingSemicolons_trimmed cs, ?_, ?_⟩
  · refine ⟨cs.takeWhile isBlank,
      ((trimStart cs).reverse.takeWhile fun c => isBlank c || c == ';').reverse, ?_, ?_, ?_⟩
    · rw [withoutTrailingSemicolons, List.append_assoc, ← List.reverse_append,
        List.takeWhile_append_dropWhile, List.reverse_reverse, trimStart,
        List.takeWhile_append_dropWhile]
    · exact fun c hc => List.all_eq_true.mp List.all_takeWhile c hc
    · exact fun c hc => List.all_eq_true.mp List.all_takeWhile c (List.mem_reverse.mp hc)
  · rw [withoutTrailingSemicolons, List.getLast?_reverse]
    intro hlast
    have hnot := List.head?_dropWhile_not (fun c => isBlank c || c == ';') (trimStart cs).reverse
    rw [hlast] at hnot
    simp at hnot

/-- **Stripping.** The part that is left is the only one of its kind. -/
theorem stripsTo_iff (cs part : List Char) :
    StripsTo cs part ↔ part = withoutTrailingSemicolons cs := by
  refine ⟨fun h => ?_, fun h => h ▸ stripsTo_withoutTrailingSemicolons cs⟩
  obtain ⟨lead, run, rfl, hlead, hrun⟩ := h.split
  have hrun' : ∀ c ∈ run.reverse, (isBlank c || c == ';') = true :=
    fun c hc => hrun c (List.mem_reverse.mp hc)
  rw [withoutTrailingSemicolons, List.append_assoc, trimStart, List.dropWhile_append_of_pos hlead]
  rcases List.eq_nil_or_concat part with rfl | ⟨front, last, rfl⟩
  · -- nothing but semicolons and blanks
    have hmore : ∀ c ∈ (run.dropWhile isBlank).reverse, (isBlank c || c == ';') = true :=
      fun c hc => hrun c ((List.dropWhile_suffix _).subset (List.mem_reverse.mp hc))
    rw [List.nil_append, List.dropWhile_eq_nil_iff.mpr hmore, List.reverse_nil]
  · rw [List.concat_eq_append] at h ⊢
    have hlast : (isBlank last || last == ';') = false := by
      have hblank : isBlank last = false := h.last last (by simp)
      have hsemicolon : last ≠ ';' := fun heq => h.unended (by simp [heq])
      simp [hblank, hsemicolon]
    have hstart : (front ++ [last] ++ run).dropWhile isBlank = front ++ [last] ++ run := by
      cases front with
      | nil => exact List.dropWhile_cons_of_neg (by simpa using (Bool.or_eq_false_iff.mp hlast).1)
      | cons c front =>
        have hc : isBlank c = false := h.head c rfl
        exact List.dropWhile_cons_of_neg (by simp [hc])
    rw [hstart, List.reverse_append, List.dropWhile_append_of_pos hrun', List.reverse_append,
      List.reverse_singleton, List.singleton_append, List.dropWhile_cons_of_neg (by simp [hlast]),
      List.reverse_cons, List.reverse_reverse]

/-! ### Gates that look at the same statement -/

namespace Gate

/-- The gate that drops semicolons at the end of a statement, or the one that does not. -/
def withTrailing (g : Gate) (allow : Bool) : Gate :=
  ⟨{ g.settings with allowTrailingSemicolon := allow }⟩

/-- The gate that drops semicolons at the end of a statement. -/
def lenient (g : Gate) : Gate := g.withTrailing true

/-- The gate that does not. -/
def strict (g : Gate) : Gate := g.withTrailing false

variable {g : Gate} {x y : Bool} {allowed : AllowList} {maxRows : Nat} {sql sql' : List Char}

/-- What two gates that differ in this setting alone look at in two texts is the same statement. -/
def SameView (g : Gate) (x y : Bool) (sql sql' : List Char) : Prop :=
  (g.withTrailing x).rules.normalized sql = (g.withTrailing y).rules.normalized sql'

/-- Two gates that see one text have one decision on its shape. -/
theorem SameView.rules_checkShape (h : SameView g x y sql sql') :
    (g.withTrailing x).rules.checkShape sql = (g.withTrailing y).rules.checkShape sql' := by
  rw [Rules.checkShape, Rules.checkShape, h]
  rfl

/-- And one decision on its tables. -/
theorem SameView.rules_check (h : SameView g x y sql sql') (allowed : AllowList) :
    (g.withTrailing x).rules.check allowed sql = (g.withTrailing y).rules.check allowed sql' := by
  rw [Rules.check, Rules.check, h.rules_checkShape]
  rfl

/-- The gate's answer on the shape follows its rules. -/
theorem SameView.checkShape (h : SameView g x y sql sql') :
    ((g.withTrailing x).checkShape sql).value = ((g.withTrailing y).checkShape sql').value := by
  rw [Gate.checkShape, Gate.checkShape, h.rules_checkShape]
  cases (g.withTrailing y).rules.checkShape sql' <;> rfl

theorem SameView.validate (h : SameView g x y sql sql') (allowed : AllowList) :
    ((g.withTrailing x).validate allowed sql).value
      = ((g.withTrailing y).validate allowed sql').value := by
  rw [Gate.validate, Gate.validate, h.rules_check]
  cases (g.withTrailing y).rules.check allowed sql' with
  | ok st => rfl
  | error r => cases r <;> rfl

/-- The capped text is looked at as it stands by both gates, so the second look at it is the same as
    well. -/
theorem SameView.prepareWithin (h : SameView g x y sql sql') (allowed : AllowList) (maxRows : Nat) :
    ((g.withTrailing x).prepareWithin allowed maxRows sql).value
      = ((g.withTrailing y).prepareWithin allowed maxRows sql').value := by
  rw [Gate.prepareWithin, Gate.prepareWithin, h.rules_check]
  cases hcheck : (g.withTrailing y).rules.check allowed sql' with
  | error r => cases r <;> rfl
  | ok st =>
    -- nothing is cut from the ends of the capped text
    have hready : Ready ((g.withTrailing y).capRows (max 1 maxRows) st).value :=
      RowLimit.enforce_ready _ _ _ (Rules.ready_of_check hcheck) (Rules.ne_nil_of_check hcheck)
    have hagain : SameView g x y ((g.withTrailing x).capRows (max 1 maxRows) st).value
        ((g.withTrailing y).capRows (max 1 maxRows) st).value :=
      (Rules.normalized_of_ready hready).trans (Rules.normalized_of_ready hready).symm
    have hexcess : (g.withTrailing x).excess? (max 1 maxRows) st
        = (g.withTrailing y).excess? (max 1 maxRows) st := rfl
    simp only [hexcess]
    cases (g.withTrailing y).excess? (max 1 maxRows) st with
    | some requested => rfl
    | none =>
      simp only [capAndRecheck, bind, Logged.andThen, hagain.rules_check]
      cases (g.withTrailing y).rules.check allowed
          ((g.withTrailing y).capRows (max 1 maxRows) st).value with
      | ok _ => rfl
      | error r => cases r <;> rfl

/-- The lenient gate looks at a text as the strict one does at what is left of it. -/
theorem sameView_stripped (g : Gate) (sql : List Char) :
    SameView g true false sql (withoutTrailingSemicolons sql) :=
  (trim_eq_self (withoutTrailingSemicolons_trimmed sql)).symm

/-- Where the strict gate sees no semicolon, the lenient one sees the same. -/
theorem sameView_of_not_mem (h : ';' ∉ g.strict.rules.normalized sql) :
    SameView g true false sql sql :=
  g.strict.rules.withoutTrailingSemicolons_of_normalized h

end Gate

/-! ### Other semicolons -/

namespace Rules

variable {r : Rules} {cs : List Char}

/-- A text that cannot be read and holds a semicolon breaks the second rule or the third. -/
theorem unreadable_of_semicolon (h : ';' ∈ cs) (e : LexicalError) :
    (unreadable cs e).reason ∈ [Reason.notSelect, .multiStatement] := by
  have hcontains : cs.contains ';' = true := by simpa using h
  rw [unreadable, hcontains]
  cases leadingWord? cs with
  | none => simp [Rejection.reason]
  | some word =>
    cases hword : startsQuery word with
    | true => simp [hword, Rejection.reason]
    | false => simp [hword, Rejection.reason]

/-- A semicolon in what the rules look at makes the second rule fail or the third. -/
theorem checkShape_of_semicolon (h : ';' ∈ r.normalized cs) :
    ∃ rejection, r.checkShape cs = .error rejection ∧
      rejection.reason ∈ [Reason.notSelect, .multiStatement] := by
  have hne : (r.normalized cs).isEmpty = false := by
    rw [List.isEmpty_eq_false_iff]
    exact List.ne_nil_of_mem h
  have hcontains : (r.normalized cs).contains ';' = true := by simpa using h
  rw [checkShape]
  simp only [hne, Bool.false_eq_true, if_false]
  cases tokens r.vocabulary.dialect (r.normalized cs) with
  | error e => exact ⟨_, rfl, unreadable_of_semicolon h e⟩
  | ok ts =>
    -- the second rule comes before the third
    cases hstart : checkStart ts with
    | ok _ =>
      refine ⟨.multiStatement, ?_, by decide⟩
      simp only [hstart, hcontains, if_true]
      rfl
    | error rejection =>
      refine ⟨rejection, ?_, ?_⟩
      · simp only [hstart]
        rfl
      · rw [checkStart] at hstart
        split at hstart
        · split at hstart
          · cases hstart
          · cases hstart
            exact List.mem_cons_self ..
        · cases hstart
          exact List.mem_cons_self ..

/-- A statement that fails on its shape fails as a whole. -/
theorem check_of_checkShape {rejection : Rejection} (h : r.checkShape cs = .error rejection)
    (allowed : AllowList) :
    r.check allowed cs = .error (.rejected rejection) := by
  rw [check, h]
  rfl

end Rules

namespace Gate

/-- A decision that rejects for the second or the third rule. -/
def RejectsSeparator (decision : Decision) : Prop :=
  ∃ rejection, decision = .rejected rejection ∧
    rejection.reason ∈ [Reason.notSelect, .multiStatement]

variable {g : Gate} {sql : List Char}

/-- A semicolon in what a gate looks at makes it reject the text, whatever it is asked. -/
theorem rejectsSeparator_of_semicolon (h : ';' ∈ g.rules.normalized sql) (allowed : AllowList)
    (maxRows : Nat) :
    RejectsSeparator (g.checkShape sql).value ∧ RejectsSeparator (g.validate allowed sql).value ∧
      RejectsSeparator (g.prepareWithin allowed maxRows sql).value := by
  obtain ⟨rejection, hshape, hreason⟩ := Rules.checkShape_of_semicolon h
  have hcheck := Rules.check_of_checkShape hshape allowed
  refine ⟨⟨rejection, ?_, hreason⟩, ⟨rejection, ?_, hreason⟩, ⟨rejection, ?_, hreason⟩⟩
  · rw [checkShape, hshape]
    rfl
  · rw [validate, hcheck]
    rfl
  · rw [prepareWithin, hcheck]
    rfl

/-- A semicolon before the run at the end of a text is seen by both gates. -/
theorem semicolon_mem_normalized (h : ';' ∈ withoutTrailingSemicolons sql) (x : Bool) :
    ';' ∈ (g.withTrailing x).rules.normalized sql := by
  by_contra hnone
  rw [(g.withTrailing x).rules.withoutTrailingSemicolons_of_normalized hnone] at h
  exact hnone h

/-- What the strict gate accepts holds no semicolon that it sees. -/
theorem sameView_of_accepted (allowed : AllowList) (maxRows : Nat) {out : List Char}
    (h : (g.strict.checkShape sql).value = .accepted out ∨
      (g.strict.validate allowed sql).value = .accepted out ∨
      (g.strict.prepareWithin allowed maxRows sql).value = .accepted out) :
    SameView g true false sql sql := by
  refine sameView_of_not_mem fun hmem => ?_
  obtain ⟨⟨r₁, h₁, -⟩, ⟨r₂, h₂, -⟩, ⟨r₃, h₃, -⟩⟩ :=
    rejectsSeparator_of_semicolon hmem allowed maxRows
  rw [h₁, h₂, h₃] at h
  obtain h | h | h := h <;> cases h

/-- **Semicolons at the end.** What is left of a text without them is the only part of its kind, and
    the lenient gate decides on the text as the strict one does on that part.  So what the strict
    gate accepts the lenient one accepts as the same text, and both reject a text with a semicolon
    in that part. -/
theorem lenient_decides_stripped (g : Gate) (allowed : AllowList) (maxRows : Nat)
    (sql : List Char) :
    (∀ part, StripsTo sql part ↔ part = withoutTrailingSemicolons sql) ∧
    ((g.lenient.checkShape sql).value
        = (g.strict.checkShape (withoutTrailingSemicolons sql)).value ∧
      (g.lenient.validate allowed sql).value
        = (g.strict.validate allowed (withoutTrailingSemicolons sql)).value ∧
      (g.lenient.prepareWithin allowed maxRows sql).value
        = (g.strict.prepareWithin allowed maxRows (withoutTrailingSemicolons sql)).value) ∧
    (∀ out,
      ((g.strict.checkShape sql).value = .accepted out →
        (g.lenient.checkShape sql).value = .accepted out) ∧
      ((g.strict.validate allowed sql).value = .accepted out →
        (g.lenient.validate allowed sql).value = .accepted out) ∧
      ((g.strict.prepareWithin allowed maxRows sql).value = .accepted out →
        (g.lenient.prepareWithin allowed maxRows sql).value = .accepted out)) ∧
    (';' ∈ withoutTrailingSemicolons sql → ∀ gate ∈ [g.lenient, g.strict],
      RejectsSeparator (gate.checkShape sql).value ∧
      RejectsSeparator (gate.validate allowed sql).value ∧
      RejectsSeparator (gate.prepareWithin allowed maxRows sql).value) := by
  refine ⟨stripsTo_iff sql, ?_, fun out => ⟨fun h => ?_, fun h => ?_, fun h => ?_⟩, ?_⟩
  · have hview := g.sameView_stripped sql
    exact ⟨hview.checkShape, hview.validate allowed, hview.prepareWithin allowed maxRows⟩
  · -- what the strict gate accepts looks the same to both
    have hview := sameView_of_accepted allowed maxRows (.inl h)
    exact hview.checkShape.trans h
  · have hview := sameView_of_accepted allowed maxRows (.inr (.inl h))
    exact (hview.validate allowed).trans h
  · have hview := sameView_of_accepted allowed maxRows (.inr (.inr h))
    exact (hview.prepareWithin allowed maxRows).trans h
  · intro hmem gate hgate
    obtain rfl | rfl : gate = g.lenient ∨ gate = g.strict := by simpa using hgate
    · exact rejectsSeparator_of_semicolon (semicolon_mem_normalized hmem true) allowed maxRows
    · exact rejectsSeparator_of_semicolon (semicolon_mem_normalized hmem false) allowed maxRows

end Gate

/-! ### Semicolons behind a query -/

/-- A query. -/
def plainQuery : List Char := "select * from t".toList

/-- `plainQuery` with a run of semicolons and blanks at its end. -/
def endedText : List Char := "select * from t ; ;\n".toList

/-- Two queries with a semicolon between them and one at the end. -/
def separatedText : List Char := "select * from t; select 1;".toList

/-- What the strict gate accepts without the run the lenient one accepts with it and without it, and
    both reject a semicolon between two queries. -/
theorem endedText_decided :
    (strictGate.strict.validate onlyT plainQuery).value = .accepted plainQuery ∧
      (strictGate.lenient.validate onlyT plainQuery).value = .accepted plainQuery ∧
      withoutTrailingSemicolons endedText = plainQuery ∧
      (strictGate.lenient.validate onlyT endedText).value = .accepted plainQuery ∧
      ';' ∈ withoutTrailingSemicolons separatedText ∧
      Gate.RejectsSeparator (strictGate.lenient.validate onlyT separatedText).value := by
  -- each of the three texts stands for one part of the theorem
  obtain ⟨-, -, hkept, -⟩ := strictGate.lenient_decides_stripped onlyT 1000 plainQuery
  obtain ⟨-, ⟨-, hended, -⟩, -⟩ := strictGate.lenient_decides_stripped onlyT 1000 endedText
  obtain ⟨-, -, -, hseparated⟩ := strictGate.lenient_decides_stripped onlyT 1000 separatedText
  have hstrict : (strictGate.strict.validate onlyT plainQuery).value = .accepted plainQuery := by
    decide +kernel
  have hstripped : withoutTrailingSemicolons endedText = plainQuery := by decide
  have hmem : ';' ∈ withoutTrailingSemicolons separatedText := by decide
  rw [hstripped] at hended
  exact ⟨hstrict, (hkept plainQuery).2.1 hstrict, hstripped, hended.trans hstrict, hmem,
    (hseparated hmem strictGate.lenient (List.mem_cons_self ..)).2.1⟩

end QueryGate
