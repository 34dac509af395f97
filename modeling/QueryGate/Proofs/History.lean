import Mathlib.Data.List.Basic
import Mathlib.Data.List.Induction
import QueryGate.Clock

namespace QueryGate

/-!
# Histories

What was done, step after step.  Whether a step counts may depend on everything that was done before
it, so a kind of step is a property of a history and a step:

* `LastStep` — the last step of a kind in a history, and what was done before it;
* `lastStep_concat` — what is the last one after one more step;
* `timeOf` — the time that a history takes, some of whose steps advance a clock;
* `shownAfter` — what the clock shows after it.
-/

/-! ### Steps of a kind -/

variable {σ : Type} {history past : List σ} {st w : σ} {W : List σ → σ → Prop}

/-- A step in a history of one step more is that step, or a step of the history. -/
theorem concat_eq_append_cons_iff {after : List σ} : history ++ [st] = past ++ w :: after ↔
    (past = history ∧ w = st ∧ after = []) ∨
    ∃ after', after = after' ++ [st] ∧ history = past ++ w :: after' := by
  constructor
  · intro h
    obtain rfl | ⟨after', st', rfl⟩ := List.eq_nil_or_concat' after
    · obtain ⟨rfl, heq⟩ := List.append_inj' h rfl
      exact .inl ⟨rfl, (List.singleton_injective heq).symm, rfl⟩
    · rw [← List.cons_append, ← List.append_assoc] at h
      obtain ⟨hhistory, heq⟩ := List.append_inj' h rfl
      exact .inr ⟨after', by rw [List.singleton_injective heq], hhistory⟩
  · rintro (⟨rfl, rfl, rfl⟩ | ⟨after', rfl, rfl⟩)
    · rfl
    · simp

/-- A step of a kind that was done in a history, before it `past` and behind it none of the kind. -/
def LastStep (W : List σ → σ → Prop) (history past : List σ) (st : σ) : Prop :=
  W past st ∧ ∃ after, history = past ++ st :: after ∧
    ∀ mid st' rest, after = mid ++ st' :: rest → ¬W (past ++ st :: mid) st'

/-- An empty history has no last step. -/
theorem not_lastStep_nil : ¬LastStep W [] past st := by
  rintro ⟨-, after, h, -⟩
  simp at h

/-- **One more step.** It is the last one if it is of the kind, and otherwise the last one stays. -/
theorem lastStep_concat : LastStep W (history ++ [st]) past w ↔
    (W history st ∧ past = history ∧ w = st) ∨ (¬W history st ∧ LastStep W history past w) := by
  constructor
  · rintro ⟨hw, after, hsplit, hlast⟩
    obtain ⟨rfl, rfl, rfl⟩ | ⟨after', rfl, rfl⟩ := concat_eq_append_cons_iff.mp hsplit
    · exact .inl ⟨hw, rfl, rfl⟩
    · refine .inr ⟨hlast after' st [] rfl, hw, after', rfl, ?_⟩
      rintro mid st' rest rfl
      exact hlast mid st' (rest ++ [st]) (by simp)
  · rintro (⟨hw, rfl, rfl⟩ | ⟨hnot, hw, after, rfl, hlast⟩)
    · exact ⟨hw, [], rfl, by simp⟩
    · refine ⟨hw, after ++ [st], by simp, ?_⟩
      intro mid st' rest hsplit
      obtain ⟨rfl, rfl, rfl⟩ | ⟨rest', rfl, rfl⟩ := concat_eq_append_cons_iff.mp hsplit
      · exact hnot
      · exact hlast mid st' rest' rfl

/-! ### Time -/

/-- A length of time, in nanoseconds, whose seconds fit 64 bits. -/
def Countable (ns : Nat) : Prop := ns / 1000000000 < Nat.pow 2 64

/-- A time, in nanoseconds, that a clock can show: its seconds fit 63 bits. -/
def Showable (ns : Nat) : Prop := ns / 1000000000 < Nat.pow 2 63

instance (ns : Nat) : Decidable (Countable ns) := Nat.decLt _ _

instance (ns : Nat) : Decidable (Showable ns) := Nat.decLt _ _

/-- What ends earlier can be shown too. -/
theorem Showable.of_le {m n : Nat} (h : Showable n) (hmn : m ≤ n) : Showable m :=
  Nat.lt_of_le_of_lt (Nat.div_le_div_right hmn) h

/-- The check of a moment in other words. -/
theorem Moment.fits_iff {m : Moment} : m.fits = true ↔ Showable m.ns := decide_eq_true_iff

/-- The check of a duration in other words. -/
theorem Duration.fits_iff {d : Duration} : d.fits = true ↔ Countable d.ns := decide_eq_true_iff

/-- The clock shows the moment at which it was made and the time that it has run since, if the sum can
    be shown. -/
theorem Clock.now?_eq (c : Clock) : c.now? =
    if Showable (c.made.ns + c.elapsed.ns) then some ⟨c.made.ns + c.elapsed.ns⟩ else none := by
  simp only [now?, Moment.after?, Moment.fits_iff]

/-- The clock moves if the time that it has run can still be counted. -/
theorem Clock.advance?_eq (c : Clock) (d : Duration) : c.advance? d =
    if Countable (c.elapsed.ns + d.ns) then some { c with elapsed := ⟨c.elapsed.ns + d.ns⟩ }
    else none := by
  simp only [advance?, Duration.fits_iff]

/-- The time that has passed after a step: it stays where the step takes none, or takes it beyond what can be
    counted. -/
def tick (time : Nat) : Option Duration → Nat
  | some d => if Countable (time + d.ns) then time + d.ns else time
  | none => time

/-- Time does not run backwards. -/
theorem le_tick (time : Nat) (d : Option Duration) : time ≤ tick time d := by
  cases d with
  | none => exact Nat.le_refl _
  | some d =>
    rw [tick]
    split
    · exact Nat.le_add_right _ _
    · exact Nat.le_refl _

/-- The time that a history takes, given how much of it each step takes. -/
def timeOf (takes : σ → Option Duration) (history : List σ) : Nat :=
  history.foldl (fun time st => tick time (takes st)) 0

variable {takes : σ → Option Duration}

@[simp] theorem timeOf_concat : timeOf takes (history ++ [st]) = tick (timeOf takes history) (takes st) := by
  simp [timeOf]

/-- Time does not run backwards. -/
theorem timeOf_le (past after : List σ) : timeOf takes past ≤ timeOf takes (past ++ after) := by
  induction after using List.reverseRecOn with
  | nil => simp
  | append_singleton after st ih =>
    rw [← List.append_assoc, timeOf_concat]
    exact Nat.le_trans ih (le_tick _ _)

/-- What a clock shows after a history that was made at a moment before it. -/
def shownAfter (takes : σ → Option Duration) (made : Moment) (history : List σ) : Nat :=
  made.ns + timeOf takes history

/-- How long ago something was does not depend on when the clock was made. -/
theorem shownAfter_sub_shownAfter (takes : σ → Option Duration) (made : Moment)
    (history past : List σ) : shownAfter takes made history - shownAfter takes made past =
      timeOf takes history - timeOf takes past :=
  Nat.add_sub_add_left _ _ _

/-- A step that takes no time leaves what the clock shows. -/
theorem shownAfter_concat (made : Moment) (history : List σ) (h : takes st = none) :
    shownAfter takes made (history ++ [st]) = shownAfter takes made history := by
  rw [shownAfter, timeOf_concat, h, tick, shownAfter]

/-- The last step of a kind is not later than the history ends. -/
theorem LastStep.shownAfter_le (h : LastStep W history past st) (takes : σ → Option Duration)
    (made : Moment) : shownAfter takes made past ≤ shownAfter takes made history := by
  obtain ⟨-, after, rfl, -⟩ := h
  exact Nat.add_le_add_left (timeOf_le _ _) _

end QueryGate
