namespace QueryGate

/-!
# Outcomes of steps in a row

Checks and readers run one step after another and stop at the first failure.
-/

/-- Two steps in a row give a result iff both do. -/
theorem bind_eq_ok_iff {x : Except ε α} {f : α → Except ε β} {b : β} :
    (x >>= f) = .ok b ↔ ∃ a, x = .ok a ∧ f a = .ok b := by
  cases x with
  | error e => exact ⟨nofun, fun ⟨_, h, _⟩ => nomatch h⟩
  | ok a =>
    refine ⟨fun h => ⟨a, rfl, h⟩, fun ⟨a', ha', h⟩ => ?_⟩
    cases ha'
    exact h

end QueryGate
