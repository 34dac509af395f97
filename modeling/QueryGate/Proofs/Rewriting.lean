import QueryGate.Proofs.Location
import QueryGate.Proofs.Trimmed

namespace QueryGate

open Sql Text

/-!
# The rewrites of a row limit

`RowLimit.enforce` leaves a statement alone, appends to it, wraps it or puts another number in the
place of one of its own, depending on the cap that it finds.

* `digits` — a count as it is written, and `readCount?_digits`, that it is read back;
* `RowLimit.enforce_absent` / `enforce_unbounded` / `enforce_of_count` / `enforce_clamped` — the
  rewrite for each cap;
* `RowLimit.enforce_ready` — the rewrite of a trimmed text without semicolons is such a text
  again.
-/

/-! ### Counts as text -/

/-- A count in decimal digits. -/
def digits (n : Nat) : List Char := (toString n).toList

/-- The decimal digits of a number are those of the library. -/
theorem digits_eq_toDigits (n : Nat) : digits n = Nat.toDigits 10 n := by
  rw [digits, Nat.toString_eq_repr, Nat.toList_repr]

theorem digits_ne_nil (n : Nat) : digits n ≠ [] := by
  rw [digits_eq_toDigits]
  exact Nat.toDigits_ne_nil

theorem isDigit_of_mem_digits {n : Nat} {c : Char} (h : c ∈ digits n) : c.isDigit = true := by
  rw [digits_eq_toDigits] at h
  exact Nat.isDigit_of_mem_toDigits (by decide) (by decide) h

/-- Digits read back as their number. -/
theorem decimalValue_digits (n : Nat) : decimalValue (digits n) = n := by
  rw [digits_eq_toDigits, decimalValue]
  simpa only [Nat.ofDigitChars_eq_foldl, Nat.mul_comm] using @Nat.ofDigitChars_ten_toDigits n

/-- A count that fits is read back from its digits. -/
theorem readCount?_digits {n : Nat} (h : n < countBound) :
    readCount? (String.ofList (digits n)) = some n := by
  have hall : (digits n).all Char.isDigit = true :=
    List.all_eq_true.mpr fun c hc => isDigit_of_mem_digits hc
  simp only [readCount?, String.toList_ofList, decimalValue_digits, hall, decide_eq_true h,
    Bool.and_true]
  simp [digits_ne_nil]

/-- A count that a text spells is below the bound of counts. -/
theorem lt_countBound_of_readCount? {text : String} {n : Nat} (h : readCount? text = some n) :
    n < countBound := by
  unfold readCount? at h
  dsimp only at h
  split at h
  · next hcond =>
    cases h
    simp only [Bool.and_eq_true, decide_eq_true_eq] at hcond
    exact hcond.2
  · cases h

/-- A digit is no blank. -/
theorem isBlank_of_isDigit {c : Char} (h : c.isDigit = true) : isBlank c = false := by
  rw [Char.isDigit_iff_toNat] at h
  have hlo : 48 ≤ c.toNat := h.1
  have hhi : c.toNat ≤ 57 := h.2
  simp only [isBlank]
  rw [if_pos (by omega)]
  simp only [Bool.or_eq_false_iff, beq_eq_false_iff_ne, Bool.and_eq_false_iff, decide_eq_false_iff_not]
  omega

/-! ### Texts that the rules leave as they are -/

/-- A trimmed text without semicolons. -/
structure Ready (cs : List Char) : Prop extends Trimmed cs where
  unseparated : ';' ∉ cs

/-- A statement that is ready has nothing to strip. -/
theorem Ready.withoutTrailingSemicolons_eq {cs : List Char} (h : Ready cs) :
    withoutTrailingSemicolons cs = cs :=
  withoutTrailingSemicolons_eq_self h.toTrimmed h.unseparated

/-- A text that starts and ends with a text of its own that is not blank there is ready if it
    holds no semicolon. -/
theorem ready_of_ends {cs : List Char} (front back : List Char) (hsep : ';' ∉ cs) (hfront : front <+: cs)
    (hback : back <:+ cs) (hhead : ∃ c ∈ front.head?, isBlank c = false)
    (hlast : ∃ c ∈ back.getLast?, isBlank c = false) : Ready cs := by
  obtain ⟨more, rfl⟩ := hfront
  obtain ⟨less, hless⟩ := hback
  obtain ⟨c, hc, hcb⟩ := hhead
  obtain ⟨e, he, heb⟩ := hlast
  refine ⟨⟨fun x hx => ?_, fun x hx => ?_⟩, hsep⟩
  · rw [List.head?_append, Option.mem_def.mp hc, Option.some_or, Option.mem_some] at hx
    exact hx ▸ hcb
  · rw [← hless, List.getLast?_append, Option.mem_def.mp he, Option.some_or, Option.mem_some] at hx
    exact hx ▸ heb

/-- The digits of a count start and end with no blank. -/
theorem digits_ends (n : Nat) : (∃ c ∈ (digits n).head?, isBlank c = false) ∧
    ∃ c ∈ (digits n).getLast?, isBlank c = false := by
  have hne := digits_ne_nil n
  refine ⟨⟨(digits n).head hne, List.head?_eq_some_head hne, ?_⟩,
    ⟨(digits n).getLast hne, List.getLast?_eq_some_getLast hne, ?_⟩⟩
  · exact isBlank_of_isDigit (isDigit_of_mem_digits (List.head_mem hne))
  · exact isBlank_of_isDigit (isDigit_of_mem_digits (List.getLast_mem hne))

theorem semicolon_not_mem_digits (n : Nat) : ';' ∉ digits n := fun h =>
  absurd (isDigit_of_mem_digits h) (by decide)

namespace Ready

variable {cs : List Char}

/-- The first character of a text that is ready. -/
theorem head_ends (h : Ready cs) (hne : cs ≠ []) : ∃ c ∈ cs.head?, isBlank c = false :=
  ⟨cs.head hne, List.head?_eq_some_head hne, h.head _ (List.head?_eq_some_head hne)⟩

/-- Digits in the place of a part of a text leave it ready. -/
theorem replace {a w b : List Char} (h : Ready (a ++ w ++ b)) (n : Nat) :
    Ready (a ++ digits n ++ b) := by
  have hsep := h.unseparated
  simp only [List.mem_append, not_or] at hsep
  refine ready_of_ends (a ++ digits n) (digits n ++ b) ?_ ⟨b, rfl⟩
    ⟨a, (List.append_assoc a (digits n) b).symm⟩ ?_ ?_
  · simp only [List.mem_append, not_or]
    exact ⟨⟨hsep.1.1, semicolon_not_mem_digits n⟩, hsep.2⟩
  · cases a with
    | nil => exact (digits_ends n).1
    | cons c a => exact ⟨c, rfl, h.head c rfl⟩
  · cases hb : b.getLast? with
    | none => simpa [List.getLast?_append, hb] using (digits_ends n).2
    | some c =>
      refine ⟨c, by simp [List.getLast?_append, hb], h.last c ?_⟩
      simp [List.getLast?_append, hb]

end Ready

/-! ### One rewrite for each cap -/

namespace RowLimit

variable {d : Dialect} {policy : LimitPolicy} {m : Nat} {st : List Char} {ts : List Token}

/-- A statement without a limit gets one behind it. -/
theorem enforce_absent (h : Ready st) (hts : tokens d st = .ok ts) (hcap : findCap d ts = .absent) :
    (enforce d policy m st).value = append st (max 1 m) (endsInLineComment ts) := by
  obtain ⟨placed, hscan, rfl⟩ := (tokens_eq_ok_iff_scan d st ts).mp hts
  simp only [enforce, h.withoutTrailingSemicolons_eq, hscan, hcap]
  rfl

/-- A statement whose limit has no bound is wrapped. -/
theorem enforce_unbounded (h : Ready st) (hts : tokens d st = .ok ts)
    (hcap : findCap d ts = .unbounded) :
    (enforce d policy m st).value = wrap st (max 1 m) (endsInLineComment ts) := by
  obtain ⟨placed, hscan, rfl⟩ := (tokens_eq_ok_iff_scan d st ts).mp hts
  simp only [enforce, h.withoutTrailingSemicolons_eq, hscan, hcap]
  rfl

/-- A count stays where it is not above the maximum, and under the policies that do not clamp. -/
theorem enforce_of_count {n : Nat} {position : Option Nat} {cs : List Char}
    (hts : tokens d (withoutTrailingSemicolons cs) = .ok ts)
    (hcap : findCap d ts = .rows n position) (hkeep : policy = .clamp → n ≤ max 1 m) :
    enforce d policy m cs = pure (withoutTrailingSemicolons cs) := by
  obtain ⟨placed, hscan, rfl⟩ := (tokens_eq_ok_iff_scan d _ ts).mp hts
  have hnot : ¬(policy = .clamp ∧ n > max 1 m) := fun ⟨hp, hn⟩ => absurd (hkeep hp) (by omega)
  simp only [enforce, hscan, hcap]
  cases position with
  | none => rfl
  | some position => simp only [if_neg hnot]

/-- A statement with a count stays, unless clamping lowers the count. -/
theorem enforce_kept {n : Nat} {position : Option Nat} (h : Ready st) (hts : tokens d st = .ok ts)
    (hcap : findCap d ts = .rows n position) (hkeep : policy = .clamp → n ≤ max 1 m) :
    (enforce d policy m st).value = st := by
  have hst := h.withoutTrailingSemicolons_eq
  rw [enforce_of_count (hst.symm ▸ hts) hcap hkeep, hst]
  rfl

/-- A number token in the place where it stands is replaced by the maximum. -/
theorem enforce_clamped {n i : Nat} {placed : List Placed} {written : String} {span : Span}
    {out : List Char} (h : Ready st) (hscan : scan d st = .ok placed)
    (hcap : findCap d (placed.map Placed.token) = .rows n (some i)) (hclamp : policy = .clamp)
    (hn : max 1 m < n) (hnum : numberAt? placed i = some (written, span))
    (hout : replaceNumber? st span written (max 1 m) = some out) :
    (enforce d policy m st).value = out := by
  have hcond : policy = .clamp ∧ n > max 1 m := ⟨hclamp, hn⟩
  simp only [enforce, h.withoutTrailingSemicolons_eq, hscan, hcap, if_pos hcond, hnum,
    Option.bind_eq_bind, Option.bind_some, hout]
  rfl

/-- What is left and right of a replaced number. -/
theorem replaceNumber?_eq_some {span : Span} {written : String} {count : Nat} {out : List Char}
    (h : replaceNumber? st span written count = some out) :
    ∃ before behind, st = before ++ written.toList ++ behind ∧
      out = before ++ digits count ++ behind := by
  simp only [replaceNumber?, Option.bind_eq_bind, Option.bind_eq_some_iff, Prod.exists] at h
  obtain ⟨start, stop, -, before, rest, hbefore, number, behind, hnumber, h⟩ := h
  obtain ⟨rfl, -⟩ := (splitAtByte?_eq_some_iff _ _ _ _).mp hbefore
  obtain ⟨rfl, -⟩ := (splitAtByte?_eq_some_iff _ _ _ _).mp hnumber
  split at h
  · next hw =>
    cases h
    exact ⟨before, behind, by rw [hw, List.append_assoc], rfl⟩
  · cases h

/-- An appended limit ends in digits. -/
theorem append_ready (h : Ready st) (hne : st ≠ []) (inComment : Bool) :
    Ready (append st m inComment) := by
  have hfront : st <+: append st m inComment := by
    refine ⟨(if inComment then ['\n'] else [' ']) ++ "LIMIT ".toList ++ digits m, ?_⟩
    simp only [append, digits, List.append_assoc]
  refine ready_of_ends st (digits m) ?_ hfront ⟨_, rfl⟩ (h.head_ends hne) (digits_ends m).2
  simp only [append, List.mem_append, not_or]
  refine ⟨⟨⟨h.unseparated, ?_⟩, by decide⟩, semicolon_not_mem_digits m⟩
  cases inComment <;> decide

/-- What a wrapped statement stands behind. -/
def wrapFront : List Char := "SELECT * FROM (".toList

/-- What stands between a wrapped statement and the digits of its limit. -/
def wrapBack : List Char := ") AS guarded_result LIMIT ".toList

/-- Wrapping: a front, the statement, a back and the digits. -/
theorem wrap_eq (st : List Char) (m : Nat) (inComment : Bool) :
    wrap st m inComment = wrapFront ++ (st ++ lineEnd inComment ++ wrapBack ++ digits m) := by
  change wrapFront ++ st ++ lineEnd inComment ++ wrapBack ++ digits m = _
  simp only [List.append_assoc]

/-- A wrapped statement starts with a word and ends in digits. -/
theorem wrap_ready (h : Ready st) (inComment : Bool) : Ready (wrap st m inComment) := by
  have hfront : ';' ∉ wrapFront := by decide
  have hback : ';' ∉ wrapBack := by decide
  rw [wrap_eq]
  refine ready_of_ends wrapFront (digits m) ?_ ⟨_, rfl⟩ ?_ ⟨'S', rfl, by decide⟩ (digits_ends m).2
  · simp only [lineEnd, List.mem_append, not_or]
    refine ⟨hfront, ⟨⟨h.unseparated, ?_⟩, hback⟩, semicolon_not_mem_digits m⟩
    cases inComment <;> decide
  · exact (List.suffix_append _ _).trans (List.suffix_append _ _)

/-- **Readiness.** The rewrite of a ready text is ready. -/
theorem enforce_ready (d : Dialect) (policy : LimitPolicy) (m : Nat) (h : Ready st)
    (hne : st ≠ []) : Ready (enforce d policy m st).value := by
  simp only [enforce, h.withoutTrailingSemicolons_eq]
  split
  · exact wrap_ready h true
  · split
    · exact append_ready h hne _
    · exact wrap_ready h _
    · exact h
    · split
      · split
        · next placed hscan _ _ _ _ _ _ clamped hclamped =>
          simp only [Option.bind_eq_bind, Option.bind_eq_some_iff, Prod.exists] at hclamped
          obtain ⟨written, span, -, hreplace⟩ := hclamped
          obtain ⟨before, behind, rfl, rfl⟩ := replaceNumber?_eq_some hreplace
          exact h.replace _
        · exact wrap_ready h _
      · exact h

end RowLimit

end QueryGate
