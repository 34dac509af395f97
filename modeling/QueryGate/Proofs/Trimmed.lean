import Mathlib
import QueryGate.Rules

namespace QueryGate

/-!
# Texts without blanks at their ends

The rules look at a statement after `Rules.normalized` has cut its ends, and every rewrite of the
statement cuts them again:

* `Text.Trimmed` — a text with no blank at either end;
* `Rules.normalized_trimmed` — what is looked at is such a text;
* `Rules.normalized_eq_self` / `withoutTrailingSemicolons_eq_self` — cutting such a text changes
  nothing, as long as it holds no semicolon.
-/

namespace Text

/-- What holds of the end of a text is decided there, and not for all characters. -/
instance (priority := 2000) decidableForallEnd (p : Char → Prop) [DecidablePred p]
    (end_ : Option Char) : Decidable (∀ c ∈ end_, p c) :=
  Option.decidableForallMem end_

/-- No blank stands at either end. -/
structure Trimmed (cs : List Char) : Prop where
  head : ∀ c ∈ cs.head?, isBlank c = false
  last : ∀ c ∈ cs.getLast?, isBlank c = false

/-- A list whose first item fails the test loses nothing. -/
private theorem dropWhile_eq_self {p : Char → Bool} {cs : List Char}
    (h : ∀ c ∈ cs.head?, p c = false) : cs.dropWhile p = cs := by
  cases cs with
  | nil => rfl
  | cons c cs => rw [List.dropWhile_cons, h c rfl]; rfl

/-- What is left of a list starts with an item that fails the test. -/
private theorem head_dropWhile {p : Char → Bool} {cs : List Char} :
    ∀ c ∈ (cs.dropWhile p).head?, p c = false := by
  intro c hc
  have h := List.head?_dropWhile_not p cs
  rw [Option.mem_def.mp hc] at h
  simpa using h

/-- Items that pass the test are dropped at the end of a list; what is left is a start of it. -/
private theorem dropEnd_isPrefix (p : Char → Bool) (cs : List Char) :
    (cs.reverse.dropWhile p).reverse <+: cs := by
  have h := List.reverse_prefix.mpr (List.dropWhile_suffix p (l := cs.reverse))
  rwa [List.reverse_reverse] at h

/-- Cutting a text at both ends leaves it trimmed. -/
private theorem trimmed_dropEnd {p : Char → Bool} (hp : ∀ c, isBlank c = true → p c = true)
    (cs : List Char) : Trimmed ((trimStart cs).reverse.dropWhile p).reverse := by
  constructor
  · intro c hc
    have hpre := dropEnd_isPrefix p (trimStart cs)
    obtain ⟨rest, hrest⟩ := hpre
    have hstart : c ∈ (trimStart cs).head? := by
      rw [← hrest, List.head?_append, hc]
      rfl
    exact head_dropWhile c hstart
  · intro c hc
    rw [List.getLast?_reverse] at hc
    have h := head_dropWhile c hc
    cases hb : isBlank c with
    | false => rfl
    | true => rw [hp c hb] at h; exact h

theorem trim_trimmed (cs : List Char) : Trimmed (trim cs) := trimmed_dropEnd (fun _ h => h) cs

/-- Cutting a trimmed text at its end, where the test passes for no other item than a blank. -/
private theorem dropEnd_eq_self {p : Char → Bool} {cs : List Char} (h : Trimmed cs)
    (hp : ∀ c ∈ cs, p c = isBlank c) : ((trimStart cs).reverse.dropWhile p).reverse = cs := by
  rw [trimStart, dropWhile_eq_self h.head, dropWhile_eq_self, List.reverse_reverse]
  intro c hc
  rw [List.head?_reverse] at hc
  rw [hp c (List.mem_of_getLast? hc)]
  exact h.last c hc

/-- What is trimmed is not changed by trimming. -/
theorem trim_eq_self {cs : List Char} (h : Trimmed cs) : trim cs = cs :=
  dropEnd_eq_self h fun _ _ => rfl

/-- Trimming at the start does not see the end, if something is left. -/
theorem trimStart_append {cs : List Char} (h : trimStart cs ≠ []) (more : List Char) :
    trimStart (cs ++ more) = trimStart cs ++ more := by
  rw [trimStart] at h
  rw [trimStart, trimStart, List.dropWhile_append, if_neg (by rwa [List.isEmpty_iff])]

/-- What is cut at the end of a text is blank. -/
theorem exists_trimEnd (cs : List Char) : ∃ B, cs = trimEnd cs ++ B ∧ ∀ c ∈ B, isBlank c = true := by
  refine ⟨(cs.reverse.takeWhile isBlank).reverse, ?_, fun c hc => ?_⟩
  · rw [trimEnd, ← List.reverse_append, List.takeWhile_append_dropWhile, List.reverse_reverse]
  · exact List.all_eq_true.mp List.all_takeWhile c (List.mem_reverse.mp hc)

/-- What is trimmed at the end ends with no blank. -/
theorem trimEnd_last (cs : List Char) : ∀ c ∈ (trimEnd cs).getLast?, isBlank c = false := by
  intro c hc
  rw [trimEnd, List.getLast?_reverse] at hc
  exact head_dropWhile c hc

end Text

open Text

/-- A stripped text is trimmed. -/
theorem withoutTrailingSemicolons_trimmed (cs : List Char) :
    Trimmed (withoutTrailingSemicolons cs) :=
  trimmed_dropEnd (fun c h => by rw [h]; rfl) cs

/-- In a text without semicolons only blanks are cut. -/
private theorem cut_eq_isBlank {cs : List Char} (hs : ';' ∉ cs) {c : Char} (hc : c ∈ cs) :
    (isBlank c || c == ';') = isBlank c := by
  have hne : c ≠ ';' := fun h => hs (h ▸ hc)
  simp [hne]

/-- A trimmed text without a semicolon has nothing to strip. -/
theorem withoutTrailingSemicolons_eq_self {cs : List Char} (h : Trimmed cs) (hs : ';' ∉ cs) :
    withoutTrailingSemicolons cs = cs :=
  dropEnd_eq_self h fun _ hc => cut_eq_isBlank hs hc

/-- Blanks at the end do not matter. -/
theorem withoutTrailingSemicolons_append {cs B : List Char} (hB : ∀ c ∈ B, isBlank c = true) :
    withoutTrailingSemicolons (cs ++ B) = withoutTrailingSemicolons cs := by
  rw [withoutTrailingSemicolons, withoutTrailingSemicolons]
  by_cases hcs : trimStart cs = []
  · -- there are blanks only
    have hall : trimStart (cs ++ B) = [] := by
      rw [trimStart] at hcs
      rw [trimStart, List.dropWhile_append, hcs]
      simpa [List.dropWhile_eq_nil_iff] using hB
    rw [hall, hcs]
  · have hcut : ∀ c ∈ B.reverse, (isBlank c || c == ';') = true := fun c hc => by
      rw [hB c (List.mem_reverse.mp hc)]
      rfl
    rw [trimStart_append hcs, List.reverse_append, List.dropWhile_append_of_pos hcut]

namespace Rules

variable (r : Rules)

/-- The rules see trimmed texts only. -/
theorem normalized_trimmed (cs : List Char) : Trimmed (r.normalized cs) := by
  rw [normalized]
  split
  · exact withoutTrailingSemicolons_trimmed cs
  · exact trim_trimmed cs

/-- Where the rules see no semicolon, the text without its trailing semicolons is what they
    see. -/
theorem withoutTrailingSemicolons_of_normalized {cs : List Char} (hs : ';' ∉ r.normalized cs) :
    withoutTrailingSemicolons cs = r.normalized cs := by
  rw [normalized] at hs ⊢
  split at hs
  · rw [if_pos ‹_›]
  · rw [if_neg ‹_›]
    -- behind the trimmed text there are blanks only
    have hsplit : (trimStart cs).reverse
        = (trimStart cs).reverse.takeWhile isBlank ++ (trim cs).reverse := by
      rw [trim, trimEnd, List.reverse_reverse, List.takeWhile_append_dropWhile]
    have hblank : ∀ c ∈ (trimStart cs).reverse.takeWhile isBlank,
        (isBlank c || c == ';') = true := fun c hc => by
      rw [List.all_eq_true.mp List.all_takeWhile c hc]; rfl
    rw [withoutTrailingSemicolons, hsplit, List.dropWhile_append_of_pos hblank, dropWhile_eq_self,
      List.reverse_reverse]
    intro c hc
    rw [List.head?_reverse] at hc
    rw [cut_eq_isBlank hs (List.mem_of_getLast? hc)]
    exact (trim_trimmed cs).last c hc

/-- A trimmed text without a semicolon is seen as it is. -/
theorem normalized_eq_self {cs : List Char} (h : Trimmed cs) (hs : ';' ∉ cs) :
    r.normalized cs = cs := by
  rw [normalized, withoutTrailingSemicolons_eq_self h hs, trim_eq_self h, ite_self]

end Rules

end QueryGate
