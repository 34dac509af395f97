import Mathlib
import QueryGate.Sql.Lexer

namespace QueryGate.Sql

/-!
# Places and bytes

A place is found by counting lines and columns from the start of a text, and `byteOffset?` leads
from it back to bytes.

* `lastLine` — what stands on the line that a text ends on;
* `byteOffset?_after` — behind a start of a text are as many bytes as that start has;
* `byteRange?_after` — the same for both ends of a span;
* `splitAtByte?_eq_some_iff` — a text is split after a number of bytes exactly where a start of it
  has that many;
* `tokens_eq_ok_iff_scan` — the tokens of a text are read with their places.
-/

/-! ### Bytes -/

@[simp] theorem byteLength_nil : byteLength [] = 0 := rfl

@[simp] theorem byteLength_cons (c : Char) (cs : List Char) :
    byteLength (c :: cs) = c.utf8Size + byteLength cs := rfl

@[simp] theorem byteLength_append (a b : List Char) :
    byteLength (a ++ b) = byteLength a + byteLength b := by
  induction a with
  | nil => simp
  | cons c a ih => simp [ih, Nat.add_assoc]

/-- **Splitting.** A text splits after `n` bytes exactly where a start of it has `n` bytes. -/
theorem splitAtByte?_eq_some_iff (n : Nat) (cs a b : List Char) :
    splitAtByte? n cs = some (a, b) ↔ cs = a ++ b ∧ byteLength a = n := by
  -- by induction on the text; every character takes at least one byte
  induction cs generalizing n a b with
  | nil =>
    cases n with
    | zero => cases a <;> simp [splitAtByte?, eq_comm]
    | succ n =>
      cases a with
      | nil => simp [splitAtByte?]
      | cons c a => simp [splitAtByte?]
  | cons c cs ih =>
    have hpos := c.utf8Size_pos
    cases n with
    | zero =>
      cases a with
      | nil => simp [splitAtByte?, eq_comm]
      | cons c' a =>
        have hpos' := c'.utf8Size_pos
        simp [splitAtByte?]
        omega
    | succ n =>
      rw [splitAtByte?]
      cases a with
      | nil => split <;> simp
      | cons c' a =>
        split
        · simp only [Option.map_eq_some_iff, Prod.exists, Prod.mk.injEq, ih]
          constructor
          · rintro ⟨a', b', ⟨rfl, ha'⟩, hcons, rfl⟩
            obtain ⟨rfl, rfl⟩ := List.cons.inj hcons
            exact ⟨rfl, by rw [byteLength_cons]; omega⟩
          · rintro ⟨hcons, hlen⟩
            obtain ⟨rfl, rfl⟩ := List.cons.inj hcons
            rw [byteLength_cons] at hlen
            exact ⟨a, b, ⟨rfl, by omega⟩, rfl, rfl⟩
        -- the text is cut inside a character
        · simp only [reduceCtorEq, false_iff, not_and]
          intro hcons hlen
          obtain ⟨rfl, -⟩ := List.cons.inj hcons
          rw [byteLength_cons] at hlen
          omega

/-! ### Lines -/

/-- Places add up along a text. -/
theorem Location.after_append (l : Location) (a b : List Char) :
    l.after (a ++ b) = (l.after a).after b := List.foldl_append

theorem Location.after_singleton (l : Location) (c : Char) : l.after [c] = l.next c := rfl

/-- What a text ends with behind its last line feed. -/
def lastLine (cs : List Char) : List Char := cs.rtakeWhile (· ≠ '\n')

@[simp] theorem lastLine_nil : lastLine [] = [] := List.rtakeWhile_nil _

/-- The last line of a text after one more character. -/
theorem lastLine_concat (cs : List Char) (c : Char) :
    lastLine (cs ++ [c]) = if c = '\n' then [] else lastLine cs ++ [c] := by
  rw [lastLine, List.rtakeWhile_concat]
  by_cases h : c = '\n' <;> simp [h, lastLine]

/-- The line after a line that is found starts behind the next line feed. -/
theorem fromLine?_succ {n : Nat} {cs line more : List Char} (hn : 0 < n)
    (h : fromLine? n cs = some (line ++ '\n' :: more)) (hline : '\n' ∉ line) :
    fromLine? (n + 1) cs = some more := by
  induction cs generalizing n line with
  | nil =>
    match n with
    | 1 => simp [fromLine?] at h
    | _ + 2 => simp [fromLine?] at h
  | cons c cs ih =>
    match n with
    | 1 =>
      simp only [fromLine?, Option.some.injEq] at h
      cases line with
      | nil =>
        obtain ⟨rfl, rfl⟩ := List.cons.inj h
        simp [fromLine?]
      | cons c' line =>
        obtain ⟨rfl, hrest⟩ := List.cons.inj h
        -- the first line goes on
        have hne : c ≠ '\n' := fun hc => hline (by simp [hc])
        have hfirst : fromLine? 1 cs = some (line ++ '\n' :: more) := by
          rw [fromLine?, hrest, List.append_eq]
        rw [fromLine?, if_neg hne]
        exact ih Nat.one_pos hfirst fun hmem => hline (List.mem_cons_of_mem _ hmem)
    | n + 2 =>
      by_cases hc : c = '\n'
      · simp only [fromLine?, hc, if_true] at h ⊢
        exact ih (Nat.succ_pos n) h hline
      · simp only [fromLine?, hc, if_false] at h ⊢
        exact ih (Nat.succ_pos _) h hline

/-- The last line holds no line feed. -/
theorem newline_not_mem_lastLine (cs : List Char) : '\n' ∉ lastLine cs := by
  intro h
  simpa using List.mem_rtakeWhile_imp h

/-- The column behind a text is one more than the length of its last line. -/
theorem after_origin_column (cs : List Char) :
    (Location.origin.after cs).column = (lastLine cs).length + 1 := by
  induction cs using List.reverseRecOn with
  | nil => rw [lastLine_nil]; rfl
  | append_singleton cs c ih =>
    rw [Location.after_append, Location.after_singleton, Location.next, lastLine_concat]
    split
    · rfl
    · simp [ih]

/-- From the line that a text ends on, its last line and what follows the text are left. -/
theorem fromLine?_after (a b : List Char) :
    0 < (Location.origin.after a).line ∧
      fromLine? (Location.origin.after a).line (a ++ b) = some (lastLine a ++ b) := by
  induction a using List.reverseRecOn generalizing b with
  | nil =>
    rw [lastLine_nil, List.nil_append, Location.after, List.foldl_nil, Location.origin]
    exact ⟨Nat.one_pos, by rw [fromLine?]⟩
  | append_singleton a c ih =>
    obtain ⟨hpos, hline⟩ := ih (c :: b)
    rw [Location.after_append, Location.after_singleton, Location.next, lastLine_concat,
      List.append_assoc, List.singleton_append]
    split
    · subst c
      exact ⟨Nat.succ_pos _, fromLine?_succ hpos hline (newline_not_mem_lastLine a)⟩
    · exact ⟨hpos, by rw [hline]; simp⟩

/-! ### Back to bytes -/

/-- **Offsets.** A place behind a start of a text leads back to the bytes of that start. -/
theorem byteOffset?_after (a b : List Char) :
    byteOffset? (a ++ b) (Location.origin.after a) = some (byteLength a) := by
  have hbytes : byteLength a = byteLength (a.rdropWhile (· ≠ '\n')) + byteLength (lastLine a) := by
    rw [← byteLength_append, lastLine, List.rdropWhile_append_rtakeWhile]
  rw [byteOffset?, after_origin_column, (fromLine?_after a b).2]
  simp only [Nat.add_eq_zero_iff, Nat.one_ne_zero, and_false, if_false, Nat.add_sub_cancel,
    List.length_append, Nat.le_add_right, if_true, List.take_left, Option.some.injEq,
    byteLength_append]
  omega

/-- The bytes between two places behind starts of a text. -/
theorem byteRange?_after (a b c : List Char) :
    byteRange? (a ++ b ++ c) ⟨Location.origin.after a, Location.origin.after (a ++ b)⟩
      = some (byteLength a, byteLength a + byteLength b) := by
  have hstart : byteOffset? (a ++ b ++ c) (Location.origin.after a) = some (byteLength a) := by
    rw [List.append_assoc, byteOffset?_after]
  rw [byteRange?, hstart, byteOffset?_after, byteLength_append]
  simp only [Nat.le_add_right, if_true]

/-! ### Tokens and their places -/

/-- The tokens of a text are those of its reading, without their places. -/
theorem tokens_eq_ok_iff_scan (d : Dialect) (cs : List Char) (ts : List Token) :
    tokens d cs = .ok ts ↔ ∃ placed, scan d cs = .ok placed ∧ placed.map Placed.token = ts := by
  rw [tokens]
  cases scan d cs with
  | error e => simp [Except.map]
  | ok placed => simp [Except.map]

end QueryGate.Sql
