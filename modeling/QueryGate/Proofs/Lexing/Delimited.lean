import QueryGate.Proofs.Lexing.Front
import QueryGate.Proofs.Outcome

namespace QueryGate.Sql.Lexer

/-!
# Quoted text is read locally

The readers of quoted text take characters up to a closing mark, so the last one that they take is no
blank, and they see at most one more.  `Exact` says both of a reader; each reader of `Sql.Lexer.Quoted` has it, and
`Exact.local` turns it into `Local` for the tokens that are made of the text.
-/

/-- A reader that takes at least one character, the last of which is no blank, and stops at the same
    place before texts that look alike. -/
structure Exact (f : List Char → Option (α × List Char)) : Prop where
  takes : ∀ {cs R : List Char} {a : α}, f cs = some (a, R) →
    ∃ u c, u.getLast? = some c ∧ Text.isBlank c = false ∧ cs = u ++ R
  follow : ∀ {w R R' : List Char} {a : α}, f (w ++ R) = some (a, R) → Alike R R' →
    f (w ++ R') = some (a, R')

/-- An exact reader leaves the end of its text. -/
theorem Exact.suffix {f : List Char → Option (α × List Char)} (hf : Exact f) {cs R : List Char}
    {a : α} (h : f cs = some (a, R)) : R <:+ cs := by
  obtain ⟨u, -, -, -, rfl⟩ := hf.takes h
  exact List.suffix_append u R

/-- A text that ends in blanks ends in no other character. -/
theorem false_of_getLast? {w B u R : List Char} {c : Char} (h : w ++ (B ++ R) = u ++ R) (hB : B ≠ [])
    (hblank : ∀ c ∈ B, Text.isBlank c = true) (hu : u.getLast? = some c)
    (hc : Text.isBlank c = false) : False := by
  obtain rfl : w ++ B = u := List.append_cancel_right ((List.append_assoc w B R).trans h)
  rw [List.getLast?_append_of_ne_nil w hB] at hu
  rw [hblank c (List.mem_of_getLast? hu)] at hc
  cases hc

/-- A token made of exactly read text is read locally. -/
theorem Exact.local {f : List Char → Option (α × List Char)} (hf : Exact f) {g : List Char → Step}
    (make : α → Token) (hsome : ∀ cs a rest, f cs = some (a, rest) → g cs = .ok (make a, rest))
    (hnone : ∀ cs, f cs = none → ∃ e, g cs = .error e) : Local g := by
  -- what the step reads, the reader has read
  have hread : ∀ {cs t R}, g cs = .ok (t, R) → ∃ a, f cs = some (a, R) ∧ t = make a := by
    intro cs t R h
    cases hf' : f cs with
    | none =>
      obtain ⟨e, he⟩ := hnone cs hf'
      rw [he] at h
      cases h
    | some p =>
      rw [hsome cs p.1 p.2 hf'] at h
      cases h
      exact ⟨p.1, rfl, rfl⟩
  refine ⟨fun h => ?_, fun h hb => ?_, fun h hB hblank => ?_⟩
  · obtain ⟨a, ha, -⟩ := hread h
    exact hf.suffix ha
  · obtain ⟨a, ha, rfl⟩ := hread h
    exact .inl (hsome _ _ _ (hf.follow ha hb))
  · obtain ⟨a, ha, -⟩ := hread h
    obtain ⟨u, c, hu, hc, hcs⟩ := hf.takes ha
    -- the text ends with its closing character, so there are no blanks to trim
    exact (false_of_getLast? hcs hB hblank hu hc).elim

/-- What a recursive call has read, given what is made of it. -/
theorem map_eq_some {f : α → β} {o : Option (α × List Char)} {b : β} {R : List Char}
    (h : (o.map fun (a, r) => (f a, r)) = some (b, R)) : ∃ a, o = some (a, R) ∧ f a = b := by
  obtain ⟨⟨a, r⟩, ho, heq⟩ := Option.map_eq_some_iff.mp h
  cases heq
  exact ⟨a, ho, rfl⟩

/-! ### Quotes that are doubled -/

/-- A reader that takes text up to a closing quote, whatever comes behind that, if it is not the
    quote once more. -/
def Closes (quote : Char) (f : List Char → Option (α × List Char)) : Prop :=
  ∀ {cs R : List Char} {a : α}, f cs = some (a, R) →
    ∃ u, u.getLast? = some quote ∧ cs = u ++ R ∧ R.head?.any (· == quote) = false ∧
      ∀ S : List Char, S.head?.any (· == quote) = false → f (u ++ S) = some (a, S)

/-- A reader up to a closing quote reads the same whatever follows the quote. -/
theorem Closes.exact {quote : Char} {f : List Char → Option (α × List Char)}
    (h : Closes quote f) (hq : Visible (· == quote)) : Exact f where
  takes hread := by
    obtain ⟨u, hu, hcs, -, -⟩ := h hread
    exact ⟨u, quote, hu, hq.isBlank_of_mem (beq_self_eq_true quote), hcs⟩
  follow {w R R' a} hread hb := by
    obtain ⟨u, -, hcs, hR, hS⟩ := h hread
    rw [List.append_cancel_right hcs]
    exact hS R' (hq.head_of_not hb hR)

/-- The closing quote ends quoted text. -/
theorem quotedText?_quote {quote : Char} {S : List Char} (h : S.head?.any (· == quote) = false) :
    quotedText? quote (quote :: S) = some ([], S) := by
  cases S with
  | nil => simp [quotedText?]
  | cons s S =>
    have hs : s ≠ quote := by simpa using h
    simp [quotedText?, hs]

/-- A quoted name ends at its quote. -/
theorem quotedText?_closes (quote : Char) : Closes quote (quotedText? quote) := by
  intro cs R t h
  fun_induction quotedText? quote cs generalizing t with
  | case1 => cases h
  | case2 ds ih =>
    -- a doubled quote
    obtain ⟨t', hrec, rfl⟩ := map_eq_some h
    obtain ⟨u, hu, rfl, hR, hS⟩ := ih hrec
    refine ⟨quote :: quote :: u, by simp [List.getLast?_cons, hu], rfl, hR, fun S h => ?_⟩
    simp [quotedText?, hS S h]
  | case3 d ds hd =>
    cases h
    exact ⟨[quote], rfl, rfl, by simpa using hd, fun S h => quotedText?_quote h⟩
  | case4 =>
    cases h
    exact ⟨[quote], rfl, rfl, rfl, fun S h => quotedText?_quote h⟩
  | case5 c cs hc ih =>
    obtain ⟨t', hrec, rfl⟩ := map_eq_some h
    obtain ⟨u, hu, rfl, hR, hS⟩ := ih hrec
    refine ⟨c :: u, by simp [List.getLast?_cons, hu], rfl, hR, fun S h => ?_⟩
    rw [List.cons_append]
    cases hus : u ++ S with
    | nil => simp_all
    | cons d ds =>
      have hrest := hS S h
      rw [hus] at hrest
      simp [quotedText?, hc, hrest]

/-- The closing quote ends a string literal. -/
theorem literalText?_quote {quote : Char} (escapes : Bool) {S : List Char}
    (h : S.head?.any (· == quote) = false) :
    literalText? quote escapes (quote :: S) = some ([], S) := by
  cases S with
  | nil => simp [literalText?]
  | cons s S =>
    have hs : s ≠ quote := by simpa using h
    simp [literalText?, hs]

/-- A string literal ends at its quote. -/
theorem literalText?_closes (quote : Char) (escapes : Bool) :
    Closes quote (literalText? quote escapes) := by
  intro cs R t h
  fun_induction literalText? quote escapes cs generalizing t with
  | case1 => cases h
  | case2 ds ih =>
    obtain ⟨t', hrec, rfl⟩ := map_eq_some h
    obtain ⟨u, hu, rfl, hR, hS⟩ := ih hrec
    refine ⟨quote :: quote :: u, by simp [List.getLast?_cons, hu], rfl, hR, fun S h => ?_⟩
    simp [literalText?, hS S h]
  | case3 d ds hd =>
    cases h
    exact ⟨[quote], rfl, rfl, by simpa using hd,
      fun S h => literalText?_quote escapes h⟩
  | case4 =>
    cases h
    exact ⟨[quote], rfl, rfl, rfl, fun S h => literalText?_quote escapes h⟩
  | case5 c hc he d ds ih =>
    -- a backslash takes the next character along
    obtain ⟨⟨t', r⟩, hrec, heq⟩ := Option.map_eq_some_iff.mp h
    cases heq
    obtain ⟨u, hu, rfl, hR, hS⟩ := ih hrec
    refine ⟨c :: d :: u, by simp [List.getLast?_cons, hu], rfl, hR, fun S h => ?_⟩
    simp only [List.cons_append, literalText?, if_neg hc, if_pos he, hS S h]
    rfl
  | case6 => cases h
  | case7 c cs hc he ih =>
    obtain ⟨t', hrec, rfl⟩ := map_eq_some h
    obtain ⟨u, hu, rfl, hR, hS⟩ := ih hrec
    refine ⟨c :: u, by simp [List.getLast?_cons, hu], rfl, hR, fun S h => ?_⟩
    rw [List.cons_append]
    cases hus : u ++ S with
    | nil => simp_all
    | cons d ds =>
      have hrest := hS S h
      rw [hus] at hrest
      simp [literalText?, hc, he, hrest]

/-! ### Escapes by number -/

/-- The digits that are read stay the same where the text behind them starts the same. -/
theorem leadingDigits_follow {base n : Nat} {cs ds rest : List Char}
    (h : leadingDigits base n cs = (ds, rest)) :
    cs = ds ++ rest ∧ ∀ S : List Char, S.head? = rest.head? →
      leadingDigits base n (ds ++ S) = (ds, S) := by
  induction n generalizing cs ds with
  | zero =>
    cases h
    exact ⟨rfl, fun S _ => rfl⟩
  | succ n ih =>
    cases cs with
    | nil =>
      cases h
      refine ⟨rfl, fun S hS => ?_⟩
      rw [List.head?_eq_none_iff.mp hS]
      rfl
    | cons c cs =>
      rw [leadingDigits] at h
      split at h
      · next hc =>
        cases h
        obtain ⟨hcs, hS⟩ := ih rfl
        -- the digit is taken, and the digits behind it by induction
        refine ⟨congrArg _ hcs, fun S hhead => ?_⟩
        simp only [List.cons_append, leadingDigits, hc, if_true, hS S hhead]
      · next hc =>
        cases h
        -- the count is not used up, but the next character is no digit
        refine ⟨rfl, fun S hhead => ?_⟩
        obtain ⟨S, rfl⟩ := List.head?_eq_some_iff.mp hhead
        simp only [List.nil_append, leadingDigits, hc, if_false, Bool.false_eq_true]

/-- An escape of fixed length. -/
theorem codePointEscape?_follow {n : Nat} {cs rest : List Char} {c : Char}
    (h : codePointEscape? n cs = some (c, rest)) :
    ∃ u, cs = u ++ rest ∧ ∀ S, codePointEscape? n (u ++ S) = some (c, S) := by
  rw [codePointEscape?] at h
  split at h
  · cases h
  · next hlen =>
    have hlen : (cs.take n).length = n := List.length_take_of_le (by omega)
    obtain ⟨v, hv, h⟩ := Option.bind_eq_some_iff.mp h
    obtain ⟨x, hx, h⟩ := Option.bind_eq_some_iff.mp h
    cases h
    refine ⟨cs.take n, (List.take_append_drop n cs).symm, fun S => ?_⟩
    have hS : ¬(cs.take n ++ S).length < n := by rw [List.length_append, hlen]; omega
    rw [codePointEscape?, if_neg hS, List.take_left' hlen, List.drop_left' hlen, hv]
    simp only [Option.bind_eq_bind, Option.bind_some, hx]

/-- What an escape stands for, by the character behind its backslash. -/
def escapeBody (c : Char) (cs : List Char) : Option (Char × List Char) :=
  match c with
  | 'b' => some ('\x08', cs)
  | 'f' => some ('\x0c', cs)
  | 'n' => some ('\n', cs)
  | 'r' => some ('\r', cs)
  | 't' => some ('\t', cs)
  | 'u' => codePointEscape? 4 cs
  | 'U' => codePointEscape? 8 cs
  | 'x' =>
    let (ds, rest) := leadingDigits 16 2 cs
    if ds.isEmpty then some ('x', cs)
    else do some (← charOfByte? (← digitsValue? 16 ds), rest)
  | c =>
    if (digitValue? 8 c).isSome then
      let (ds, rest) := leadingDigits 8 2 cs
      do some (← charOfByte? (← digitsValue? 8 (c :: ds)), rest)
    else some (c, cs)

/-- No escape stands for the null character. -/
theorem escape?_cons (c : Char) (cs : List Char) :
    escape? (c :: cs)
      = (escapeBody c cs).bind fun (x, rest) => if x = '\x00' then none else some (x, rest) := by
  unfold escape? escapeBody
  simp only [Option.bind_eq_bind]
  split
  all_goals simp only [Option.bind_some]
  · split <;> simp [Option.bind_assoc]
  · split <;> simp [Option.bind_assoc]

/-- What an escape stands for is the same where the text behind it starts the same. -/
theorem escapeBody_follow {c x : Char} {cs rest : List Char}
    (h : escapeBody c cs = some (x, rest)) :
    ∃ u, cs = u ++ rest ∧ ∀ S : List Char, S.head? = rest.head? →
      escapeBody c (u ++ S) = some (x, S) := by
  -- control characters and characters that stand for themselves take nothing more
  have hplain : ∀ y, (∀ S, escapeBody c S = some (y, S)) →
      ∃ u, cs = u ++ rest ∧ ∀ S : List Char, S.head? = rest.head? →
        escapeBody c (u ++ S) = some (x, S) := by
    intro y hy
    rw [hy] at h
    cases h
    exact ⟨[], rfl, fun S _ => hy S⟩
  unfold escapeBody at h
  split at h
  · exact hplain _ fun _ => rfl
  · exact hplain _ fun _ => rfl
  · exact hplain _ fun _ => rfl
  · exact hplain _ fun _ => rfl
  · exact hplain _ fun _ => rfl
  · obtain ⟨u, hcs, hS⟩ := codePointEscape?_follow h
    exact ⟨u, hcs, fun S _ => hS S⟩
  · obtain ⟨u, hcs, hS⟩ := codePointEscape?_follow h
    exact ⟨u, hcs, fun S _ => hS S⟩
  · -- up to two hexadecimal digits
    rcases hread : leadingDigits 16 2 cs with ⟨ds, left⟩
    obtain ⟨hcs, hfollow⟩ := leadingDigits_follow hread
    simp only [hread] at h
    split at h
    · next hempty =>
      cases h
      obtain rfl := List.isEmpty_iff.mp hempty
      refine ⟨[], rfl, fun S hhead => ?_⟩
      have hS := hfollow S (by rw [hhead, hcs]; rfl)
      rw [List.nil_append] at hS
      simp only [List.nil_append, escapeBody, hS, List.isEmpty_nil, if_true]
    · next hempty =>
      obtain ⟨v, hv, h⟩ := Option.bind_eq_some_iff.mp h
      obtain ⟨y, hy, h⟩ := Option.bind_eq_some_iff.mp h
      cases h
      refine ⟨ds, hcs, fun S hhead => ?_⟩
      simp only [escapeBody, hfollow S hhead, if_neg hempty, hv, hy, Option.bind_eq_bind,
        Option.bind_some]
  · next hb hf hn hr ht hu hU hx =>
    -- up to two more octal digits
    rcases hread : leadingDigits 8 2 cs with ⟨ds, left⟩
    obtain ⟨hcs, hfollow⟩ := leadingDigits_follow hread
    simp only [hread] at h
    have hbody : ∀ S, escapeBody c S = if (digitValue? 8 c).isSome then
        (do some (← charOfByte? (← digitsValue? 8 (c :: (leadingDigits 8 2 S).1)),
          (leadingDigits 8 2 S).2))
        else some (c, S) := fun S => by
      unfold escapeBody
      split
      all_goals simp_all
    split at h
    · next hdigit =>
      obtain ⟨v, hv, h⟩ := Option.bind_eq_some_iff.mp h
      obtain ⟨y, hy, h⟩ := Option.bind_eq_some_iff.mp h
      cases h
      refine ⟨ds, hcs, fun S hhead => ?_⟩
      rw [hbody, if_pos hdigit, hfollow S hhead]
      simp only [hv, hy, Option.bind_eq_bind, Option.bind_some]
    · next hdigit =>
      cases h
      exact ⟨[], rfl, fun S _ => by rw [List.nil_append, hbody, if_neg hdigit]⟩

/-- What an escape stands for is the same where the text behind it starts the same. -/
theorem escape?_follow {x : Char} {cs rest : List Char} (h : escape? cs = some (x, rest)) :
    ∃ u, u ≠ [] ∧ cs = u ++ rest ∧ ∀ S : List Char, S.head? = rest.head? →
      escape? (u ++ S) = some (x, S) := by
  cases cs with
  | nil => cases h
  | cons c cs =>
    rw [escape?_cons] at h
    obtain ⟨⟨y, left⟩, hbody, h⟩ := Option.bind_eq_some_iff.mp h
    -- no escape is the null character
    have hy : y ≠ '\x00' := by
      rintro rfl
      cases h
    simp only [if_neg hy] at h
    cases h
    -- behind the backslash the body of the escape decides
    obtain ⟨u, rfl, hfollow⟩ := escapeBody_follow hbody
    refine ⟨c :: u, List.cons_ne_nil _ _, rfl, fun S hhead => ?_⟩
    rw [List.cons_append, escape?_cons, hfollow S hhead]
    simp only [Option.bind_some, if_neg hy]

/-- Texts that start with the same characters have the same head. -/
theorem head?_append_eq {u : List Char} (hu : u ≠ []) (R S : List Char) :
    (u ++ S).head? = (u ++ R).head? := by
  cases u with
  | nil => exact absurd rfl hu
  | cons c u => rfl

/-- The content of `E'…'`, with any fuel that is more than its length. -/
theorem escapedText?_closes {n : Nat} {cs t R : List Char} (h : escapedText? n cs = some (t, R)) :
    ∃ u, u.getLast? = some '\x27' ∧ cs = u ++ R ∧ R.head?.any (· == '\x27') = false ∧
      ∀ S : List Char, S.head?.any (· == '\x27') = false → ∀ m, u.length < m →
        escapedText? m (u ++ S) = some (t, S) := by
  fun_induction escapedText? n cs generalizing t with
  | case1 => cases h
  | case2 => cases h
  | case3 n cs ih =>
    obtain ⟨t', hrec, rfl⟩ := map_eq_some h
    obtain ⟨u, hu, rfl, hR, hS⟩ := ih hrec
    refine ⟨'\x27' :: '\x27' :: u, by simp [List.getLast?_cons, hu], rfl, hR, fun S h m hm => ?_⟩
    obtain ⟨m, rfl⟩ := Nat.exists_eq_succ_of_ne_zero (Nat.ne_zero_of_lt hm)
    rw [List.cons_append, List.cons_append, escapedText?, hS S h m (by simp at hm; omega)]
    rfl
  | case4 n cs hne =>
    -- the closing quote
    cases h
    refine ⟨['\x27'], rfl, rfl, ?_, fun S h m hm => ?_⟩
    · cases R with
      | nil => rfl
      | cons r R =>
        have hr : r ≠ '\x27' := fun hr => hne R (by rw [hr])
        simpa using hr
    · obtain ⟨m, rfl⟩ := Nat.exists_eq_succ_of_ne_zero (Nat.ne_zero_of_lt hm)
      cases S with
      | nil => rfl
      | cons s S =>
        have hs : s ≠ '\x27' := by simpa using h
        rw [List.cons_append, List.nil_append, escapedText?]
        exact fun S' heq => hs (List.cons.inj heq).1
  | case5 n cs ih =>
    obtain ⟨⟨c, rest⟩, hescape, h⟩ := Option.bind_eq_some_iff.mp h
    obtain ⟨t', hrec, rfl⟩ := map_eq_some h
    obtain ⟨u, hu, rfl, hR, hS⟩ := ih rest hrec
    obtain ⟨v, hv, rfl, hfollow⟩ := escape?_follow hescape
    refine ⟨'\\' :: v ++ u, List.mem_getLast?_append_of_mem_getLast? hu, by simp, hR, fun S h m hm => ?_⟩
    obtain ⟨m, rfl⟩ := Nat.exists_eq_succ_of_ne_zero (Nat.ne_zero_of_lt hm)
    rw [List.cons_append, List.cons_append, List.append_assoc, escapedText?,
      hfollow (u ++ S) (head?_append_eq (List.ne_nil_of_mem (List.mem_of_getLast? hu)) R S)]
    simp only [Option.bind_eq_bind, Option.bind_some, hS S h m (by simp at hm; omega)]
    rfl
  | case6 n c cs hquotes hquote hescape ih =>
    obtain ⟨t', hrec, rfl⟩ := map_eq_some h
    obtain ⟨u, hu, rfl, hR, hS⟩ := ih hrec
    have hc : c ≠ '\x27' := fun hc => hquote hc
    have hb : c ≠ '\\' := fun hb => hescape hb
    refine ⟨c :: u, by simp [List.getLast?_cons, hu], rfl, hR, fun S h m hm => ?_⟩
    obtain ⟨m, rfl⟩ := Nat.exists_eq_succ_of_ne_zero (Nat.ne_zero_of_lt hm)
    rw [List.cons_append, escapedText?, hS S h m (by simp at hm; omega)]
    · rfl
    · exact fun _ hq _ => hc hq
    · exact hc
    · exact hb

/-! ### Escapes by code point -/

/-- Hexadecimal digits of fixed number. -/
theorem hexCharacter_follow {left value : Nat} {cs rest : List Char} {c : Char}
    (h : hexCharacter left value cs = .ok (c, rest)) :
    ∃ u, cs = u ++ rest ∧ ∀ S, hexCharacter left value (u ++ S) = .ok (c, S) := by
  fun_induction hexCharacter left value cs with
  | case1 value cs x hx =>
    cases h
    exact ⟨[], rfl, fun S => by rw [List.nil_append, hexCharacter, hx]⟩
  | case2 => cases h
  | case3 => cases h
  | case4 value left x cs v hv ih =>
    obtain ⟨u, rfl, hS⟩ := ih h
    refine ⟨x :: u, rfl, fun S => ?_⟩
    rw [List.cons_append, hexCharacter, hv]
    exact hS S
  | case5 => cases h

/-- The content of `U&'…'`, with any fuel that is more than its length. -/
theorem unicodeText_closes {n : Nat} {cs t R : List Char} (h : unicodeText n cs = .ok (t, R)) :
    ∃ u, u.getLast? = some '\x27' ∧ cs = u ++ R ∧ R.head?.any (· == '\x27') = false ∧
      ∀ S : List Char, S.head?.any (· == '\x27') = false → ∀ m, u.length < m →
        unicodeText m (u ++ S) = .ok (t, S) := by
  fun_induction unicodeText n cs generalizing t with
  | case1 => cases h
  | case2 => cases h
  | case3 n cs ih =>
    obtain ⟨⟨t', r⟩, hrec, heq⟩ := bind_eq_ok_iff.mp h
    cases heq
    obtain ⟨u, hu, rfl, hR, hS⟩ := ih hrec
    refine ⟨'\x27' :: '\x27' :: u, by simp [List.getLast?_cons, hu], rfl, hR, fun S h m hm => ?_⟩
    obtain ⟨m, rfl⟩ := Nat.exists_eq_succ_of_ne_zero (Nat.ne_zero_of_lt hm)
    rw [List.cons_append, List.cons_append, unicodeText, hS S h m (by simp at hm; omega)]
    rfl
  | case4 n cs hne =>
    -- the closing quote
    cases h
    refine ⟨['\x27'], rfl, rfl, ?_, fun S h m hm => ?_⟩
    · cases R with
      | nil => rfl
      | cons r R =>
        have hr : r ≠ '\x27' := fun hr => hne R (by rw [hr])
        simpa using hr
    · obtain ⟨m, rfl⟩ := Nat.exists_eq_succ_of_ne_zero (Nat.ne_zero_of_lt hm)
      cases S with
      | nil => rfl
      | cons s S =>
        have hs : s ≠ '\x27' := by simpa using h
        rw [List.cons_append, List.nil_append, unicodeText]
        exact fun S' heq => hs (List.cons.inj heq).1
  | case5 n cs ih =>
    obtain ⟨⟨t', r⟩, hrec, heq⟩ := bind_eq_ok_iff.mp h
    cases heq
    obtain ⟨u, hu, rfl, hR, hS⟩ := ih hrec
    refine ⟨'\\' :: '\\' :: u, by simp [List.getLast?_cons, hu], rfl, hR, fun S h m hm => ?_⟩
    obtain ⟨m, rfl⟩ := Nat.exists_eq_succ_of_ne_zero (Nat.ne_zero_of_lt hm)
    rw [List.cons_append, List.cons_append, unicodeText, hS S h m (by simp at hm; omega)]
    rfl
  | case6 n cs ih =>
    obtain ⟨⟨c, rest⟩, hhex, h⟩ := bind_eq_ok_iff.mp h
    obtain ⟨⟨t', r⟩, hrec, heq⟩ := bind_eq_ok_iff.mp h
    cases heq
    obtain ⟨u, hu, rfl, hR, hS⟩ := ih rest hrec
    obtain ⟨v, rfl, hfollow⟩ := hexCharacter_follow hhex
    refine ⟨'\\' :: '+' :: v ++ u, List.mem_getLast?_append_of_mem_getLast? hu, by simp, hR, fun S h m hm => ?_⟩
    obtain ⟨m, rfl⟩ := Nat.exists_eq_succ_of_ne_zero (Nat.ne_zero_of_lt hm)
    rw [List.cons_append, List.cons_append, List.cons_append, List.cons_append, List.append_assoc,
      unicodeText, hfollow]
    refine bind_eq_ok_iff.mpr ⟨(c, u ++ S), rfl, ?_⟩
    exact bind_eq_ok_iff.mpr ⟨(t', S), hS S h m (by simp at hm; omega), rfl⟩
  | case7 n cs hslash hplus ih =>
    obtain ⟨⟨c, rest⟩, hhex, h⟩ := bind_eq_ok_iff.mp h
    obtain ⟨⟨t', r⟩, hrec, heq⟩ := bind_eq_ok_iff.mp h
    cases heq
    obtain ⟨u, hu, rfl, hR, hS⟩ := ih rest hrec
    obtain ⟨v, rfl, hfollow⟩ := hexCharacter_follow hhex
    refine ⟨'\\' :: v ++ u, List.mem_getLast?_append_of_mem_getLast? hu, by simp, hR, fun S h m hm => ?_⟩
    obtain ⟨m, rfl⟩ := Nat.exists_eq_succ_of_ne_zero (Nat.ne_zero_of_lt hm)
    -- the first of the digits is neither mark
    have hhead : (v ++ (u ++ S)).head? = (v ++ (u ++ R)).head? := by
      rw [← List.append_assoc, ← List.append_assoc]
      exact head?_append_eq (by simp [List.ne_nil_of_mem (List.mem_of_getLast? hu)]) R S
    have hmark : ∀ x : Char, (∀ rest, v ++ (u ++ R) = x :: rest → False) →
        ∀ rest, v ++ (u ++ S) = x :: rest → False := by
      intro x hx rest hrest
      rw [hrest, List.head?_cons] at hhead
      obtain ⟨rest', hrest'⟩ := List.head?_eq_some_iff.mp hhead.symm
      exact hx rest' hrest'
    rw [List.cons_append, List.cons_append, List.append_assoc,
      unicodeText.eq_7 _ _ (hmark _ hslash) (hmark _ hplus), hfollow]
    refine bind_eq_ok_iff.mpr ⟨(c, u ++ S), rfl, ?_⟩
    exact bind_eq_ok_iff.mpr ⟨(t', S), hS S h m (by simp at hm; omega), rfl⟩
  | case8 n c cs hquotes hquote hslashes hplus hslash ih =>
    obtain ⟨⟨t', r⟩, hrec, heq⟩ := bind_eq_ok_iff.mp h
    cases heq
    obtain ⟨u, hu, rfl, hR, hS⟩ := ih hrec
    refine ⟨c :: u, by simp [List.getLast?_cons, hu], rfl, hR, fun S h m hm => ?_⟩
    obtain ⟨m, rfl⟩ := Nat.exists_eq_succ_of_ne_zero (Nat.ne_zero_of_lt hm)
    rw [List.cons_append, unicodeText, hS S h m (by simp at hm; omega)]
    · rfl
    · exact fun _ hq _ => hquote hq
    · exact hquote
    · exact fun _ hb _ => hslash hb
    · exact fun _ hb _ => hslash hb
    · exact hslash

/-! ### Marks of several characters -/

/-- Text up to a closing mark, whatever comes behind that. -/
theorem textUntil?_follow {close cs t R : List Char} (hclose : close ≠ [])
    (h : textUntil? close cs = some (t, R)) :
    ∃ u, cs = u ++ R ∧ close <:+ u ∧ ∀ S, textUntil? close (u ++ S) = some (t, S) := by
  induction cs generalizing t with
  | nil => cases h
  | cons c cs ih =>
    rw [textUntil?] at h
    split at h
    · next hstart =>
      cases h
      obtain ⟨rest, hrest⟩ := List.isPrefixOf_iff_prefix.mp hstart
      refine ⟨close, by rw [← hrest, List.drop_left], List.suffix_rfl, fun S => ?_⟩
      obtain ⟨m, ms, rfl⟩ := List.exists_cons_of_ne_nil hclose
      have hS : (m :: ms).isPrefixOf (m :: (ms ++ S)) = true :=
        List.isPrefixOf_iff_prefix.mpr (List.prefix_append (m :: ms) S)
      rw [List.cons_append, textUntil?, if_pos hS]
      exact congrArg (fun r => some ([], r)) List.drop_left
    · next hstart =>
      obtain ⟨t', hrec, rfl⟩ := map_eq_some h
      obtain ⟨u, rfl, hmark, hS⟩ := ih hrec
      have hlen := hmark.length_le
      refine ⟨c :: u, rfl, hmark.trans (List.suffix_cons c u), fun S => ?_⟩
      -- the mark fits into `c :: u`, so what comes behind that makes none
      have hno : ¬close.isPrefixOf (c :: (u ++ S)) = true := by
        intro hpre
        have hshort : close <+: c :: u :=
          List.prefix_of_prefix_length_le (List.isPrefixOf_iff_prefix.mp hpre)
            (List.prefix_append (c :: u) S) (by rw [List.length_cons]; omega)
        exact hstart (List.isPrefixOf_iff_prefix.mpr
          (hshort.trans (List.prefix_append (c :: u) R)))
      rw [List.cons_append, textUntil?, if_neg hno, hS]
      rfl

/-- A block comment, whatever comes behind it. -/
theorem blockText?_follow {nested : Bool} {depth : Nat} {cs t R : List Char}
    (h : blockText? nested depth cs = some (t, R)) :
    ∃ u, u.getLast? = some '/' ∧ cs = u ++ R ∧
      ∀ S, blockText? nested depth (u ++ S) = some (t, S) := by
  fun_induction blockText? nested depth cs generalizing t with
  | case1 =>
    cases h
    exact ⟨['*', '/'], rfl, rfl, fun S => by simp [blockText?]⟩
  | case2 cs depth ih =>
    obtain ⟨⟨t', r⟩, hrec, heq⟩ := Option.map_eq_some_iff.mp h
    cases heq
    obtain ⟨u, hu, rfl, hS⟩ := ih hrec
    exact ⟨'*' :: '/' :: u, by simp [List.getLast?_cons, hu], rfl, fun S => by simp [blockText?, hS]⟩
  | case3 depth cs hnested ih =>
    obtain ⟨⟨t', r⟩, hrec, heq⟩ := Option.map_eq_some_iff.mp h
    cases heq
    obtain ⟨u, hu, rfl, hS⟩ := ih hrec
    exact ⟨'/' :: '*' :: u, by simp [List.getLast?_cons, hu], rfl,
      fun S => by simp [blockText?, hnested, ← hnested ▸ hS S]⟩
  | case4 depth cs hnested ih =>
    -- the star is read again, as the start of the rest
    obtain ⟨t', hrec, rfl⟩ := map_eq_some h
    obtain ⟨u, hu, hcs, hS⟩ := ih hrec
    obtain ⟨u', rfl, rfl⟩ : ∃ u', u = '*' :: u' ∧ cs = u' ++ R := by
      cases u with
      | nil => cases hu
      | cons x u' =>
        rw [List.cons_append, List.cons.injEq] at hcs
        exact ⟨u', by rw [hcs.1], hcs.2⟩
    refine ⟨'/' :: '*' :: u', by rw [List.getLast?_cons_cons, hu], rfl, fun S => ?_⟩
    have hrest := hS S
    rw [List.cons_append] at hrest
    rw [List.cons_append, List.cons_append, blockText?, if_neg hnested, hrest]
    rfl
  | case5 depth c cs hclose hopen ih =>
    obtain ⟨t', hrec, rfl⟩ := map_eq_some h
    obtain ⟨u, hu, rfl, hS⟩ := ih hrec
    refine ⟨c :: u, by simp [List.getLast?_cons, hu], rfl, fun S => ?_⟩
    obtain ⟨x, u, rfl⟩ := List.exists_cons_of_ne_nil (List.ne_nil_of_mem (List.mem_of_getLast? hu))
    rw [List.cons_append, blockText?, hS S]
    · rfl
    · exact fun rest hc hx => hclose (u ++ R) hc (by rw [List.cons_append, (List.cons.inj hx).1])
    · exact fun rest hc hx => hopen (u ++ R) hc (by rw [List.cons_append, (List.cons.inj hx).1])
  | case6 => cases h

/-- The text of a block comment stands at the front of the text that it is read from. -/
theorem blockText?_prefix {nested : Bool} {depth : Nat} {cs t R : List Char}
    (h : blockText? nested depth cs = some (t, R)) : t <+: cs := by
  fun_induction blockText? nested depth cs generalizing t with
  | case1 =>
    cases h
    exact List.nil_prefix
  | case2 cs depth ih | case3 depth cs hnested ih =>
    obtain ⟨⟨t', r⟩, hrec, heq⟩ := Option.map_eq_some_iff.mp h
    cases heq
    exact (List.prefix_append_right_inj [_, _]).mpr (ih hrec)
  | case4 depth cs hnested ih | case5 depth c cs hclose hopen ih =>
    obtain ⟨t', hrec, rfl⟩ := map_eq_some h
    exact (List.prefix_append_right_inj [_]).mpr (ih hrec)
  | case6 => cases h

/-- The text of a block comment is shorter than the text that it is read from. -/
theorem blockText?_length {nested : Bool} {depth : Nat} {cs t R : List Char}
    (h : blockText? nested depth cs = some (t, R)) : t.length + R.length < cs.length := by
  -- one case per branch of the reader: a comment needs its closing mark
  fun_induction blockText? nested depth cs generalizing t with
  | case1 =>
    cases h
    simp only [List.length_nil, List.length_cons]
    omega
  | case2 cs depth ih =>
    obtain ⟨⟨t', r⟩, hrec, heq⟩ := Option.map_eq_some_iff.mp h
    cases heq
    have hlen := ih hrec
    simp only [List.length_cons]
    omega
  | case3 depth cs hnested ih =>
    obtain ⟨⟨t', r⟩, hrec, heq⟩ := Option.map_eq_some_iff.mp h
    cases heq
    have hlen := ih hrec
    simp only [List.length_cons]
    omega
  | case4 depth cs hnested ih =>
    obtain ⟨t', hrec, rfl⟩ := map_eq_some h
    have hlen := ih hrec
    simp only [List.length_cons] at hlen ⊢
    omega
  | case5 depth c cs hclose hopen ih =>
    obtain ⟨t', hrec, rfl⟩ := map_eq_some h
    have hlen := ih hrec
    simp only [List.length_cons]
    omega
  | case6 => cases h

/-! ### The readers -/

variable {quote : Char}

/-- A quoted name does not depend on what follows its quote, unless that is another quote. -/
theorem quotedIdentifier_local (start : Char) (hq : Visible (· == quote)) :
    Local fun cs => quotedIdentifier start quote (start :: cs) := by
  refine (Closes.exact (quotedText?_closes quote) hq).local
    (fun t => .word (String.ofList t) (some start)) (fun cs t rest h => ?_) fun cs h => ?_
  · rw [quotedIdentifier, List.tail_cons, h]
  · rw [quotedIdentifier, List.tail_cons, h]
    exact ⟨_, rfl⟩

theorem stringLiteral_local (kind : LiteralKind) (escapes : Bool) (hq : Visible (· == quote)) :
    Local fun cs => stringLiteral kind quote escapes (quote :: cs) := by
  refine (Closes.exact (literalText?_closes quote escapes) hq).local
    (fun t => .literal kind (String.ofList t)) (fun cs t rest h => ?_) fun cs h => ?_
  · rw [stringLiteral, List.tail_cons, h]
  · rw [stringLiteral, List.tail_cons, h]
    exact ⟨_, rfl⟩

/-- The single quote is a class. -/
theorem apostrophe_class : Visible (· == '\x27') := class_eq (by decide) (by decide)

theorem escapedLiteral_local (c : Char) : Local fun cs => escapedLiteral (c :: '\x27' :: cs) := by
  have hclose : Closes '\x27' fun cs => escapedText? (cs.length + 3) cs := by
    intro cs R t h
    obtain ⟨u, hu, hcs, hR, hS⟩ := escapedText?_closes h
    exact ⟨u, hu, hcs, hR, fun S hhead => hS S hhead _ (by simp; omega)⟩
  refine (Closes.exact hclose apostrophe_class).local
    (fun t => .literal .escaped (String.ofList t)) (fun cs t rest h => ?_) fun cs h => ?_
  · have h : escapedText? (cs.length + 3) cs = some (t, rest) := h
    simp only [escapedLiteral, List.drop_succ_cons, List.drop_zero, List.length_cons, h]
  · have h : escapedText? (cs.length + 3) cs = none := h
    simp only [escapedLiteral, List.drop_succ_cons, List.drop_zero, List.length_cons, h]
    exact ⟨_, rfl⟩

theorem unicodeLiteral_local (c : Char) :
    Local fun cs => unicodeLiteral (c :: '&' :: '\x27' :: cs) where
  suffix {cs R t} h := by
    obtain ⟨⟨text, r⟩, hread, heq⟩ := bind_eq_ok_iff.mp h
    cases heq
    obtain ⟨u, -, hcs, -, -⟩ := unicodeText_closes hread
    have hcs : cs = u ++ R := hcs
    rw [hcs]
    exact List.suffix_append u R
  follow {w R R' t} h hb := by
    obtain ⟨⟨text, r⟩, hread, heq⟩ := bind_eq_ok_iff.mp h
    cases heq
    obtain ⟨u, -, hcs, hR, hS⟩ := unicodeText_closes hread
    obtain rfl : w = u := List.append_cancel_right hcs
    refine .inl (bind_eq_ok_iff.mpr ⟨(text, R'), ?_, rfl⟩)
    -- the next character is no quote, or the literal would not have ended
    exact hS R' (apostrophe_class.head_of_not hb hR) _ (by simp; omega)
  trim {w B R t} h hB hblank := by
    obtain ⟨⟨text, r⟩, hread, heq⟩ := bind_eq_ok_iff.mp h
    cases heq
    obtain ⟨u, hu, hcs, -, -⟩ := unicodeText_closes hread
    -- the literal ends with a quote, so there are no blanks to trim
    exact (false_of_getLast? hcs hB hblank hu (by decide)).elim

/-- A block comment does not depend on what follows its end. -/
theorem blockComment_local (d : Dialect) : Local (blockComment d) := by
  have hexact : Exact (blockText? d.nestedComments 0) := by
    refine ⟨fun h => ?_, fun h _ => ?_⟩
    · obtain ⟨u, hu, hcs, -⟩ := blockText?_follow h
      exact ⟨u, '/', hu, by decide, hcs⟩
    · obtain ⟨u, -, hcs, hS⟩ := blockText?_follow h
      rw [List.append_cancel_right hcs]
      exact hS _
  refine hexact.local (fun t => .blank (.blockComment (String.ofList t)))
    (fun cs t rest h => ?_) fun cs h => ?_
  · rw [blockComment, h]
  · rw [blockComment, h]
    exact ⟨_, rfl⟩

/-! ### Dollar signs -/

/-- What the names between dollar signs are made of. -/
def isNamePart (c : Char) : Bool := Text.isAlphanumeric c || c == '_'

theorem isNamePart_class : Visible isNamePart := ⟨⟨by decide, by decide⟩, by decide +kernel⟩

theorem dollar_class : Visible (· == '$') := class_eq (by decide) (by decide)

/-- A placeholder ends before the first character that cannot be part of a name. -/
theorem dollarPlaceholder_local : Local fun cs => .ok (dollarPlaceholder cs) := by
  have h : (fun cs => .ok (dollarPlaceholder cs))
      = whileIn (fun c => Text.isAlphanumeric c || c == '_' || c == '$')
        fun name => .ok (.placeholder (String.ofList ('$' :: name))) := funext fun cs => rfl
  rw [h]
  exact .whileIn (isNamePart_class.union dollar_class) _

variable {name : List Char}

/-- What follows a dollar sign and a name. -/
def dollarRest (name : List Char) : List Char → Step
  | '$' :: body =>
    match textUntil? ('$' :: name ++ ['$']) body with
    | some (text, rest) => .ok (.literal .dollar (String.ofList text), rest)
    | none =>
      if name.isEmpty then .error ⟨"Unterminated dollar-quoted string", []⟩
      else .error ⟨"Unterminated dollar-quoted, expected $", []⟩
  | rest => .ok (.placeholder (String.ofList ('$' :: name)), rest)

/-- The name goes as far as it can, and the rest is read by what follows. -/
theorem dollarQuoted_eq (cs : List Char) : dollarQuoted cs =
    dollarRest (cs.takeWhile isNamePart) (cs.drop (cs.takeWhile isNamePart).length) := rfl

/-- A dollar and a name: what they are is decided behind the name. -/
theorem dollarQuoted_append {rest : List Char} (h : (name ++ rest).takeWhile isNamePart = name) :
    dollarQuoted (name ++ rest) = dollarRest name rest := by
  rw [dollarQuoted_eq, h, List.drop_left]

/-- A name and a dollar sign open text that the same mark closes. -/
theorem dollarQuoted_of_dollar (h : ∀ c ∈ name, isNamePart c = true) {body text R : List Char}
    (hread : textUntil? ('$' :: name ++ ['$']) body = some (text, R)) :
    dollarQuoted (name ++ '$' :: body) = .ok (.literal .dollar (String.ofList text), R) := by
  have hdollar : isNamePart '$' = false := by decide
  have hname := (Class.takeWhile_eq_iff isNamePart name ('$' :: body)).mpr ⟨h, hdollar⟩
  rw [dollarQuoted_append hname]
  simp only [dollarRest, hread]

/-- A name alone is a placeholder. -/
theorem dollarQuoted_of_not_dollar {R : List Char} (h : (name ++ R).takeWhile isNamePart = name)
    (hR : R.head?.any (· == '$') = false) :
    dollarQuoted (name ++ R) = .ok (.placeholder (String.ofList ('$' :: name)), R) := by
  rw [dollarQuoted_append h]
  unfold dollarRest
  split
  · cases hR
  · rfl

/-- What `dollarQuoted` reads: text between two marks, or a name. -/
theorem dollarQuoted_eq_ok {cs R : List Char} {t : Token} (h : dollarQuoted cs = .ok (t, R)) :
    (∃ name body text, (∀ c ∈ name, isNamePart c = true) ∧ cs = name ++ '$' :: body ∧
      textUntil? ('$' :: name ++ ['$']) body = some (text, R) ∧
      t = .literal .dollar (String.ofList text)) ∨
    ∃ name, cs = name ++ R ∧ (name ++ R).takeWhile isNamePart = name ∧
      R.head?.any (· == '$') = false ∧ t = .placeholder (String.ofList ('$' :: name)) := by
  -- the name is the longest run of its characters behind the dollar
  have hsplit := List.prefix_iff_eq_append.mp (List.takeWhile_prefix isNamePart (l := cs))
  generalize hname : cs.takeWhile isNamePart = name at hsplit
  generalize cs.drop name.length = rest at hsplit
  subst hsplit
  rw [dollarQuoted_append hname] at h
  unfold dollarRest at h
  split at h
  -- another dollar behind the name opens a literal, which needs its tag again
  · next body =>
    split at h
    · next text left hread =>
      cases h
      exact .inl ⟨name, body, text, ((Class.takeWhile_eq_iff _ _ _).mp hname).1, rfl, hread, rfl⟩
    · split at h <;> cases h
  -- anything else ends a placeholder
  · next hne =>
    cases h
    refine .inr ⟨name, rfl, hname, ?_, rfl⟩
    cases R with
    | nil => rfl
    | cons r R =>
      have hr : r ≠ '$' := fun hr => hne R (by rw [hr])
      simpa using hr

/-- A dollar-quoted literal ends at its tag. -/
theorem dollarQuoted_local : Local dollarQuoted where
  suffix {cs R t} h := by
    rcases dollarQuoted_eq_ok h with ⟨name, body, text, -, rfl, hread, -⟩ | ⟨name, rfl, -, -, -⟩
    · obtain ⟨u, rfl, -, -⟩ := textUntil?_follow (by simp) hread
      exact ⟨name ++ '$' :: u, by simp⟩
    · exact List.suffix_append name R
  follow {w R R' t} h hb := by
    rcases dollarQuoted_eq_ok h with ⟨name, body, text, hname, hcs, hread, rfl⟩ |
      ⟨name, hcs, hname, hR, rfl⟩
    · obtain ⟨u, rfl, -, hS⟩ := textUntil?_follow (by simp) hread
      obtain rfl : w = name ++ '$' :: u := List.append_cancel_right (hcs.trans (by simp))
      rw [List.append_assoc, List.cons_append]
      exact .inl (dollarQuoted_of_dollar hname (hS R'))
    · obtain rfl : w = name := List.append_cancel_right hcs
      have hR' : R'.head?.any (· == '$') = false := dollar_class.head_of_not hb hR
      exact .inl (dollarQuoted_of_not_dollar (isNamePart_class.takeWhile_follow hb hname) hR')
  trim {w B R t} h hB hblank := by
    rcases dollarQuoted_eq_ok h with ⟨name, body, text, -, hcs, hread, -⟩ | ⟨name, hcs, hname, -, -⟩
    · -- the mark behind the text ends in a dollar sign
      obtain ⟨u, rfl, ⟨v, rfl⟩, -⟩ := textUntil?_follow (by simp) hread
      have hlast : (name ++ '$' :: v ++ '$' :: name ++ ['$']).getLast? = some '$' :=
        List.getLast?_concat
      exact (false_of_getLast? (by simpa using hcs) hB hblank hlast (by decide)).elim
    · rw [← List.append_assoc] at hcs
      obtain rfl := List.append_cancel_right hcs
      obtain ⟨b, B, rfl⟩ := List.exists_cons_of_ne_nil hB
      have hb := ((Class.takeWhile_eq_iff isNamePart _ R).mp hname).1 b (by simp)
      have hseen := hblank b (List.mem_cons_self ..)
      rw [isNamePart_class.isBlank_of_mem hb] at hseen
      cases hseen

/-! ### Line comments -/

/-- The characters that end a line comment. -/
def endsLine (d : Dialect) (c : Char) : Bool := c == '\n' || (d.returnEndsComment && c == '\r')

/-- A line comment up to where its line ends. -/
theorem lineComment_append {d : Dialect} {text S : List Char}
    (htext : ∀ c ∈ text, endsLine d c = false) (hS : ∀ c ∈ S.head?, endsLine d c = true) :
    lineComment d (text ++ S)
      = (.blank (.lineComment (String.ofList (text ++ S.take 1))), S.drop 1) := by
  -- the two ways to say that a character does not end the line
  have hkept : ∀ c, (c != '\n' && !(d.returnEndsComment && c == '\r')) = !endsLine d c := fun c => by
    rw [endsLine, Bool.not_or]
    rfl
  -- the comment is the run up to the end of the line
  have hrun : (text ++ S).takeWhile (fun c => c != '\n' && !(d.returnEndsComment && c == '\r'))
      = text := by
    rw [Class.takeWhile_eq_iff]
    refine ⟨fun c hc => by rw [hkept, htext c hc]; rfl, ?_⟩
    cases S with
    | nil => rfl
    | cons c S =>
      have hc : endsLine d c = true := hS c rfl
      rw [List.head?_cons, Option.any_some, hkept, hc]
      rfl
  simp only [lineComment, hrun, List.drop_left]

/-- A text up to its first character that ends a line. -/
theorem exists_line (d : Dialect) (cs : List Char) :
    ∃ text S, cs = text ++ S ∧ (∀ c ∈ text, endsLine d c = false) ∧
      ∀ c ∈ S.head?, endsLine d c = true := by
  refine ⟨cs.takeWhile (!endsLine d ·), cs.dropWhile (!endsLine d ·),
    List.takeWhile_append_dropWhile.symm, fun c hc => ?_, fun c hc => ?_⟩
  · simpa using List.all_eq_true.mp List.all_takeWhile c hc
  · have h := List.head?_dropWhile_not (!endsLine d ·) cs
    rw [Option.mem_def.mp hc] at h
    simpa using h

/-- A line comment in front of `R` ends with its line, or `R` is the end of the text. -/
theorem lineComment_eq {d : Dialect} {w R : List Char} {t : Token}
    (h : lineComment d (w ++ R) = (t, R)) :
    (∀ S, lineComment d (w ++ S) = (t, S)) ∨
      R = [] ∧ (∀ c ∈ w, endsLine d c = false) ∧ t = .blank (.lineComment (String.ofList w)) := by
  obtain ⟨text, S, hcs, htext, hS⟩ := exists_line d (w ++ R)
  rw [hcs, lineComment_append htext hS] at h
  obtain ⟨rfl, rfl⟩ := Prod.mk.inj h
  cases S with
  | nil =>
    -- the line does not end
    have hw : w = text := by simpa using hcs
    refine .inr ⟨rfl, hw ▸ htext, by simp [hw]⟩
  | cons e R =>
    have hw : w = text ++ [e] := List.append_cancel_right (hcs.trans (by simp))
    have he : ∀ S : List Char, ∀ c ∈ (e :: S).head?, endsLine d c = true := fun _ => hS
    refine .inl fun S => ?_
    rw [hw, List.append_assoc, List.singleton_append, lineComment_append htext (he S)]
    rfl

end QueryGate.Sql.Lexer
