import QueryGate.Proofs.Lexing.Front

namespace QueryGate.Sql.Lexer

/-!
# Numbers are read locally

A number is read in stages: digits, a point, digits, an exponent, a suffix.  Each stage stops at
the same place before texts that look alike (`digitRun_steady`, `pointed_steady`,
`afterMantissa_local`), and `numberOrPeriod_local` puts them together.

* `numberOrPeriod_digits` — digits are read as the number that they spell;
* `numberToken_spells` / `numberOrPeriod_replace` — a number spells what was taken for it, and other
  digits could stand in its place.
-/

/-! ### Runs of digits -/

/-- Whether a run of digits goes on. -/
def runs (separators : Bool) (digit : Char → Bool) : List Char → Bool
  | [] => false
  | c :: cs => digit c || (separators && c == '_' && cs.head?.any isHexDigit)

theorem isHexDigit_class : Visible isHexDigit := ⟨⟨by decide, by decide⟩, by decide⟩

theorem isDigit_class : Visible Char.isDigit := ⟨⟨by decide, by decide⟩, by decide⟩

/-- Digits, breaks and blanks are no separators. -/
theorem ne_underscore {c : Char} (h : c.isDigit = true ∨ c ∈ breaks ++ blanks) : (c == '_') = false := by
  rw [beq_eq_false_iff_ne]
  rintro rfl
  revert h
  decide

section

variable {s : Bool} {q : Char → Bool} {cs ds w R R' : List Char}

/-- A run goes on as long as its test holds. -/
theorem digitRun_of_runs {c : Char} (h : runs s q (c :: cs) = true) :
    digitRun s q (c :: cs) = (c :: (digitRun s q cs).1, (digitRun s q cs).2) := by
  rw [digitRun]
  exact if_pos h

/-- A run ends where its test fails. -/
theorem digitRun_of_not_runs (h : runs s q cs = false) : digitRun s q cs = ([], cs) := by
  cases cs with
  | nil => rfl
  | cons c cs =>
    rw [digitRun]
    exact if_neg (Bool.eq_false_iff.mp h)

/-- A run takes the front of a text. -/
theorem digitRun_suffix (s : Bool) (q : Char → Bool) (cs : List Char) :
    (digitRun s q cs).2 <:+ cs := by
  induction cs with
  | nil => exact List.suffix_rfl
  | cons c cs ih =>
    cases h : runs s q (c :: cs)
    · have hrest : (digitRun s q (c :: cs)).2 = c :: cs := by rw [digitRun_of_not_runs h]
      exact ⟨[], hrest⟩
    · rw [digitRun_of_runs h]
      exact ih.trans (List.suffix_cons c cs)

/-- A run that leaves everything is empty. -/
theorem digitRun_eq_self (h : digitRun s q R = (ds, R)) : ds = [] ∧ runs s q R = false := by
  cases hr : runs s q R with
  | false =>
    rw [digitRun_of_not_runs hr] at h
    exact ⟨(Prod.mk.inj h).1.symm, rfl⟩
  | true =>
    cases R with
    | nil => cases hr
    | cons c cs =>
      rw [digitRun_of_runs hr] at h
      have hlen := (digitRun_suffix s q cs).length_le
      rw [(Prod.mk.inj h).2] at hlen
      exact absurd hlen (by simp)

/-- Where a run stops, no other one starts. -/
theorem runs_digitRun (s : Bool) (q : Char → Bool) (cs : List Char) :
    runs s q (digitRun s q cs).2 = false := by
  induction cs with
  | nil => rfl
  | cons c cs ih =>
    cases h : runs s q (c :: cs)
    · rw [digitRun_of_not_runs h]
      exact h
    · rw [digitRun_of_runs h]
      exact ih

/-- Texts that look alike both start with a run or neither does. -/
theorem runs_alike (hq : Visible q) (hslash : q '/' = false) (h : Alike R R') :
    runs s q R' = runs s q R := by
  -- neither break, blank, digit nor slash is the underscore, and the test treats them alike
  cases h with
  | @stop b more hb =>
    show (q b || (s && b == '_' && _)) = false
    rw [hq.breaks b hb, ne_underscore (.inr (List.mem_append_left _ hb)), Bool.and_false,
      Bool.false_and]
    rfl
  | @trim b more hb =>
    have hmem := mem_blanks hb
    show false = (q b || (s && b == '_' && _))
    rw [hq.blanks b hmem, ne_underscore (.inr (List.mem_append_right _ hmem)), Bool.and_false,
      Bool.false_and]
    rfl
  | @digits c c' cs cs' hc hc' =>
    show (q c' || (s && c' == '_' && _)) = (q c || (s && c == '_' && _))
    rw [hq.digits _ (mem_tenDigits hc), hq.digits _ (mem_tenDigits hc'), ne_underscore (.inl hc),
      ne_underscore (.inl hc'), Bool.and_false, Bool.false_and, Bool.false_and]
  | slash cs cs' =>
    show (q ' ' || (s && ' ' == '_' && _)) = (q '/' || (s && '/' == '_' && _))
    rw [hq.breaks ' ' (by decide), hslash, ne_underscore (.inr (by decide)), Bool.and_false,
      Bool.false_and, show ('/' == '_') = false by decide, Bool.and_false, Bool.false_and]
  | cons c h =>
    rw [runs, runs, isHexDigit_class.head (by decide) h]

/-- What a run takes stands before what it leaves. -/
theorem digitRun_split (s : Bool) (q : Char → Bool) (cs : List Char) :
    (digitRun s q cs).1 ++ (digitRun s q cs).2 = cs := by
  induction cs with
  | nil => rfl
  | cons c cs ih =>
    cases h : runs s q (c :: cs)
    · rw [digitRun_of_not_runs h]
      rfl
    · rw [digitRun_of_runs h, List.cons_append, ih]

theorem digitRun_visible (s : Bool) (hq : Visible q) (cs : List Char) :
    ∀ c ∈ (digitRun s q cs).1, Text.isBlank c = false := by
  induction cs with
  | nil => exact nofun
  | cons c cs ih =>
    cases h : runs s q (c :: cs)
    · rw [digitRun_of_not_runs h]
      exact nofun
    · rw [digitRun_of_runs h]
      refine List.forall_mem_cons.mpr ⟨?_, ih⟩
      rcases Bool.or_eq_true_iff.mp h with hdigit | hseparator
      · exact hq.isBlank_of_mem hdigit
      · simp only [Bool.and_eq_true, beq_iff_eq] at hseparator
        rw [hseparator.1.2]
        decide

/-- A run ends alike before texts that begin alike. -/
theorem digitRun_steady (s : Bool) (hq : Visible q) (hslash : q '/' = false) :
    Steady (digitRun s q) where
  suffix := digitRun_suffix s q
  visible {w R ds} h := by
    have hsplit := digitRun_split s q (w ++ R)
    have hvisible := digitRun_visible s hq (w ++ R)
    rw [h] at hsplit hvisible
    rwa [List.append_cancel_right hsplit] at hvisible
  follow {w R R' ds} h hR := by
    -- by induction on the run that is read
    induction w generalizing ds with
    | nil =>
      obtain ⟨rfl, hstop⟩ := digitRun_eq_self h
      rw [List.nil_append] at hstop ⊢
      exact digitRun_of_not_runs (by rw [runs_alike hq hslash hR, hstop])
    | cons c w ih =>
      -- what follows the run begins alike, so the run ends at the same place
      have halike : Alike (c :: (w ++ R)) (c :: (w ++ R')) := .cons c (hR.append w)
      rw [List.cons_append] at h ⊢
      cases hr : runs s q (c :: (w ++ R)) with
      | false =>
        rw [digitRun_of_not_runs hr] at h
        -- the run would have ended before `c`, but it left `R` only
        exact absurd (congrArg List.length (Prod.mk.inj h).2) (by simp; omega)
      | true =>
        rw [digitRun_of_runs hr] at h
        obtain ⟨rfl, hrest⟩ := Prod.mk.inj h
        have hrec := ih (Prod.ext rfl hrest)
        rw [digitRun_of_runs (by rw [runs_alike hq hslash halike, hr]), hrec]

/-- A run of digits and nothing else. -/
theorem digitRun_append (hw : ∀ c ∈ w, q c = true) (hR : runs s q R = false) :
    digitRun s q (w ++ R) = (w, R) := by
  induction w with
  | nil => exact digitRun_of_not_runs hR
  | cons c w ih =>
    have hc : runs s q (c :: (w ++ R)) = true := by simp [runs, hw c (List.mem_cons_self ..)]
    rw [List.cons_append, digitRun_of_runs hc, ih fun x hx => hw x (List.mem_cons_of_mem c hx)]

end

/-! ### Points -/

/-- A point at the front of a text, and the rest. -/
def pointed : List Char → List Char × List Char
  | '.' :: cs => (['.'], cs)
  | cs => ([], cs)

theorem point_class : Visible (· == '.') := class_eq (by decide) (by decide)

/-- Without a period there is no fraction. -/
theorem pointed_of_not_point {cs : List Char} (h : cs.head?.any (· == '.') = false) :
    pointed cs = ([], cs) := by
  unfold pointed
  split
  · cases h
  · rfl

/-- Fraction and rest are the whole text. -/
theorem pointed_split (cs : List Char) : (pointed cs).1 ++ (pointed cs).2 = cs := by
  unfold pointed
  split <;> rfl

/-- A fraction ends alike before texts that begin alike. -/
theorem pointed_steady : Steady pointed where
  suffix cs := ⟨_, pointed_split cs⟩
  visible {w R p} h := by
    have hsplit := pointed_split (w ++ R)
    have hvisible : ∀ c ∈ (pointed (w ++ R)).1, Text.isBlank c = false := by
      unfold pointed
      split
      · exact (by decide : ∀ c ∈ ['.'], Text.isBlank c = false)
      · exact nofun
    rw [h] at hsplit hvisible
    rwa [List.append_cancel_right hsplit] at hvisible
  follow {w R R' p} h hR := by
    have hsplit := pointed_split (w ++ R)
    rw [h] at hsplit
    obtain rfl : p = w := List.append_cancel_right hsplit
    cases p with
    | nil =>
      -- no period follows the empty fraction
      have hhead : R.head?.any (· == '.') = false := by
        unfold pointed at h
        split at h
        · cases h
        · next hne =>
          cases hR : R with
          | nil => rfl
          | cons c cs => simpa using fun hc : c = '.' => hne cs (by rw [List.nil_append, hR, hc])
      exact pointed_of_not_point (by rw [List.nil_append]; exact point_class.head_of_not hR hhead)
    | cons c w =>
      unfold pointed at h
      split at h
      · next heq =>
        cases h
        rfl
      · cases h

/-! ### Exponents -/

/-- The marks of an exponent. -/
def isMark (c : Char) : Bool := c == 'e' || c == 'E'

theorem isMark_class : Visible isMark := ⟨⟨by decide, by decide⟩, by decide⟩

/-- A sign at the front of a text, and the rest. -/
def signed : List Char → List Char × List Char
  | '+' :: cs => (['+'], cs)
  | '-' :: cs => (['-'], cs)
  | cs => ([], cs)

/-- Sign and rest are the whole text. -/
theorem signed_split (cs : List Char) : (signed cs).1 ++ (signed cs).2 = cs := by
  unfold signed
  split <;> rfl

/-- Digits, breaks and blanks are no signs. -/
theorem ne_sign {c : Char} (h : c.isDigit = true ∨ c ∈ breaks ++ blanks) : c ≠ '+' ∧ c ≠ '-' := by
  constructor <;> rintro rfl <;> revert h <;> decide

theorem signed_of_ne_sign {c : Char} (h : c ≠ '+' ∧ c ≠ '-') (cs : List Char) :
    signed (c :: cs) = ([], c :: cs) := by
  unfold signed
  split
  · next heq => exact absurd (List.cons.inj heq).1 h.1
  · next heq => exact absurd (List.cons.inj heq).1 h.2
  · rfl

/-- Texts that look alike start with the same sign, and look alike behind it. -/
theorem signed_alike {R R' : List Char} (h : Alike R R') :
    (signed R').1 = (signed R).1 ∧ Alike (signed R).2 (signed R').2 := by
  -- a sign is none of the characters that texts may differ in
  cases h with
  | stop more hb =>
    rw [signed_of_ne_sign (ne_sign (.inr (List.mem_append_left _ hb)))]
    exact ⟨rfl, .stop more hb⟩
  | trim more hb =>
    rw [signed_of_ne_sign (ne_sign (.inr (List.mem_append_right _ (mem_blanks hb))))]
    exact ⟨rfl, .trim more hb⟩
  | digits cs cs' hc hc' =>
    rw [signed_of_ne_sign (ne_sign (.inl hc)), signed_of_ne_sign (ne_sign (.inl hc'))]
    exact ⟨rfl, .digits cs cs' hc hc'⟩
  | slash cs cs' => exact ⟨rfl, .slash cs cs'⟩
  | cons c h =>
    -- both signs are taken, and what is behind them begins alike
    by_cases hplus : c = '+'
    · subst hplus
      exact ⟨rfl, h⟩
    by_cases hminus : c = '-'
    · subst hminus
      exact ⟨rfl, h⟩
    rw [signed_of_ne_sign ⟨hplus, hminus⟩, signed_of_ne_sign ⟨hplus, hminus⟩]
    exact ⟨rfl, .cons c h⟩

/-- The digits of an exponent behind its mark. -/
def exponentDigits (cs : List Char) : List Char := (signed cs).2.takeWhile Char.isDigit

/-- What an exponent is, by its mark, its sign and its digits. -/
theorem exponentOf_cons (e : Char) (cs : List Char) :
    exponentOf (e :: cs)
      = if isMark e then
          if (exponentDigits cs).isEmpty then .markOnly
          else .digits (e :: (signed cs).1 ++ exponentDigits cs)
            ((signed cs).2.drop (exponentDigits cs).length)
        else .none := rfl

/-- There is no exponent exactly where no mark of one stands. -/
theorem exponentOf_eq_none_iff (cs : List Char) :
    exponentOf cs = .none ↔ cs.head?.any isMark = false := by
  cases cs with
  | nil => simp [exponentOf]
  | cons e cs =>
    rw [exponentOf_cons, List.head?_cons, Option.any_some]
    cases isMark e
    · simp
    · cases (exponentDigits cs).isEmpty <;> simp

/-- A mark alone is one before every text that looks alike. -/
theorem exponentOf_eq_markOnly {R R' : List Char} (h : exponentOf R = .markOnly) (hR : Alike R R') :
    exponentOf R' = .markOnly := by
  cases hR with
  | stop more hb => cases h
  | trim more hb =>
    rw [exponentOf_cons, isMark_class.blanks _ (mem_blanks hb)] at h
    cases h
  | @digits c c' cs cs' hc hc' =>
    have hmark : isMark c = false := by
      rw [isMark_class.digits c (mem_tenDigits hc)]
      decide
    rw [exponentOf_cons, hmark] at h
    cases h
  | slash cs cs' => cases h
  | @cons c cs cs' hcs =>
    rw [exponentOf_cons] at h ⊢
    cases hmark : isMark c with
    | false =>
      rw [hmark] at h
      cases h
    | true =>
      simp only [hmark, if_true] at h ⊢
      have hempty : exponentDigits cs = [] := by
        split at h
        · next hempty => exact List.isEmpty_iff.mp hempty
        · cases h
      -- no digit follows the sign, there or here
      have hhead : (signed cs).2.head?.any Char.isDigit = false :=
        ((Class.takeWhile_eq_iff Char.isDigit [] (signed cs).2).mp hempty).2
      have hempty' : exponentDigits cs' = [] :=
        (Class.takeWhile_eq_iff Char.isDigit [] (signed cs').2).mpr
          ⟨by simp, isDigit_class.head_of_not (signed_alike hcs).2 hhead⟩
      rw [if_pos (by simp [hempty'])]

/-- The exponent that a text starts with: all that stands before what it leaves. -/
theorem exponentOf_eq_digits {cs e R : List Char} (h : exponentOf cs = .digits e R) :
    cs = e ++ R ∧ e.head?.any isMark = true ∧ R.head?.any Char.isDigit = false ∧
      ∀ S : List Char, S.head?.any Char.isDigit = false → exponentOf (e ++ S) = .digits e S := by
  cases cs with
  | nil => cases h
  | cons m cs =>
    rw [exponentOf_cons] at h
    by_cases hmark : isMark m = false
    · rw [hmark] at h
      cases h
    rw [Bool.not_eq_false] at hmark
    by_cases hempty : (exponentDigits cs).isEmpty = true
    · rw [if_pos hmark, if_pos hempty] at h
      cases h
    rw [if_pos hmark, if_neg hempty] at h
    obtain ⟨he, hR⟩ := Exponent.digits.inj h
    have hsign := signed_split cs
    have hdigits : exponentDigits cs ++ R = (signed cs).2 := by
      rw [← hR]
      exact List.prefix_iff_eq_append.mp (List.takeWhile_prefix _)
    generalize hds : exponentDigits cs = ds at *
    have hrun : (ds ++ R).takeWhile Char.isDigit = ds := by
      rw [hdigits]
      exact hds
    obtain ⟨hall, hhead⟩ := (Class.takeWhile_eq_iff Char.isDigit ds R).mp hrun
    have hcs : m :: cs = e ++ R := by
      rw [← he, List.cons_append, List.cons_append, List.append_assoc, hdigits, hsign]
    refine ⟨hcs, by rw [← he]; exact hmark, hhead, fun S hS => ?_⟩
    -- the sign is read again before the same digits
    have hne : ds ≠ [] := by simpa using hempty
    have hresign : signed ((signed cs).1 ++ (ds ++ S)) = ((signed cs).1, ds ++ S) := by
      have hplain : signed (ds ++ S) = ([], ds ++ S) := by
        obtain ⟨d, ds', rfl⟩ := List.exists_cons_of_ne_nil hne
        exact signed_of_ne_sign (ne_sign (.inl (hall d (List.mem_cons_self ..)))) (ds' ++ S)
      have hone : (signed cs).1 = [] ∨ (signed cs).1 = ['+'] ∨ (signed cs).1 = ['-'] := by
        unfold signed
        split
        · exact .inr (.inl rfl)
        · exact .inr (.inr rfl)
        · exact .inl rfl
      rcases hone with hs | hs | hs <;> rw [hs]
      · exact hplain
      · rfl
      · rfl
    have hdigits' : exponentDigits ((signed cs).1 ++ (ds ++ S)) = ds := by
      unfold exponentDigits
      rw [hresign]
      exact (Class.takeWhile_eq_iff Char.isDigit ds S).mpr ⟨hall, hS⟩
    rw [← he, List.cons_append, List.cons_append, List.append_assoc, exponentOf_cons, if_pos hmark,
      hdigits', hresign, if_neg hempty, List.drop_left]
    rfl

/-- An exponent holds no blank. -/
theorem exponentOf_visible {cs e R : List Char} (h : exponentOf cs = .digits e R) :
    ∀ c ∈ e, Text.isBlank c = false := by
  cases cs with
  | nil => cases h
  | cons m cs =>
    rw [exponentOf_cons] at h
    split at h
    · next hmark =>
      split at h
      · cases h
      · cases h
        -- mark, sign and digits are visible
        have hsign : ∀ c ∈ (signed cs).1, Text.isBlank c = false := by
          unfold signed
          split
          · exact (by decide : ∀ c ∈ ['+'], Text.isBlank c = false)
          · exact (by decide : ∀ c ∈ ['-'], Text.isBlank c = false)
          · exact nofun
        have hdigits : ∀ c ∈ exponentDigits cs, c.isDigit = true :=
          List.all_eq_true.mp List.all_takeWhile
        rw [List.cons_append]
        refine List.forall_mem_cons.mpr ⟨isMark_class.isBlank_of_mem hmark, fun c hc => ?_⟩
        rcases List.mem_append.mp hc with hc | hc
        · exact hsign c hc
        · exact isDigit_class.isBlank_of_mem (hdigits c hc)
    · cases h

/-! ### Behind the mantissa -/

theorem suffix_class : Visible (· == 'L') := class_eq (by decide) (by decide)

theorem continuesWord_class (d : Dialect) : Class d.continuesWord := by
  cases d <;> exact ⟨by decide, by decide⟩

/-- A number depends on the next character only. -/
theorem numberToken_local (text : List Char) : Local fun cs => .ok (numberToken text cs) := by
  have h : (fun cs => .ok (numberToken text cs))
      = whenHead (· == 'L') (fun _ cs => .ok (.number (String.ofList text) true, cs))
        fun cs => .ok (.number (String.ofList text) false, cs) := by
    funext cs
    unfold numberToken
    split
    · rfl
    · next hne =>
      cases cs with
      | nil => rfl
      | cons c cs =>
        -- the next character is no suffix
        have hc : ¬(c == 'L') = true := fun hc => hne cs (by rw [beq_iff_eq.mp hc])
        rw [whenHead, if_neg hc]
  rw [h]
  exact .whenHead suffix_class (fun _ => .keep _) (.keep _)

/-- What a mantissa without a mark behind it is: a number, or a word that starts with it. -/
def unmarked (d : Dialect) (mantissa rest : List Char) : Token × List Char :=
  let tail := if d.numericWords then rest.takeWhile d.continuesWord else []
  if tail.isEmpty then numberToken mantissa rest
  else (.word (String.ofList (mantissa ++ tail)) none, rest.drop tail.length)

theorem unmarked_local (d : Dialect) (mantissa : List Char) :
    Local fun cs => .ok (unmarked d mantissa cs) := by
  cases hd : d.numericWords with
  | false =>
    have h : (fun cs => .ok (unmarked d mantissa cs))
        = fun cs : List Char => (.ok (numberToken mantissa cs) : Step) :=
      funext fun cs => by simp [unmarked, hd]
    rw [h]
    exact numberToken_local mantissa
  | true =>
    have hL : d.continuesWord 'L' = true := by cases d <;> decide
    have h : (fun cs => .ok (unmarked d mantissa cs)) = whileIn d.continuesWord fun tail =>
        .ok (if tail.isEmpty then .number (String.ofList mantissa) false
          else .word (String.ofList (mantissa ++ tail)) none) := by
      funext cs
      simp only [unmarked, hd, if_true, whileIn]
      split
      · next hempty =>
        -- the suffix would continue a word
        have hhead := ((Class.takeWhile_eq_iff d.continuesWord [] cs).mp
          (List.isEmpty_iff.mp hempty)).2
        rw [List.isEmpty_iff.mp hempty]
        unfold numberToken
        split
        · rw [List.head?_cons, Option.any_some, hL] at hhead
          cases hhead
        · rfl
      · rfl
    rw [h]
    refine whileIn_local (continuesWord_class d) _ fun {w B t} hB hblank _ ht => ⟨_, rfl, .inr ?_⟩
    obtain ⟨b, B, rfl⟩ := List.exists_cons_of_ne_nil hB
    rw [if_neg (by simp)] at ht
    cases ht
    exact ⟨_, rfl, b, by simp, hblank b (List.mem_cons_self ..)⟩

/-- What a number is whose exponent has been looked for. -/
def marked (d : Dialect) (previous : Option Token) (text rest : List Char) : Token × List Char :=
  if d.numericWords && previous == some (.symbol ".") then (.word (String.ofList text) none, rest)
  else numberToken text rest

theorem marked_local (d : Dialect) (previous : Option Token) (text : List Char) :
    Local fun cs => .ok (marked d previous text cs) := by
  unfold marked
  split
  · exact .keep _
  · exact numberToken_local text

/-- What stands behind the digits of a number. -/
def afterMantissa (d : Dialect) (previous : Option Token) (mantissa rest : List Char) :
    Token × List Char :=
  match exponentOf rest with
  | .none => unmarked d mantissa rest
  | .markOnly => marked d previous mantissa rest
  | .digits e rest => marked d previous (mantissa ++ e) rest

theorem afterMantissa_local (d : Dialect) (previous : Option Token) (mantissa : List Char) :
    Local fun cs => .ok (afterMantissa d previous mantissa cs) where
  suffix {cs R t} h := by
    unfold afterMantissa at h
    split at h
    · exact (unmarked_local d mantissa).suffix h
    · exact (marked_local d previous mantissa).suffix h
    · next e rest he =>
      obtain ⟨hcs, -, -, -⟩ := exponentOf_eq_digits he
      rw [hcs]
      exact ((marked_local d previous _).suffix h).trans (List.suffix_append e rest)
  follow {w R R' t} h hR := by
    have halike := hR.append w
    unfold afterMantissa at h ⊢
    cases he : exponentOf (w ++ R) with
    | none =>
      have he' : exponentOf (w ++ R') = .none := by
        rw [exponentOf_eq_none_iff] at he ⊢
        rw [isMark_class.head (by decide) halike, he]
      simp only [he] at h
      simp only [he']
      exact (unmarked_local d mantissa).follow h hR
    | markOnly =>
      simp only [he] at h
      simp only [exponentOf_eq_markOnly he halike]
      exact (marked_local d previous mantissa).follow h hR
    | digits e rest =>
      simp only [he] at h
      obtain ⟨hw, -, hhead, hS⟩ := exponentOf_eq_digits he
      obtain ⟨v, rfl⟩ := (marked_local d previous _).suffix h
      obtain rfl : w = e ++ v := List.append_cancel_right (hw.trans (List.append_assoc e v R).symm)
      have he' : exponentOf (e ++ v ++ R') = .digits e (v ++ R') := by
        rw [List.append_assoc]
        exact hS _ (isDigit_class.head_of_not (hR.append v) hhead)
      simp only [he']
      exact (marked_local d previous _).follow h hR
  trim {w B R t} h hB hblank := by
    have halike := Alike.trimmed w hB hblank R
    unfold afterMantissa at h ⊢
    cases he : exponentOf (w ++ (B ++ R)) with
    | none =>
      have he' : exponentOf w = .none := by
        rw [exponentOf_eq_none_iff] at he ⊢
        rw [isMark_class.head (by decide) halike, he]
      simp only [he] at h
      simp only [he']
      exact (unmarked_local d mantissa).trim h hB hblank
    | markOnly =>
      simp only [he] at h
      simp only [exponentOf_eq_markOnly he halike]
      exact (marked_local d previous mantissa).trim h hB hblank
    | digits e rest =>
      simp only [he] at h
      obtain ⟨hw, -, hhead, hS⟩ := exponentOf_eq_digits he
      obtain ⟨v, rfl⟩ := (marked_local d previous _).suffix h
      -- the blanks stand behind the exponent
      have hsplit : e ++ v = w ++ B := by
        rw [← List.append_assoc, ← List.append_assoc] at hw
        exact (List.append_cancel_right hw).symm
      obtain ⟨w', rfl, rfl⟩ := exists_of_visible hsplit (exponentOf_visible he) hblank
      rw [List.append_assoc] at h hhead
      simp only [hS w' (isDigit_class.head_of_not (.trimmed w' hB hblank R) hhead)]
      exact (marked_local d previous _).trim h hB hblank

/-! ### Numbers -/

/-- What stands behind the point of a number, if it has one. -/
def decimalFrom (d : Dialect) (previous : Option Token) (mantissa rest : List Char) :
    Token × List Char :=
  if mantissa == ['.'] && d.numericWords && afterWord previous then (.symbol ".", rest)
  else
    let fraction := digitRun d.digitSeparators Char.isDigit rest
    if mantissa ++ fraction.1 == ['.'] then (.symbol ".", fraction.2)
    else afterMantissa d previous (mantissa ++ fraction.1) fraction.2

theorem decimalFrom_local (d : Dialect) (previous : Option Token) (mantissa : List Char) :
    Local fun cs => .ok (decimalFrom d previous mantissa cs) := by
  -- the fraction is a steady run, and the stages behind it are local
  have hstage := (digitRun_steady d.digitSeparators isDigit_class (by decide)).andThen
    (g := fun fraction cs =>
      if mantissa ++ fraction == ['.'] then .ok (.symbol ".", cs)
      else .ok (afterMantissa d previous (mantissa ++ fraction) cs)) fun fraction => by
    split
    · exact .keep _
    · exact afterMantissa_local d previous _
  -- a lone period behind a word is a separator of names
  by_cases hpoint : (mantissa == ['.'] && d.numericWords && afterWord previous) = true
  · have h : (fun cs => .ok (decimalFrom d previous mantissa cs))
        = fun cs : List Char => (.ok (.symbol ".", cs) : Step) :=
      funext fun cs => by rw [decimalFrom, if_pos hpoint]
    rw [h]
    exact .keep _
  · refine cast (congrArg Local (funext fun cs => ?_)) hstage
    rw [decimalFrom, if_neg hpoint]
    split <;> simp_all

/-- A decimal in two steps: the fraction, and what follows it. -/
theorem decimalToken_eq (d : Dialect) (previous : Option Token) (whole cs : List Char) :
    decimalToken d previous whole cs
      = decimalFrom d previous (whole ++ (pointed cs).1) (pointed cs).2 := by
  unfold pointed
  split
  · rfl
  · next hne =>
    rw [List.append_nil]
    unfold decimalToken
    split
    next heq =>
      split at heq
      · exact absurd rfl (hne _)
      · cases heq
        rfl

theorem decimalToken_local (d : Dialect) (previous : Option Token) (whole : List Char) :
    Local fun cs => .ok (decimalToken d previous whole cs) := by
  simp only [decimalToken_eq]
  exact pointed_steady.andThen fun p => decimalFrom_local d previous (whole ++ p)

/-- What stands behind the integral digits of a number. -/
def afterWhole (d : Dialect) (previous : Option Token) (whole : List Char) : List Char → Step
  | 'x' :: cs =>
    if whole == ['0'] then
      let hex := digitRun d.digitSeparators isHexDigit cs
      .ok (.literal .hex (String.ofList hex.1), hex.2)
    else .ok (decimalToken d previous whole ('x' :: cs))
  | cs => .ok (decimalToken d previous whole cs)

/-- Only a zero before an `x` begins a hexadecimal number. -/
theorem afterWhole_of_ne {d : Dialect} {previous : Option Token} {whole cs : List Char}
    (h : whole = ['0'] → cs.head?.any (· == 'x') = false) :
    afterWhole d previous whole cs = .ok (decimalToken d previous whole cs) := by
  unfold afterWhole
  split
  · split
    · next hzero => cases h (beq_iff_eq.mp hzero)
    · rfl
  · rfl

theorem afterWhole_local (d : Dialect) (previous : Option Token) (whole : List Char) :
    Local (afterWhole d previous whole) := by
  -- only a single zero looks for an `x`
  by_cases hzero : whole = ['0']
  · have h : afterWhole d previous whole = whenHead (· == 'x')
        (fun _ cs => .ok (.literal .hex (String.ofList (digitRun d.digitSeparators isHexDigit cs).1),
          (digitRun d.digitSeparators isHexDigit cs).2))
        fun cs => .ok (decimalToken d previous whole cs) := by
      funext cs
      cases cs with
      | nil => rfl
      | cons c cs =>
        by_cases hc : c = 'x'
        · subst hc hzero
          rfl
        · rw [whenHead, if_neg (by simpa using hc)]
          exact afterWhole_of_ne fun _ => by simpa using hc
    rw [h]
    -- behind the `x` stands a run of hexadecimal digits
    refine .whenHead (class_eq (by decide) (by decide)) (fun _ => ?_)
      (decimalToken_local d previous whole)
    exact (digitRun_steady d.digitSeparators isHexDigit_class (by decide)).andThen
      fun hex => .keep (.literal .hex (String.ofList hex))
  · have h : afterWhole d previous whole = fun cs => .ok (decimalToken d previous whole cs) :=
      funext fun cs => afterWhole_of_ne fun h => absurd h hzero
    rw [h]
    exact decimalToken_local d previous whole

/-- A digit begins a number. -/
theorem numberOrPeriod_digit (d : Dialect) (previous : Option Token) {c : Char}
    (hc : c.isDigit = true) (cs : List Char) :
    numberOrPeriod d previous (c :: cs)
      = afterWhole d previous (c :: (digitRun d.digitSeparators Char.isDigit cs).1)
          (digitRun d.digitSeparators Char.isDigit cs).2 := by
  have hruns : runs d.digitSeparators Char.isDigit (c :: cs) = true := by simp [runs, hc]
  -- the text begins with a digit and not with a period
  have hpoint : ∀ more, ¬c :: cs = '.' :: more := fun more h => by
    rw [(List.cons.inj h).1] at hc
    cases hc
  unfold numberOrPeriod
  split
  · next heq => exact absurd heq (hpoint _)
  · rw [digitRun_of_runs hruns]
    generalize (digitRun d.digitSeparators Char.isDigit cs).2 = rest
    dsimp only
    split
    · rfl
    -- a first run that is not `0` is no hexadecimal number
    · next hne =>
      unfold afterWhole
      split
      · exact absurd rfl (hne _)
      · rfl

/-- A period before an underscore separates names; any other may begin a fraction. -/
theorem numberOrPeriod_point (d : Dialect) (previous : Option Token) (cs : List Char) :
    numberOrPeriod d previous ('.' :: cs)
      = if cs.head?.any (· == '_') then
          if afterWord previous then .ok (.symbol ".", cs)
          else .error ⟨"Unexpected character '_'", '.' :: cs⟩
        else .ok (decimalFrom d previous ['.'] cs) := by
  have hruns : runs d.digitSeparators Char.isDigit ('.' :: cs) = false := by
    cases d <;> rfl
  unfold numberOrPeriod
  split
  · next heq =>
    cases heq
    rfl
  · next hne =>
    -- no underscore follows the period
    have hhead : ¬cs.head?.any (· == '_') = true := fun h => by
      cases cs with
      | nil => cases h
      | cons c cs => exact hne cs (by rw [beq_iff_eq.mp h])
    rw [if_neg hhead, digitRun_of_not_runs hruns]
    exact congrArg Except.ok (decimalToken_eq d previous [] ('.' :: cs))

/-- **Numbers.** What starts with a digit or a point is read locally. -/
theorem numberOrPeriod_local (d : Dialect) (previous : Option Token) {c : Char}
    (hc : c.isDigit = true ∨ c = '.') : Local fun cs => numberOrPeriod d previous (c :: cs) := by
  rcases hc with hc | rfl
  · simp only [numberOrPeriod_digit d previous hc]
    exact (digitRun_steady d.digitSeparators isDigit_class (by decide)).andThen
      fun ds => afterWhole_local d previous (c :: ds)
  · simp only [numberOrPeriod_point]
    refine .choose (class_eq (by decide) (by decide)) (by decide) ?_ (decimalFrom_local d previous ['.'])
    cases afterWord previous
    · exact .fail fun cs => ⟨"Unexpected character '_'", '.' :: cs⟩
    · exact .keep (.symbol ".")

/-! ### What a number spells -/

/-- A number as it is written. -/
def written (text : String) (long : Bool) : List Char := (Token.numberText text long).toList

section

variable {d : Dialect} {previous : Option Token} {cs R : List Char} {text : String} {long : Bool}

/-- The suffix that is read does not depend on the digits. -/
theorem numberToken_replace {mantissa : List Char}
    (h : numberToken mantissa cs = (.number text long, R)) (other : List Char) :
    numberToken other cs = (.number (String.ofList other) long, R) := by
  unfold numberToken at h ⊢
  split at h <;> cases h <;> rfl

/-- A number token has the spelling that it was read from. -/
theorem numberToken_spells {mantissa : List Char}
    (h : numberToken mantissa cs = (.number text long, R)) :
    text = String.ofList mantissa ∧ mantissa ++ cs = written text long ++ R ∧
      (long = true → cs.head? = some 'L') := by
  unfold numberToken at h
  split at h <;> cases h <;> simp [written, Token.numberText]

/-- What an unmarked number is, if it is one. -/
theorem unmarked_eq_number {mantissa : List Char}
    (h : unmarked d mantissa cs = (.number text long, R)) :
    numberToken mantissa cs = (.number text long, R) ∧
      (d.numericWords = true → cs.head?.any d.continuesWord = false) := by
  by_cases hempty : (if d.numericWords then cs.takeWhile d.continuesWord else []).isEmpty = true
  · rw [unmarked, if_pos hempty] at h
    refine ⟨h, fun hd => ?_⟩
    rw [if_pos hd, List.isEmpty_iff] at hempty
    exact ((Class.takeWhile_eq_iff d.continuesWord [] cs).mp hempty).2
  · rw [unmarked, if_neg hempty] at h
    cases h

/-- Where no word continues a number the two readers agree. -/
theorem unmarked_eq_numberToken (mantissa : List Char)
    (h : d.numericWords = true → cs.head?.any d.continuesWord = false) :
    unmarked d mantissa cs = numberToken mantissa cs := by
  have hempty : (if d.numericWords then cs.takeWhile d.continuesWord else []) = [] := by
    split
    · next hd => exact (Class.takeWhile_eq_iff d.continuesWord [] cs).mpr ⟨by simp, h hd⟩
    · rfl
  simp only [unmarked, hempty, List.isEmpty_nil, if_true]

/-- A number read with a mark is one that would be read without. -/
theorem marked_eq_number {digits : List Char}
    (h : marked d previous digits cs = (.number text long, R)) :
    numberToken digits cs = (.number text long, R) ∧
      ∀ other, marked d previous other cs = numberToken other cs := by
  unfold marked at h ⊢
  split at h
  · cases h
  · next hword => exact ⟨h, fun other => if_neg hword⟩

/-- What follows a mantissa only adds to its spelling. -/
theorem afterMantissa_spells {mantissa : List Char}
    (h : afterMantissa d previous mantissa cs = (.number text long, R)) :
    mantissa <+: text.toList ∧ mantissa ++ cs = written text long ++ R := by
  unfold afterMantissa at h
  split at h
  · obtain ⟨rfl, hspell, -⟩ := numberToken_spells (unmarked_eq_number h).1
    exact ⟨by simp, hspell⟩
  · obtain ⟨rfl, hspell, -⟩ := numberToken_spells (marked_eq_number h).1
    exact ⟨by simp, hspell⟩
  · next e rest he =>
    obtain ⟨rfl, hspell, -⟩ := numberToken_spells (marked_eq_number h).1
    rw [(exponentOf_eq_digits he).1, ← List.append_assoc]
    exact ⟨by simp, hspell⟩

theorem decimalFrom_spells {mantissa : List Char}
    (h : decimalFrom d previous mantissa cs = (.number text long, R)) :
    mantissa <+: text.toList ∧ mantissa ++ cs = written text long ++ R := by
  rw [decimalFrom] at h
  split at h
  · cases h
  · dsimp only at h
    split at h
    · cases h
    · obtain ⟨hfront, hspell⟩ := afterMantissa_spells h
      rw [List.append_assoc, digitRun_split] at hspell
      exact ⟨(List.prefix_append mantissa _).trans hfront, hspell⟩

/-- A number token comes from a decimal and not from a hexadecimal literal. -/
theorem afterWhole_eq_number {whole : List Char}
    (h : afterWhole d previous whole cs = .ok (.number text long, R)) :
    decimalToken d previous whole cs = (.number text long, R) ∧
      (whole = ['0'] → cs.head?.any (· == 'x') = false) := by
  unfold afterWhole at h
  split at h
  · split at h
    · cases h
    · next hzero => exact ⟨Except.ok.inj h, fun hw => absurd hw (by simpa using hzero)⟩
  · next hne =>
    refine ⟨Except.ok.inj h, fun _ => ?_⟩
    cases cs with
    | nil => rfl
    | cons c cs => simpa using fun hc : c = 'x' => hne cs (by rw [hc])

/-- The number with these digits instead. -/
theorem afterMantissa_replace {mantissa : List Char}
    (h : afterMantissa d previous mantissa cs = (.number text long, R))
    (htext : ∀ c ∈ text.toList, c.isDigit = true) :
    (∀ other, afterMantissa d previous other cs = (.number (String.ofList other) long, R)) ∧
      text = String.ofList mantissa ∧ mantissa ++ cs = written text long ++ R ∧
      (long = true → d.numericWords = false) := by
  cases he : exponentOf cs with
  | none =>
    simp only [afterMantissa, he] at h ⊢
    obtain ⟨hnumber, hwords⟩ := unmarked_eq_number h
    obtain ⟨htext, hspell, hlong⟩ := numberToken_spells hnumber
    refine ⟨fun other => ?_, htext, hspell, fun hl => ?_⟩
    · rw [unmarked_eq_numberToken other hwords, numberToken_replace hnumber]
    rw [hlong hl] at hwords
    cases d with
    | mysql => exact absurd (hwords rfl) (by decide)
    | postgresql => rfl
    | sqlite => rfl
  | markOnly =>
    simp only [afterMantissa, he] at h ⊢
    obtain ⟨hnumber, hother⟩ := marked_eq_number h
    obtain ⟨htext, hspell, hlong⟩ := numberToken_spells hnumber
    refine ⟨fun other => by rw [hother, numberToken_replace hnumber], htext, hspell, fun hl => ?_⟩
    -- a mark is no suffix
    have hnone : exponentOf cs = .none :=
      (exponentOf_eq_none_iff cs).mpr (by rw [hlong hl]; decide)
    rw [hnone] at he
    cases he
  | digits e rest =>
    simp only [afterMantissa, he] at h
    obtain ⟨rfl, -, -⟩ := numberToken_spells (marked_eq_number h).1
    -- the mark of the exponent is no digit
    obtain ⟨-, hmark, -, -⟩ := exponentOf_eq_digits he
    cases e with
    | nil => cases hmark
    | cons m e =>
      have hdigit : m.isDigit = true := htext m (by simp)
      have hmark : isMark m = true := hmark
      rw [isMark_class.digits m (mem_tenDigits hdigit)] at hmark
      cases hmark

/-- **Replacement.** A number of digits alone stands in front of what other digits could stand in
    front of as well, if there is no suffix or nothing that continues a number behind it. -/
theorem afterWhole_replace {whole other : List Char} (hruns : runs d.digitSeparators Char.isDigit cs = false)
    (h : afterWhole d previous whole cs = .ok (.number text long, R)) (hne : whole ≠ [])
    (htext : ∀ c ∈ text.toList, c.isDigit = true) (hother : ∀ c ∈ other, c.isDigit = true) 
    (hzero : other ≠ ['0']) (hone : other ≠ []) :
    afterWhole d previous other cs = .ok (.number (String.ofList other) long, R) ∧ text = String.ofList whole ∧
      whole ++ cs = written text long ++ R ∧ (long = true → d.numericWords = false) := by
  have hpoint : ∀ ds : List Char, ds ≠ [] → (∀ c ∈ ds, c.isDigit = true) → (ds == ['.']) = false := by
    intro ds hds hall
    rw [beq_eq_false_iff_ne]
    rintro rfl
    exact absurd (hall '.' (List.mem_cons_self ..)) (by decide)
  have hdecimal := (afterWhole_eq_number h).1
  rw [decimalToken_eq] at hdecimal
  have hfront := (decimalFrom_spells hdecimal).1
  -- no point follows the digits, since the number would hold it
  have hpt : pointed cs = ([], cs) := by
    unfold pointed
    split
    · have hmem : '.' ∈ text.toList := hfront.subset (by simp [pointed])
      exact absurd (htext '.' hmem) (by decide)
    · rfl
  rw [hpt, List.append_nil] at hdecimal hfront
  have hwhole : ∀ c ∈ whole, c.isDigit = true := fun c hc => htext c (hfront.subset hc)
  have hafter : ∀ ds : List Char, ds ≠ [] → (∀ c ∈ ds, c.isDigit = true) →
      decimalToken d previous ds cs = afterMantissa d previous ds cs := by
    intro ds hds hall
    rw [decimalToken_eq, hpt, List.append_nil, decimalFrom, hpoint ds hds hall,
      digitRun_of_not_runs hruns]
    simp only [Bool.false_and, List.append_nil, hpoint ds hds hall]
    rfl
  have hmantissa : afterMantissa d previous whole cs = (.number text long, R) := by
    rw [← hafter whole hne hwhole]
    exact (afterWhole_eq_number h).1
  obtain ⟨hreplace, hrest⟩ := afterMantissa_replace hmantissa htext
  refine ⟨?_, hrest⟩
  rw [afterWhole_of_ne fun hz => absurd hz hzero, hafter other hone hother, hreplace]

end

/-! ### Digits as numbers -/

/-- The characters that digits may run into. -/
def isNumberPart (c : Char) : Bool := c.isDigit || ['_', '.', 'e', 'E', 'L', 'x'].contains c

section

variable {d : Dialect} {previous : Option Token} {ds R : List Char}

/-- What cannot be part of a number fails every test of its parts. -/
theorem head_ne_of_isNumberPart (h : R.head?.any isNumberPart = false) {q : Char → Bool}
    (hq : ∀ c, q c = true → isNumberPart c = true) : R.head?.any q = false := by
  cases R with
  | nil => rfl
  | cons c R =>
    have hc : isNumberPart c = false := h
    rw [List.head?_cons, Option.any_some, Bool.eq_false_iff]
    exact fun hqc => Bool.eq_false_iff.mp hc (hq c hqc)

/-- **Digits.** Digits are read as the number that they spell, if they end where they seem to. -/
theorem numberOrPeriod_digits (hdigits : ∀ c ∈ ds, c.isDigit = true) (hne : ds ≠ [])
    (hR : R.head?.any isNumberPart = false)
    (hwords : d.numericWords = true → R.head?.any d.continuesWord = false) :
    numberOrPeriod d previous (ds ++ R) = .ok (.number (String.ofList ds) false, R) := by
  obtain ⟨c, ds, rfl⟩ := List.exists_cons_of_ne_nil hne
  have hc : c.isDigit = true := hdigits c (List.mem_cons_self ..)
  -- none of the characters that continue a number follows
  have hx : R.head?.any (· == 'x') = false :=
    head_ne_of_isNumberPart hR fun x hx => by rw [beq_iff_eq.mp hx]; decide
  have hpoint : R.head?.any (· == '.') = false :=
    head_ne_of_isNumberPart hR fun x hx => by rw [beq_iff_eq.mp hx]; decide
  have hmark : exponentOf R = .none := (exponentOf_eq_none_iff R).mpr <|
    head_ne_of_isNumberPart hR fun x hx => by
      rcases Bool.or_eq_true_iff.mp hx with hx | hx <;> rw [beq_iff_eq.mp hx] <;> decide
  have hL : R.head?.any (· == 'L') = false :=
    head_ne_of_isNumberPart hR fun x hx => by rw [beq_iff_eq.mp hx]; decide
  have hruns : runs d.digitSeparators Char.isDigit R = false := by
    cases R with
    | nil => rfl
    | cons x R =>
      have hx : isNumberPart x = false := hR
      simp only [isNumberPart, Bool.or_eq_false_iff] at hx
      have hsep : (x == '_') = false := by simpa using fun h : x = '_' => by simp [h] at hx
      rw [runs, hx.1, hsep, Bool.and_false, Bool.false_and]
      rfl
  have hnot : (c :: ds == ['.']) = false := by
    rw [beq_eq_false_iff_ne]
    intro h
    rw [(List.cons.inj h).1] at hc
    cases hc
  -- so each stage takes nothing, and the digits are all there is
  rw [List.cons_append, numberOrPeriod_digit d previous hc,
    digitRun_append (fun x hx => hdigits x (List.mem_cons_of_mem c hx)) hruns,
    afterWhole_of_ne fun _ => hx, decimalToken_eq, pointed_of_not_point hpoint]
  simp only [decimalFrom, List.append_nil, hnot, Bool.false_and, digitRun_of_not_runs hruns,
    Bool.false_eq_true, if_false, afterMantissa, hmark, unmarked_eq_numberToken _ hwords]
  unfold numberToken
  split
  · cases hL
  · rfl

/-- **Other digits.** In the place of a number of digits alone, other digits are read as the number
    that they spell. -/
theorem numberOrPeriod_replace {c : Char} {cs : List Char} {text : String} {long : Bool}
    (hc : c.isDigit = true ∨ c = '.')
    (h : numberOrPeriod d previous (c :: cs) = .ok (.number text long, R))
    (htext : ∀ x ∈ text.toList, x.isDigit = true) (hdigits : ∀ x ∈ ds, x.isDigit = true)
    (hne : ds ≠ []) (hzero : ds ≠ ['0'])
    (hR : long = true → d.numericWords = false → R.head?.any isNumberPart = false) :
    c :: cs = written text long ++ R ∧
      numberOrPeriod d previous (ds ++ R) = .ok (.number (String.ofList ds) false, R) := by
  rcases hc with hc | rfl
  · rw [numberOrPeriod_digit d previous hc] at h
    have hruns := runs_digitRun d.digitSeparators Char.isDigit cs
    obtain ⟨hother, hwhole, hspell, hlong⟩ :=
      afterWhole_replace hruns h (List.cons_ne_nil _ _) htext hdigits hzero hne
    refine ⟨by rw [← hspell, List.cons_append, digitRun_split], ?_⟩
    cases long with
    | true =>
      exact numberOrPeriod_digits hdigits hne (hR rfl (hlong rfl)) fun hw => by
        rw [hlong rfl] at hw
        cases hw
    | false =>
      -- the digits are followed by what followed the number
      have hrest : (digitRun d.digitSeparators Char.isDigit cs).2 = R := by
        have hwritten : written text false = c :: (digitRun d.digitSeparators Char.isDigit cs).1 := by
          rw [hwhole, written, Token.numberText, if_neg Bool.false_ne_true, String.toList_ofList]
        rw [hwritten] at hspell
        exact List.append_cancel_left hspell
      rw [hrest] at hruns hother
      obtain ⟨x, ds, rfl⟩ := List.exists_cons_of_ne_nil hne
      rw [List.cons_append, numberOrPeriod_digit d previous (hdigits x (List.mem_cons_self ..)),
        digitRun_append (fun y hy => hdigits y (List.mem_cons_of_mem x hy)) hruns]
      exact hother
  · rw [numberOrPeriod_point] at h
    split at h
    · split at h <;> cases h
    · have hfront := (decimalFrom_spells (Except.ok.inj h)).1
      exact absurd (htext '.' (hfront.subset (List.mem_singleton_self '.'))) (by decide)

end

end QueryGate.Sql.Lexer
