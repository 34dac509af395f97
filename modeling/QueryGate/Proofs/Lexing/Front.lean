import Mathlib
import QueryGate.Sql.Lexer

namespace QueryGate.Sql.Lexer

/-!
# What a reader sees of the text behind its token

A reader takes a token from the front of a text and stops where the token ends, but it may look a
few characters further.  Where it stops does not change as long as what stands there looks alike
from the front:

* `Alike` — the end of a text and a break, a blank and the end of a text, two digits, a slash and a
  space, and the same characters before texts that are alike;
* `Class` / `Visible` — sets of characters that hold all digits or none, and no break; readers test
  such sets, most of which hold no blank either;
* `Steady` / `Local` — readers that stop at the same place before texts that look alike, or at the
  end of a text take the break along that comes to stand there; blanks at the end of what they take
  can be cut;
* `Local.whenHead` — a choice between local readers by the first character is local;
* `Local.whileIn` — taking the characters of a class from the front is local.
-/

/-- What holds of every character of a list is decided along the list, and not along all
    characters. -/
instance (priority := 2000) decidableForallChar (p : Char → Prop) [DecidablePred p]
    (cs : List Char) : Decidable (∀ c ∈ cs, p c) :=
  List.decidableBAll p cs

/-! ### Texts that look alike -/

/-- The characters that may come to stand behind the end of a text. -/
def breaks : List Char := [' ', '\n', ')']

/-- Texts that look alike from the front: where one ends, the other has a break, or one has a blank
    where the other ends, or both have a digit, or the other has a space in the place of a slash. -/
inductive Alike : List Char → List Char → Prop
  | stop {b : Char} (more : List Char) (hb : b ∈ breaks) : Alike [] (b :: more)
  | trim {b : Char} (more : List Char) (hb : Text.isBlank b = true) : Alike (b :: more) []
  | digits {c c' : Char} (cs cs' : List Char) (hc : c.isDigit = true) (hc' : c'.isDigit = true) :
      Alike (c :: cs) (c' :: cs')
  | slash (cs cs' : List Char) : Alike ('/' :: cs) (' ' :: cs')
  | cons (c : Char) {cs cs' : List Char} (h : Alike cs cs') : Alike (c :: cs) (c :: cs')

/-- The same text before texts that begin alike. -/
theorem Alike.append (w : List Char) {R R' : List Char} (h : Alike R R') :
    Alike (w ++ R) (w ++ R') := by
  induction w with
  | nil => exact h
  | cons c w ih => exact .cons c ih

/-- A text looks like its front before blanks. -/
theorem Alike.trimmed (w : List Char) {B : List Char} (hB : B ≠ [])
    (hblank : ∀ c ∈ B, Text.isBlank c = true) (R : List Char) : Alike (w ++ (B ++ R)) w := by
  obtain ⟨b, B, rfl⟩ := List.exists_cons_of_ne_nil hB
  simpa using (Alike.trim (B ++ R) (hblank b (List.mem_cons_self ..))).append w

/-! ### Classes of characters -/

/-- The digits, one by one. -/
def tenDigits : List Char := ['0', '1', '2', '3', '4', '5', '6', '7', '8', '9']

theorem mem_tenDigits {c : Char} (h : c.isDigit = true) : c ∈ tenDigits := by
  rw [Char.isDigit_iff_toNat] at h
  have hlo : 48 ≤ c.toNat := h.1
  have hhi : c.toNat ≤ 57 := h.2
  have hc : c = Char.ofNat c.toNat := (Char.ofNat_toNat c).symm
  have hcases : c.toNat = 48 ∨ c.toNat = 49 ∨ c.toNat = 50 ∨ c.toNat = 51 ∨ c.toNat = 52 ∨
      c.toNat = 53 ∨ c.toNat = 54 ∨ c.toNat = 55 ∨ c.toNat = 56 ∨ c.toNat = 57 := by omega
  rcases hcases with h | h | h | h | h | h | h | h | h | h <;> rw [hc, h] <;> decide

/-- The blanks, one by one. -/
def blanks : List Char :=
  [' ', '\t', '\n', '\x0b', '\x0c', '\r', '\u0085', '\u00a0', '\u1680', '\u2000', '\u2001', '\u2002',
    '\u2003', '\u2004', '\u2005', '\u2006', '\u2007', '\u2008', '\u2009', '\u200a', '\u2028', '\u2029',
    '\u202f', '\u205f', '\u3000']

theorem mem_blanks {c : Char} (h : Text.isBlank c = true) : c ∈ blanks := by
  have hc : c = Char.ofNat c.toNat := (Char.ofNat_toNat c).symm
  -- the blanks are listed by their codes
  have hmem : c.toNat ∈ blanks.map Char.toNat := by
    have hcodes : blanks.map Char.toNat = [0x20, 0x09, 0x0a, 0x0b, 0x0c, 0x0d, 0x85, 0xa0, 0x1680,
        0x2000, 0x2001, 0x2002, 0x2003, 0x2004, 0x2005, 0x2006, 0x2007, 0x2008, 0x2009, 0x200a, 0x2028,
        0x2029, 0x202f, 0x205f, 0x3000] := by decide
    rw [hcodes]
    simp only [Text.isBlank] at h
    simp only [List.mem_cons, List.not_mem_nil, or_false]
    split at h
    · simp only [Bool.or_eq_true, beq_iff_eq, Bool.and_eq_true, decide_eq_true_eq] at h
      omega
    · simp only [Bool.or_eq_true, beq_iff_eq, Bool.and_eq_true, decide_eq_true_eq] at h
      omega
  obtain ⟨b, hb, hcode⟩ := List.mem_map.mp hmem
  rwa [hc, ← hcode, Char.ofNat_toNat]

/-- A set of characters that holds all digits or none, and no break. -/
structure Class (q : Char → Bool) : Prop where
  breaks : ∀ c ∈ breaks, q c = false
  digits : ∀ c ∈ tenDigits, q c = q '0'

/-- A class that holds no blank. -/
structure Visible (q : Char → Bool) : Prop extends Class q where
  blanks : ∀ c ∈ blanks, q c = false

namespace Visible

variable {q : Char → Bool} {R R' : List Char}

/-- Visible characters are not blank. -/
theorem isBlank_of_mem (hq : Visible q) {c : Char} (hc : q c = true) : Text.isBlank c = false := by
  rw [Bool.eq_false_iff]
  intro hblank
  rw [hq.blanks c (mem_blanks hblank)] at hc
  cases hc

/-- Texts that look alike both start with a character of the class or neither does, if the slash
    is not in the class. -/
theorem head (hq : Visible q) (hslash : q '/' = false) (h : Alike R R') :
    R'.head?.any q = R.head?.any q := by
  cases h with
  | stop more hb => exact hq.breaks _ hb
  | trim more hb => exact (hq.blanks _ (mem_blanks hb)).symm
  | digits cs cs' hc hc' =>
    show q _ = q _
    rw [hq.digits _ (mem_tenDigits hc), hq.digits _ (mem_tenDigits hc')]
  | slash cs cs' => exact (hq.breaks ' ' (by decide)).trans hslash.symm
  | cons c _ => rfl

theorem union {p : Char → Bool} (hp : Visible p) (hq : Visible q) :
    Visible fun c => p c || q c where
  breaks c hc := by rw [hp.breaks c hc, hq.breaks c hc, Bool.or_false]
  digits c hc := by rw [hp.digits c hc, hq.digits c hc]
  blanks c hc := by rw [hp.blanks c hc, hq.blanks c hc, Bool.or_false]

end Visible

namespace Class

variable {q : Char → Bool} {R R' w : List Char}

/-- Where one text starts with no character of the class, the other does not either. -/
theorem head_of_not (hq : Class q) (h : Alike R R') (hR : R.head?.any q = false) :
    R'.head?.any q = false := by
  cases h with
  | stop more hb => exact hq.breaks _ hb
  | trim more hb => rfl
  | digits cs cs' hc hc' =>
    have hc : q _ = false := hR
    rw [hq.digits _ (mem_tenDigits ‹_›)] at hc
    exact (hq.digits _ (mem_tenDigits hc')).trans hc
  | slash cs cs' => exact hq.breaks ' ' (by decide)
  | cons c _ => exact hR

/-- A run of characters of a class ends where something else starts. -/
theorem takeWhile_eq_iff (q : Char → Bool) (w R : List Char) :
    (w ++ R).takeWhile q = w ↔ (∀ c ∈ w, q c = true) ∧ R.head?.any q = false := by
  induction w with
  | nil =>
    cases R with
    | nil => simp
    | cons c R => cases hc : q c <;> simp [hc]
  | cons c w ih =>
    cases hc : q c
    · simp [hc]
    · simp only [List.cons_append, List.takeWhile_cons, hc, if_true, List.cons.injEq, true_and,
        List.mem_cons, forall_eq_or_imp, ih]

/-- A run stops at the same place before texts that look alike. -/
theorem takeWhile_follow (hq : Class q) (h : Alike R R') (hw : (w ++ R).takeWhile q = w) :
    (w ++ R').takeWhile q = w := by
  rw [takeWhile_eq_iff] at hw ⊢
  exact ⟨hw.1, hq.head_of_not h hw.2⟩

end Class

/-- What a run leaves behind is `R` iff the run is all that stands before `R`. -/
theorem drop_takeWhile_eq_iff (q : Char → Bool) (w R : List Char) :
    (w ++ R).drop ((w ++ R).takeWhile q).length = R ↔ (w ++ R).takeWhile q = w := by
  constructor
  · intro h
    have hsplit := List.prefix_iff_eq_append.mp (List.takeWhile_prefix q (l := w ++ R))
    rw [h] at hsplit
    exact List.append_cancel_right hsplit
  · intro h
    rw [h, List.drop_left]

/-- The class of one character that is neither break nor blank nor digit. -/
theorem class_eq {m : Char} (hblank : m ∉ breaks ++ blanks) (hdigit : m.isDigit = false) :
    Visible (· == m) := by
  have hne : ∀ c ∈ tenDigits, (c == m) = false := fun c hc => by
    rw [beq_eq_false_iff_ne]
    rintro rfl
    have hall : ∀ x ∈ tenDigits, x.isDigit = true := by decide
    rw [hall c hc] at hdigit
    cases hdigit
  have hother : ∀ c ∈ breaks ++ blanks, (c == m) = false := fun c hc => by
    rw [beq_eq_false_iff_ne]
    rintro rfl
    exact hblank hc
  exact ⟨⟨fun c hc => hother c (List.mem_append_left _ hc),
    fun c hc => by rw [hne c hc, hne '0' (by decide)]⟩, fun c hc => hother c (List.mem_append_right _ hc)⟩

/-! ### Local readers -/

/-- Unquoted words that hold a blank. -/
def HoldsBlank (t : Token) : Prop :=
  ∃ text, t = .word text none ∧ ∃ c ∈ text.toList, Text.isBlank c = true

/-- What a token may become when blanks at the end of its text are cut: itself, or anything in the
    place of a word that holds them. -/
def TrimsTo (t t' : Token) : Prop := t' = t ∨ HoldsBlank t

/-- A sign that closes nothing. -/
def isOperator : Token → Bool
  | .symbol text => !([")", "]", "\x7d"].contains text)
  | _ => false

/-- A reader that leaves an end of its text, and stops at the same place before texts that look
    alike; where it came to the end of its text, it may take the break along that now stands
    there, but a parenthesis only behind a sign. What it takes can be read without the blanks at its
    end. -/
structure Local (f : List Char → Step) : Prop where
  suffix : ∀ {cs R : List Char} {t : Token}, f cs = .ok (t, R) → R <:+ cs
  follow : ∀ {w R R' : List Char} {t : Token}, f (w ++ R) = .ok (t, R) → Alike R R' →
    f (w ++ R') = .ok (t, R') ∨ R = [] ∧ (R'.head? = some ')' → isOperator t = true) ∧
      f (w ++ R') = .ok (t, R'.tail)
  trim : ∀ {w B R : List Char} {t : Token}, f (w ++ (B ++ R)) = .ok (t, R) → B ≠ [] →
    (∀ c ∈ B, Text.isBlank c = true) → ∃ t', f w = .ok (t', []) ∧ TrimsTo t t'

/-- What is left is an end of the text, so all that is taken stands before it. -/
theorem length_of_append_eq {w B R : List Char} (h : w ++ (B ++ R) = R) : B = [] := by
  have hlength := congrArg List.length h
  simp only [List.length_append] at hlength
  exact List.length_eq_zero_iff.mp (by omega)

/-- A text that ends in `R` behind its first character. -/
theorem exists_of_cons_eq_append {c : Char} {cs w R : List Char} (h : w ++ R = c :: cs)
    (hR : R <:+ cs) : ∃ w', w = c :: w' ∧ cs = w' ++ R := by
  cases w with
  | nil =>
    rw [List.nil_append] at h
    rw [h] at hR
    exact absurd hR.length_le (by simp)
  | cons c' w =>
    rw [List.cons_append, List.cons.injEq] at h
    exact ⟨w, by rw [h.1], h.2.symm⟩

namespace Local

/-- Reading a token in front of the whole text is local. -/
theorem keep (t : Token) : Local fun cs => .ok (t, cs) where
  suffix h := by
    cases h
    exact List.suffix_rfl
  follow h _ := by
    rw [Except.ok.injEq, Prod.mk.injEq] at h
    rw [List.append_left_eq_self.mp h.2, h.1]
    exact .inl rfl
  trim h hB _ := absurd (length_of_append_eq (Prod.mk.inj (Except.ok.inj h)).2) hB

/-- So is reading a sign with the character behind it. -/
theorem swallow {t : Token} (ht : isOperator t = true) : Local fun cs => .ok (t, cs.tail) where
  suffix h := by
    cases h
    exact List.tail_suffix _
  follow {w R R' t'} h hb := by
    rw [Except.ok.injEq, Prod.mk.injEq] at h
    obtain ⟨rfl, h⟩ := h
    -- something was taken, unless the text was empty
    cases w with
    | nil =>
      have hR : R = [] := by
        cases R with
        | nil => rfl
        | cons c R => exact absurd (congrArg List.length h) (by simp)
      exact .inr ⟨hR, fun _ => ht, rfl⟩
    | cons c w =>
      rw [List.cons_append, List.tail_cons] at h
      rw [List.append_left_eq_self.mp h]
      exact .inl rfl
  trim {w B R t'} h hB _ := by
    rw [Except.ok.injEq, Prod.mk.injEq] at h
    obtain ⟨rfl, h⟩ := h
    cases w with
    -- the one character that is taken may be a blank, and the token is the same without it
    | nil => exact ⟨t, rfl, .inl rfl⟩
    | cons c w => exact absurd (length_of_append_eq h) hB

/-- So is a failure. -/
theorem fail (e : List Char → Fault) : Local fun cs => .error (e cs) where
  suffix h := by cases h
  follow h _ := by cases h
  trim h := by cases h

end Local

/-- The token that the characters of a class at the front of a text make. -/
def whileIn (q : Char → Bool) (f : List Char → Except String Token) (cs : List Char) : Step :=
  match f (cs.takeWhile q) with
  | .ok t => .ok (t, cs.drop (cs.takeWhile q).length)
  | .error message => .error ⟨message, cs⟩

/-- Taking the characters of a class is local, if blanks at the end of them can be cut. -/
theorem whileIn_local {q : Char → Bool} (hq : Class q) (f : List Char → Except String Token)
    (htrim : ∀ {w B : List Char} {t : Token}, B ≠ [] → (∀ c ∈ B, Text.isBlank c = true) →
      (∀ c ∈ B, q c = true) → f (w ++ B) = .ok t → ∃ t', f w = .ok t' ∧ TrimsTo t t') :
    Local (whileIn q f) where
  suffix {cs R t} h := by
    unfold Lexer.whileIn at h
    split at h
    · cases h
      exact List.drop_suffix _ _
    · cases h
  follow {w R R' t} h hb := by
    unfold Lexer.whileIn at h ⊢
    split at h
    · next t' ht =>
      rw [Except.ok.injEq, Prod.mk.injEq] at h
      obtain ⟨rfl, h⟩ := h
      -- the run ends at `R`, so it ends at whatever begins alike
      have hw := (drop_takeWhile_eq_iff q w R).mp h
      have hw' := hq.takeWhile_follow hb hw
      rw [hw] at ht
      rw [hw', ht, List.drop_left]
      exact .inl rfl
    · cases h
  trim {w B R t} h hB hblank := by
    unfold Lexer.whileIn at h
    split at h
    · next t₀ ht =>
      rw [Except.ok.injEq, Prod.mk.injEq] at h
      obtain ⟨rfl, h⟩ := h
      rw [← List.append_assoc] at ht h
      have hrun := (drop_takeWhile_eq_iff q (w ++ B) R).mp h
      -- blanks at the end belong to the run only if all of them pass the test
      have hall := ((Class.takeWhile_eq_iff q (w ++ B) R).mp hrun).1
      rw [hrun] at ht
      obtain ⟨t', ht', htrims⟩ := htrim hB hblank
        (fun c hc => hall c (List.mem_append_right w hc)) ht
      have hw : w.takeWhile q = w :=
        List.takeWhile_eq_self_iff.mpr fun c hc => hall c (List.mem_append_left B hc)
      refine ⟨t', ?_, htrims⟩
      simp only [Lexer.whileIn, hw, ht', List.drop_length]
    · cases h

/-- No blank is among the characters of a class that holds none. -/
theorem Local.whileIn {q : Char → Bool} (hq : Visible q) (f : List Char → Except String Token) :
    Local (Lexer.whileIn q f) :=
  whileIn_local hq.toClass f fun {_ B _} hB hblank hin _ => by
    obtain ⟨b, B, rfl⟩ := List.exists_cons_of_ne_nil hB
    have hb := hblank b (List.mem_cons_self ..)
    rw [hq.isBlank_of_mem (hin b (List.mem_cons_self ..))] at hb
    cases hb

/-- The reader `f` of the text behind the first character, if that passes a test, and the reader
    `g` of the whole text if not. -/
def whenHead (q : Char → Bool) (f : Char → List Char → Step) (g : List Char → Step) :
    List Char → Step
  | [] => g []
  | c :: cs => if q c then f c cs else g (c :: cs)

/-- A choice by the next character, where a blank decides as the end of the text does. -/
theorem Local.whenHead {q : Char → Bool} {f : Char → List Char → Step} {g : List Char → Step}
    (hq : Visible q) (hf : ∀ c, Local (f c)) (hg : Local g) : Local (whenHead q f g) where
  suffix {cs R t} h := by
    cases cs with
    | nil => exact hg.suffix h
    | cons c cs =>
      rw [Lexer.whenHead] at h
      split at h
      · exact ((hf c).suffix h).trans (List.suffix_cons c cs)
      · exact hg.suffix h
  follow {w R R' t} h hb := by
    cases w with
    | cons c w =>
      rw [List.cons_append, Lexer.whenHead] at h
      rw [List.cons_append, Lexer.whenHead]
      split at h
      · next hc =>
        rw [if_pos hc]
        exact (hf c).follow h hb
      · next hc =>
        rw [if_neg hc]
        exact hg.follow (w := c :: w) h hb
    | nil =>
      -- the reader behind the first character of `R` could not leave `R`
      have hhead : R.head?.any q = false := by
        cases R with
        | nil => rfl
        | cons c R =>
          cases hc : q c with
          | false => exact hc
          | true =>
            rw [List.nil_append, Lexer.whenHead, if_pos hc] at h
            exact absurd ((hf c).suffix h).length_le (by simp)
      have hg' : ∀ S : List Char, S.head?.any q = false → Lexer.whenHead q f g S = g S := by
        intro S hS
        cases S with
        | nil => rfl
        | cons c S =>
          have hc : q c = false := hS
          rw [Lexer.whenHead, if_neg (by rw [hc]; exact Bool.false_ne_true)]
      have hhead' : R'.head?.any q = false := hq.head_of_not hb hhead
      rw [List.nil_append, hg' R hhead] at h
      rw [List.nil_append, hg' R' hhead']
      exact hg.follow (w := []) h hb
  trim {w B R t} h hB hblank := by
    cases w with
    | cons c w =>
      rw [List.cons_append, Lexer.whenHead] at h
      rw [Lexer.whenHead]
      split at h
      · next hc =>
        rw [if_pos hc]
        exact (hf c).trim h hB hblank
      · next hc =>
        rw [if_neg hc]
        exact hg.trim (w := c :: w) h hB hblank
    | nil =>
      obtain ⟨b, B, rfl⟩ := List.exists_cons_of_ne_nil hB
      have hb : ¬q b = true := fun hb => by
        have hseen := hblank b (List.mem_cons_self ..)
        rw [hq.isBlank_of_mem hb] at hseen
        cases hseen
      rw [List.nil_append, List.cons_append, Lexer.whenHead, if_neg hb] at h
      exact hg.trim (w := []) h hB hblank

/-- A token that takes one more character along where it is the given one. -/
theorem Local.swallowOne (t : Token) {m : Char} (hm : m.isDigit = false) (hspace : m ≠ ' ')
    (hslash : m ≠ '/') (hclose : m ≠ ')') :
    Local (Lexer.whenHead (· == m) (fun _ cs => .ok (t, cs)) fun cs => .ok (t, cs)) where
  suffix {cs R t'} h := by
    cases cs with
    | nil =>
      cases h
      exact List.suffix_rfl
    | cons x cs =>
      rw [Lexer.whenHead] at h
      split at h
      · cases h
        exact List.suffix_cons x _
      · cases h
        exact List.suffix_rfl
  follow {w R R' t'} h hR := by
    cases w with
    | cons x w =>
      rw [List.cons_append, Lexer.whenHead] at h ⊢
      split at h
      · next hx =>
        rw [if_pos hx]
        exact (Local.keep t).follow h hR
      · next hx =>
        rw [if_neg hx]
        exact (Local.keep t).follow (w := x :: w) h hR
    | nil =>
      rw [List.nil_append] at h ⊢
      cases hR with
      | @stop b more hb =>
        -- the break may be the character that is taken
        cases h
        rw [Lexer.whenHead]
        split
        · next hb =>
          refine .inr ⟨rfl, fun hparen => absurd ?_ hclose, rfl⟩
          rw [← beq_iff_eq.mp hb]
          exact Option.some.inj hparen
        · exact .inl rfl
      | @trim b more hb =>
        rw [Lexer.whenHead] at h
        split at h
        · have hlen := congrArg List.length (Prod.mk.inj (Except.ok.inj h)).2
          exact absurd hlen (by simp)
        · cases h
          exact .inl rfl
      | @digits c c' cs cs' hc hc' =>
        have hne : ∀ x : Char, x.isDigit = true → ¬(x == m) = true := fun x hx h => by
          rw [beq_iff_eq.mp h, hm] at hx
          cases hx
        rw [Lexer.whenHead, if_neg (hne c hc)] at h
        rw [Lexer.whenHead, if_neg (hne c' hc')]
        cases h
        exact .inl rfl
      | slash cs cs' =>
        rw [Lexer.whenHead, if_neg (by simpa using hslash.symm)] at h
        rw [Lexer.whenHead, if_neg (by simpa using hspace.symm)]
        cases h
        exact .inl rfl
      | @cons c cs cs' _ =>
        rw [Lexer.whenHead] at h ⊢
        split at h
        · have hlen := congrArg List.length (Prod.mk.inj (Except.ok.inj h)).2
          exact absurd hlen (by simp)
        · next hx =>
          rw [if_neg hx]
          cases h
          exact .inl rfl
  trim {w B R t'} h hB _ := by
    cases w with
    | cons x w =>
      rw [List.cons_append, Lexer.whenHead] at h
      split at h
      · exact absurd (length_of_append_eq (Prod.mk.inj (Except.ok.inj h)).2) hB
      · exact absurd (length_of_append_eq (w := x :: w) (Prod.mk.inj (Except.ok.inj h)).2) hB
    | nil =>
      obtain ⟨b, B, rfl⟩ := List.exists_cons_of_ne_nil hB
      have ht : t' = t := by
        rw [List.nil_append, List.cons_append, Lexer.whenHead] at h
        split at h <;> exact (Prod.mk.inj (Except.ok.inj h)).1.symm
      exact ⟨t, rfl, .inl ht.symm⟩

/-- A reader that is one thing behind a character and another before everything else. -/
theorem eq_whenHead {m : Char} {f g h : List Char → Step} (hf : ∀ cs, h (m :: cs) = f cs)
    (hg : ∀ cs, cs.head?.any (· == m) = false → h cs = g cs) :
    h = whenHead (· == m) (fun _ => f) g := by
  funext cs
  cases cs with
  | nil => exact hg [] rfl
  | cons x cs =>
    by_cases hx : (x == m) = true
    · obtain rfl : x = m := beq_iff_eq.mp hx
      rw [hf, whenHead, if_pos hx]
    · rw [hg (x :: cs) (Bool.eq_false_iff.mpr hx), whenHead, if_neg hx]

/-- So is a choice by the first character between local readers of the whole text. -/
theorem Local.choose {q : Char → Bool} {f g : List Char → Step} (hq : Visible q)
    (hslash : q '/' = false) (hf : Local f) (hg : Local g) : Local fun cs => if cs.head?.any q then f cs else g cs where
  suffix {cs R t} h := by
    split at h
    · exact hf.suffix h
    · exact hg.suffix h
  follow {w R R' t} h hR := by
    -- the test looks at the next character, which the seam keeps
    rw [hq.head hslash (hR.append w)]
    split at h
    · next hc =>
      rw [if_pos hc]
      exact hf.follow h hR
    · next hc =>
      rw [if_neg hc]
      exact hg.follow h hR
  trim {w B R t} h hB hblank := by
    rw [hq.head hslash (.trimmed w hB hblank R)]
    split at h
    · next hc =>
      rw [if_pos hc]
      exact hf.trim h hB hblank
    · next hc =>
      rw [if_neg hc]
      exact hg.trim h hB hblank

/-! ### Readers in stages -/

/-- Blanks at the end of a text stand behind every front of it that holds none. -/
theorem exists_of_visible {u v w B : List Char} (h : u ++ v = w ++ B)
    (hu : ∀ c ∈ u, Text.isBlank c = false) (hblank : ∀ c ∈ B, Text.isBlank c = true) :
    ∃ w', w = u ++ w' ∧ v = w' ++ B := by
  rcases List.append_eq_append_iff.mp h with ⟨w', hw, hv⟩ | ⟨B', hu', hB'⟩
  · exact ⟨w', hw, hv⟩
  · cases B' with
    | nil => exact ⟨[], by simpa using hu'.symm, by simpa using hB'.symm⟩
    | cons b B' =>
      have hseen := hu b (by rw [hu']; simp)
      rw [hblank b (by rw [hB']; simp)] at hseen
      cases hseen

/-- A stage of a reader: it leaves an end of its text, stops at the same place before texts that
    look alike, and takes no blank. -/
structure Steady (f : List Char → α × List Char) : Prop where
  suffix : ∀ cs, (f cs).2 <:+ cs
  follow : ∀ {w R R' : List Char} {a : α}, f (w ++ R) = (a, R) → Alike R R' →
    f (w ++ R') = (a, R')
  visible : ∀ {w R : List Char} {a : α}, f (w ++ R) = (a, R) → ∀ c ∈ w, Text.isBlank c = false

/-- A local reader behind a stage is local. -/
theorem Steady.andThen {f : List Char → α × List Char} {g : α → List Char → Step} (hf : Steady f)
    (hg : ∀ a, Local (g a)) : Local fun cs => g (f cs).1 (f cs).2 where
  suffix {cs R t} h := ((hg _).suffix h).trans (hf.suffix cs)
  follow {w R R' t} h hR := by
    -- what the stage takes, and what the reader behind it takes
    obtain ⟨v, hv⟩ := (hg _).suffix h
    obtain ⟨u, hu⟩ := hf.suffix (w ++ R)
    obtain rfl : w = u ++ v := by
      rw [← hv, ← List.append_assoc] at hu
      exact (List.append_cancel_right hu).symm
    have hstage : f (u ++ (v ++ R)) = ((f (u ++ v ++ R)).1, v ++ R) := by
      rw [← List.append_assoc, hv]
    have hstage' := hf.follow hstage (hR.append v)
    rw [← hv] at h
    rw [List.append_assoc, hstage']
    exact (hg _).follow h hR
  trim {w B R t} h hB hblank := by
    obtain ⟨v, hv⟩ := (hg _).suffix h
    obtain ⟨u, hu⟩ := hf.suffix (w ++ (B ++ R))
    rw [← hv] at hu
    have hstage : f (u ++ (v ++ R)) = ((f (w ++ (B ++ R))).1, v ++ R) := by
      rw [hu, hv]
    -- the blanks stand behind what the stage takes
    have hsplit : u ++ v = w ++ B := by
      rw [← List.append_assoc, ← List.append_assoc] at hu
      exact List.append_cancel_right hu
    obtain ⟨w', rfl, rfl⟩ := exists_of_visible hsplit (hf.visible hstage) hblank
    rw [← hv] at h
    rw [List.append_assoc w' B R] at h hstage
    simp only [hf.follow hstage (.trimmed w' hB hblank R)]
    exact (hg _).trim h hB hblank

end QueryGate.Sql.Lexer
