import QueryGate.Proofs.LetterCase
import QueryGate.Proofs.Lexing.Rewritten
import QueryGate.Proofs.Lexing.Words

namespace QueryGate.Sql

open Lexer Text

/-!
# Texts without the blanks at their end

What is read of a text hardly changes where the blanks at its end are cut.  A line comment gets
shorter, and where nothing is left of it but its dashes, these may need a space to be one; a word
loses blanks that it holds, or is one itself, since blanks beyond ASCII are letters.

* `Lexer.step_trim` — a step that takes blanks at the end of what it takes, without them;
* `Shortened` — the tokens of a text and of the text without the blanks at its end;
* `Scans.trim` — these are read there, unless two dashes are left that need a space;
* `Shortened.head` / `Shortened.limit` — a keyword that stands first and a count stay.
-/

namespace Lexer

variable {d : Dialect} {previous : Option Token} {c : Char} {w B R : List Char} {t : Token}

/-! ### The readers that are not local -/

/-- What becomes of a step that takes blanks at the end of what it takes when these are cut. -/
inductive Shorter (d : Dialect) (c : Char) (read : List Char → Step) (w : List Char) (t : Token) :
    Prop
  /-- It reads the same token, or another one in the place of a word. -/
  | kept (t' : Token) (ht : TrimsTo t t') (h : read w = .ok (t', []))
  /-- It reads a shorter line comment. -/
  | comment (text text' : String) (ht : t = .blank (.lineComment text))
      (h : read w = .ok (.blank (.lineComment text'), []))
  /-- Nothing is left of a line comment but its dashes, which need a space. -/
  | dashes (hd : d.dashCommentsNeedSpace = true) (text : String)
      (ht : t = .blank (.lineComment text)) (hc : c = '-') (hw : w = ['-'])

/-- A line comment can be cut before the end of its line. -/
theorem lineComment_trim (h : lineComment d (w ++ (B ++ R)) = (t, R)) (hB : B ≠ []) :
    ∃ text text', t = .blank (.lineComment text) ∧
      lineComment d w = (.blank (.lineComment text'), []) := by
  obtain ⟨text, S, hcs, htext, hS⟩ := exists_line d (w ++ (B ++ R))
  rw [hcs, lineComment_append htext hS] at h
  obtain ⟨rfl, hR⟩ := Prod.mk.inj h
  -- what is left begins behind the character that ends the line
  have hfront : w <+: text := by
    refine List.prefix_of_prefix_length_le (hcs ▸ List.prefix_append w _)
      (List.prefix_append text S) ?_
    have hlength := congrArg List.length hcs
    have hrest := congrArg List.length hR
    have hpos := List.length_pos_iff.mpr hB
    simp only [List.length_append, List.length_drop] at hlength hrest
    omega
  have hline := lineComment_append (S := []) (fun c hc => htext c (hfront.subset hc)) nofun
  rw [List.append_nil] at hline
  exact ⟨_, _, rfl, hline⟩

/-- A comment or an operator at the end of a text, without the blanks behind it. -/
theorem dashToken_trim (h : dashToken d (w ++ (B ++ R)) = (t, R)) (hB : B ≠ [])
    (hblank : ∀ c ∈ B, isBlank c = true) :
    Shorter d '-' (fun cs => .ok (dashToken d cs)) w t := by
  -- without a second dash there is an operator
  have hminus : w.head?.any (· == '-') = false → Shorter d '-' (fun cs => .ok (dashToken d cs)) w t := by
    intro hw
    have hhead : (w ++ (B ++ R)).head?.any (· == '-') = false := by
      rw [← dash_class.head (by decide) (.trimmed w hB hblank R), hw]
    rw [dashToken_of_not_dash hhead] at h
    obtain ⟨t', ht', htrims⟩ := (minusToken_local d).trim (congrArg Except.ok h) hB hblank
    exact .kept t' htrims (by rw [dashToken_of_not_dash hw, ht'])
  cases w with
  | nil => exact hminus rfl
  | cons x w =>
    by_cases hx : x = '-'
    · subst hx
      rw [List.cons_append] at h
      by_cases hcomment : d.dashCommentsNeedSpace = true → (w ++ (B ++ R)).head? = some ' '
      · rw [dashToken_comment hcomment] at h
        obtain ⟨text, text', rfl, hline⟩ := lineComment_trim h hB
        by_cases hspace : d.dashCommentsNeedSpace = true → w.head? = some ' '
        · exact .comment text text' rfl (by rw [dashToken_comment hspace, hline])
        · obtain ⟨hd, hspace⟩ : d.dashCommentsNeedSpace = true ∧ w.head? ≠ some ' ' := by
            simpa using hspace
          cases w with
          | nil => exact .dashes hd text rfl rfl rfl
          | cons y w => exact absurd (hcomment hd) hspace
      · obtain ⟨hd, hspace⟩ : d.dashCommentsNeedSpace = true ∧
            (w ++ (B ++ R)).head? ≠ some ' ' := by simpa using hcomment
        rw [dashToken_minus hd hspace] at h
        exact absurd (length_of_append_eq (w := '-' :: w) (Prod.mk.inj h).2) hB
    · exact hminus (by simpa using hx)

/-- A word that begins with a blank holds one. -/
theorem wordToken_holdsBlank {start cs : List Char} (hc : c ∈ start) (hb : isBlank c = true)
    (h : wordToken d start cs = (t, R)) : HoldsBlank t := by
  obtain rfl := congrArg Prod.fst h
  exact ⟨_, rfl, c, by simp [hc], hb⟩

/-- A token that begins with `@` at the end of a text, without the blanks behind it. -/
theorem atToken_trim (h : atToken .mysql (w ++ (B ++ R)) = .ok (t, R)) (hB : B ≠ [])
    (hblank : ∀ c ∈ B, isBlank c = true) :
    ∃ t', atToken .mysql w = .ok (t', []) ∧ TrimsTo t t' := by
  have hleft : ∀ {t₀ : Token} {u : List Char}, (.ok (t₀, u ++ (B ++ R)) : Step) = .ok (t, R) → False :=
    fun h => hB (length_of_append_eq (Prod.mk.inj (Except.ok.inj h)).2)
  obtain ⟨b, B, rfl⟩ := List.exists_cons_of_ne_nil hB
  have hb : isBlank b = true := hblank b (List.mem_cons_self ..)
  cases w with
  | nil =>
    refine ⟨.symbol "@", rfl, ?_⟩
    by_cases hspace : b = ' '
    · subst hspace
      exact (hleft (u := []) h).elim
    · have hone : b ∉ ['@', '>', '?', ' ', '\x27', '"', '\x60'] := by
        have hall : ∀ x ∈ ['@', '>', '?', '\x27', '"', '\x60'], isBlank x = false := by decide
        intro hmem
        rw [hall b (by simp_all)] at hb
        cases hb
      rw [List.nil_append, List.cons_append, atToken_one hone] at h
      exact .inr (wordToken_holdsBlank (by simp) hb (Except.ok.inj h))
  | cons a w =>
    by_cases hat : a = '@'
    · subst hat
      cases w with
      | nil =>
        refine ⟨.symbol "@@", rfl, ?_⟩
        by_cases hspace : b = ' '
        · subst hspace
          exact (hleft (u := []) h).elim
        · rw [List.cons_append, List.nil_append, List.cons_append, atToken_two hspace] at h
          exact .inr (wordToken_holdsBlank (by simp) hb (Except.ok.inj h))
      | cons x w =>
        by_cases hx : x = ' '
        · subst hx
          exact (hleft (u := ' ' :: w) h).elim
        · rw [List.cons_append, List.cons_append, atToken_two hx] at h
          rw [atToken_two hx]
          exact (wordToken_local .mysql _).trim h hB hblank
    by_cases hstop : a ∈ ['>', '?', ' ', '\x27', '"', '\x60']
    · -- an operator, or the sign alone
      simp only [List.mem_cons, List.not_mem_nil, or_false] at hstop
      rcases hstop with rfl | rfl | rfl | rfl | rfl | rfl
      · exact (hleft (u := w) h).elim
      · exact (hleft (u := w) h).elim
      · exact (hleft (u := ' ' :: w) h).elim
      · exact (hleft (u := '\x27' :: w) h).elim
      · exact (hleft (u := '"' :: w) h).elim
      · exact (hleft (u := '\x60' :: w) h).elim
    · have hone : a ∉ ['@', '>', '?', ' ', '\x27', '"', '\x60'] :=
        List.not_mem_cons_of_ne_of_not_mem hat hstop
      rw [List.cons_append, atToken_one hone] at h
      rw [atToken_one hone]
      exact (wordToken_local .mysql _).trim h hB hblank

/-- **One step.** What becomes of a step that takes blanks at the end of what it takes when these
    are cut. -/
theorem step_trim (h : step d previous c (w ++ (B ++ R)) = .ok (t, R)) (hB : B ≠ [])
    (hblank : ∀ c ∈ B, isBlank c = true) : Shorter d c (step d previous c) w t := by
  rcases step_cases d previous c with hread | ⟨rfl, hread⟩ | ⟨-, hread⟩ | ⟨-, rfl, hread⟩
  · obtain ⟨t', ht', htrims⟩ := hread.trim h hB hblank
    exact .kept t' htrims ht'
  · rw [hread] at h ⊢
    exact dashToken_trim (Except.ok.inj h) hB hblank
  · rw [hread] at h ⊢
    obtain ⟨text, text', ht, hline⟩ := lineComment_trim (Except.ok.inj h) hB
    exact .comment text text' ht (congrArg Except.ok hline)
  · rw [hread] at h ⊢
    obtain ⟨t', ht', htrims⟩ := atToken_trim h hB hblank
    exact .kept t' htrims ht'

/-- A step before blanks is the same where these are cut. -/
theorem step_before_blanks (h : step d previous c (w ++ (R ++ B)) = .ok (t, R ++ B)) (hB : B ≠ [])
    (hblank : ∀ c ∈ B, isBlank c = true) : step d previous c (w ++ R) = .ok (t, R) := by
  have hne : R ++ B ≠ [] := List.append_ne_nil_of_right_ne_nil R hB
  have halike : Alike (R ++ B) R := by simpa using Alike.trimmed R hB hblank []
  -- a dash or a slash is no blank
  have hvisible : ∀ {c : Char} {u : List Char}, B = u ++ [c] → isBlank c = true := by
    rintro c u rfl
    exact hblank c (by simp)
  cases step_followed h halike with
  | kept h => exact h
  | swallowed hR => exact absurd hR hne
  | comment hR => exact absurd hR hne
  | dashes _ _ _ hR =>
    rcases List.append_eq_singleton_iff.mp hR with ⟨-, hB'⟩ | ⟨-, hB'⟩
    · cases hvisible (u := []) hB'
    · exact absurd hB' hB
  | opened _ _ _ S S' hR hR' =>
    subst hR'
    cases hR
  | sign _ _ _ hR => exact absurd hR hne

end Lexer

/-! ### Texts -/

variable {d : Dialect} {p q : Option Token} {A B cs : List Char} {t : Token} {ts us : List Token}

/-- The tokens of a text and those of the text without the blanks at its end, blanks and comments
    aside: they are the same, but for words that hold blanks at the end. -/
structure Shortened (ts us : List Token) : Prop where
  split : ∃ S W X, ts.filter (fun t => !t.isTrivia) = S ++ W ∧
    us.filter (fun t => !t.isTrivia) = S ++ X ∧ (∀ t ∈ W, HoldsBlank t) ∧ (W = [] → X = [])

namespace Shortened

/-- Behind the same token. -/
theorem cons (h : Shortened ts us) (t : Token) : Shortened (t :: ts) (t :: us) := by
  obtain ⟨S, W, X, hts, hus, hW, hX⟩ := h.split
  cases ht : t.isTrivia with
  | true => exact ⟨S, W, X, by simp [ht, hts], by simp [ht, hus], hW, hX⟩
  | false => exact ⟨t :: S, W, X, by simp [ht, hts], by simp [ht, hus], hW, hX⟩

/-- Behind two blanks or comments. -/
theorem trivia (h : Shortened ts us) {t t' : Token} (ht : t.isTrivia = true)
    (ht' : t'.isTrivia = true) : Shortened (t :: ts) (t' :: us) where
  split := by
    rw [List.filter_cons_of_neg (by simp [ht]), List.filter_cons_of_neg (by simp [ht'])]
    exact h.split

/-- Where nothing is left. -/
theorem nil (h : ∀ t ∈ ts, t.isTrivia = true ∨ HoldsBlank t) : Shortened ts [] where
  split := by
    refine ⟨[], _, [], rfl, rfl, fun t ht => ?_, fun _ => rfl⟩
    obtain ⟨hmem, hnot⟩ := List.mem_filter.mp ht
    rcases h t hmem with htrivia | hword
    · simp [htrivia] at hnot
    · exact hword

/-- Where a word that holds blanks becomes another token. -/
theorem word (ht : HoldsBlank t) (h : ∀ t ∈ ts, t.isTrivia = true ∨ HoldsBlank t) (t' : Token) :
    Shortened (t :: ts) [t'] where
  split := by
    obtain ⟨w, rfl, hw⟩ := ht
    refine ⟨[], _, _, rfl, rfl, fun u hu => ?_, fun hnil => ?_⟩
    · rcases List.mem_cons.mp hu with rfl | hu
      · exact ⟨w, rfl, hw⟩
      · obtain ⟨hmem, hnot⟩ := List.mem_filter.mp hu
        rcases h u hmem with htrivia | hword
        · simp [htrivia] at hnot
        · exact hword
    · cases hnil

end Shortened

/-- What is read of blanks are blanks and words that hold them. -/
theorem Scans.of_blanks (h : Scans d p cs ts q []) (hblank : ∀ c ∈ cs, isBlank c = true) :
    ∀ t ∈ ts, t.isTrivia = true ∨ HoldsBlank t := by
  generalize hnil : ([] : List Char) = S at h
  induction h with
  | done p cs => exact nofun
  | @token p q c t cs R S ts hstep hrest ih =>
    obtain ⟨hc, hcs⟩ := List.forall_mem_cons.mp hblank
    refine List.forall_mem_cons.mpr ⟨?_, ih (fun x hx => hcs x ((step_suffix hstep).subset hx)) hnil⟩
    rcases step_blank hc hstep with ⟨htrivia, -⟩ | ⟨-, more, rfl⟩
    · exact .inl htrivia
    · exact .inr ⟨_, rfl, c, by simp, hc⟩

/-- **Trimming.** Without the blanks at its end a text has the same tokens, blanks, comments and words
    that hold blanks aside, unless two dashes are left that need a space. -/
theorem Scans.trim (h : Scans d p (A ++ B) ts q []) (hblank : ∀ c ∈ B, isBlank c = true) :
    ∃ us q', Scans d p A us q' [] ∧ (Dangling d us ∨ Shortened ts us) := by
  generalize hcs : A ++ B = cs at h
  generalize hnil : ([] : List Char) = S at h
  induction h generalizing A B with
  | done p cs =>
    subst hnil
    obtain ⟨rfl, rfl⟩ := List.append_eq_nil_iff.mp hcs
    exact ⟨[], p, .done p [], .inr (.nil nofun)⟩
  | @token p q c t cs R S ts hstep hrest ih =>
    subst hnil
    cases A with
    | nil =>
      -- nothing is left
      refine ⟨[], p, .done p [], .inr (.nil ?_)⟩
      refine Scans.of_blanks (.token hstep hrest) ?_
      rwa [← hcs]
    | cons a A =>
      obtain ⟨rfl, rfl⟩ := List.cons.inj hcs
      obtain ⟨w, hw⟩ := step_suffix hstep
      have hbefore : ∀ A', A = w ++ A' → R = A' ++ B →
          ∃ us q', Scans d p (a :: A) us q' [] ∧ (Dangling d us ∨ Shortened (t :: ts) us) := by
        rintro A' rfl rfl
        obtain ⟨us, q', hscan, hshort⟩ := ih hblank rfl rfl
        refine ⟨t :: us, q', .token ?_ hscan, ?_⟩
        · rw [← hw] at hstep
          by_cases hB : B = []
          · subst hB
            simpa using hstep
          · exact step_before_blanks hstep hB hblank
        · exact hshort.imp (fun ⟨hd, hlast⟩ => ⟨hd, hlast.trans (List.suffix_cons t us)⟩) (·.cons t)
      rcases List.append_eq_append_iff.mp hw with ⟨A', hA, hR⟩ | ⟨B', rfl, rfl⟩
      · exact hbefore A' hA hR
      by_cases hB' : B' = []
      · subst hB'
        exact hbefore [] (by simp) rfl
      -- the blanks start inside the token
      obtain ⟨hin, hout⟩ := List.forall_mem_append.mp hblank
      have hwords := hrest.of_blanks hout
      cases step_trim hstep hB' hin with
      | kept t' ht h =>
        refine ⟨[t'], _, .one h, .inr ?_⟩
        rcases ht with rfl | ht
        · exact (Shortened.nil hwords).cons t'
        · exact .word ht hwords t'
      | comment text text' ht h =>
        subst ht
        exact ⟨_, _, .one h, .inr ((Shortened.nil hwords).trivia rfl rfl)⟩
      | dashes hd text ht hc hA =>
        subst hc hA
        obtain rfl : d = .mysql := beq_iff_eq.mp hd
        exact ⟨[.symbol "-", .symbol "-"], _, .token rfl (.one rfl), .inl ⟨rfl, List.suffix_refl _⟩⟩

/-! ### The limit -/

namespace Lexer.HoldsBlank

/-- Keywords hold no blanks. -/
theorem isKeyword_eq_false (h : HoldsBlank t) (keyword : String)
    (hkeyword : ∀ c ∈ keyword.toList, isBlank c = false) : t.isKeyword keyword = false := by
  obtain ⟨text, rfl, c, hc, hb⟩ := h
  rw [Bool.eq_false_iff]
  intro hequal
  have hlists := congrArg String.toList (beq_iff_eq.mp hequal)
  simp only [asciiLower, String.toList_ofList] at hlists
  have hmem : c.toLower ∈ keyword.toList.map Char.toLower := hlists ▸ List.mem_map_of_mem hc
  obtain ⟨x, hx, hxc⟩ := List.mem_map.mp hmem
  -- the blank would stand in the keyword, in one case or the other
  have hblank : isBlank x = true := by rw [← isBlank_toLower, hxc, isBlank_toLower, hb]
  rw [hkeyword x hx] at hblank
  cases hblank

variable {r : List (Token × Nat)}

/-- Tokens that hold a blank begin no limit clause. -/
theorem clauseFrom_eq_none (h : ∀ p ∈ r, HoldsBlank p.1) (depth : Nat) : clauseFrom depth r = none := by
  induction r generalizing depth with
  | nil => rfl
  | cons p r ih =>
    obtain ⟨t, i⟩ := p
    obtain ⟨ht, hr⟩ := List.forall_mem_cons.mp h
    have hlimit := ht.isKeyword_eq_false "limit" (by decide)
    have hfetch := ht.isKeyword_eq_false "fetch" (by decide)
    obtain ⟨text, rfl, -⟩ := ht
    simp [clauseFrom, hlimit, hfetch, ih hr]

/-- Tokens that hold a blank complete no limit clause. -/
theorem seals (hr : r ≠ []) (h : ∀ p ∈ r, HoldsBlank p.1) : Seals r := by
  obtain ⟨⟨t, i⟩, more, rfl⟩ := List.exists_cons_of_ne_nil hr
  have ht : HoldsBlank t := h _ (List.mem_cons_self ..)
  have hkeyword : ∀ keyword ∈ ["offset", "first", "next", "row", "rows", "only"],
      ∀ c ∈ keyword.toList, isBlank c = false := by decide
  obtain ⟨text, rfl, hblank⟩ := ht
  exact ⟨text, i, more, rfl, fun keyword hmem =>
    isKeyword_eq_false ⟨text, rfl, hblank⟩ keyword (hkeyword keyword hmem)⟩

end Lexer.HoldsBlank

namespace Shortened

/-- A keyword that stands first stays. -/
theorem head (h : Shortened ts us) (keywords : List String)
    (hkeywords : ∀ keyword ∈ keywords, ∀ c ∈ keyword.toList, isBlank c = false)
    (hstart : ∃ t ∈ (significant ts).head?, ∃ keyword ∈ keywords, t.isKeyword keyword = true) :
    (significant us).head? = (significant ts).head? := by
  have hfilter : ∀ ts : List Token,
      (significant ts).head? = (ts.filter fun t => !t.isTrivia).head? := fun ts => by
    rw [List.head?_filter, List.find?_eq_head?_dropWhile_not, significant]
    simp
  rw [hfilter] at hstart
  rw [hfilter, hfilter]
  obtain ⟨S, W, X, hts, hus, hW, -⟩ := h.split
  rw [hts] at hstart ⊢
  rw [hus]
  cases S with
  | nil =>
    -- a word that holds blanks is no keyword
    obtain ⟨t, ht, keyword, hmem, hkeyword⟩ := hstart
    have hword : HoldsBlank t := hW t (List.mem_of_head? ht)
    rw [hword.isKeyword_eq_false keyword (hkeywords keyword hmem)] at hkeyword
    cases hkeyword
  | cons t S => rfl

/-- **The limit.** A count that is found is found without the words at the end. -/
theorem limit (h : Shortened ts us) {n : Nat} (hcap : (findCap d ts).limit = .rows n) :
    (findCap d us).limit = .rows n := by
  obtain ⟨S, W, X, hts, hus, hW, hX⟩ := h.split
  rw [← map_fst_filter_zipIdx ts 0] at hts
  rw [← map_fst_filter_zipIdx us 0] at hus
  rw [findCap, significantTokens] at hcap ⊢
  by_cases hnil : W = []
  -- nothing but trivia was trimmed, and the positions do not matter
  · rw [hX hnil] at hus
    rw [hnil] at hts
    rw [capFrom_limit_congr (hus.trans hts.symm), hcap]
  · obtain ⟨l, r, hlr, hl, hr⟩ := List.map_eq_append_iff.mp hts
    obtain ⟨l', r', hlr', hl', -⟩ := List.map_eq_append_iff.mp hus
    -- what was trimmed are words with blanks, which complete no clause
    have hwords : ∀ p ∈ r, HoldsBlank p.1 := fun p hp => hW _ (hr ▸ List.mem_map_of_mem hp)
    have hrne : r ≠ [] := by
      rintro rfl
      exact hnil hr.symm
    rw [hlr] at hcap
    obtain ⟨position, hrows⟩ := exists_rows_of_limit hcap
    have hsealed := capFrom_sealed (HoldsBlank.seals hrne hwords)
      (HoldsBlank.clauseFrom_eq_none hwords) hrows r'
    -- the limit is the same with the shorter words in place of the longer ones
    have hplaces : (l' ++ r').map Prod.fst = (l ++ r').map Prod.fst := by
      rw [List.map_append, List.map_append, hl, hl']
    rw [hlr', capFrom_limit_congr hplaces, hsealed]
    rfl

end Shortened

end QueryGate.Sql
