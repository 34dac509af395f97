import QueryGate.Proofs.Extension.Combinators

namespace QueryGate.Sql.Parser

/-!
# Alternatives, loops and names that keep to their text

Parsers that look ahead, that take whatever lexeme comes next, that try one reading before another,
and that repeat themselves.
-/

variable {α β : Type} {κ : Tail} {m N : Nat} {p q : Parser α}

/-! ### Looking ahead -/

instance : Looks κ m N dialect dialect := ⟨fun _ _ _ _ _ _ hi _ _ => .ok hi rfl⟩

instance {d : Dialect} : Looks κ m N (isDialect d) (isDialect d) := by
  unfold isDialect
  infer_instance

section

variable {f g : Bool → Parser β} {test : Lexeme → Bool} {k s : String} {ks : List String}

/-- Asking about the next lexeme. -/
theorem runs_head {p : Parser Bool} (htest : Quiet κ test)
    (hp : ∀ env ls, p env ls = .ok (ls.head?.any test, ls)) :
    Runs κ m N (fun is b js => js = is ∧ (b = true → is ≠ [])) p p := by
  intro env henv zs zs' ht is hi _ _
  rw [hp, hp]
  cases is with
  | nil =>
    -- no tail passes the test, the empty one included
    have hfalse {ls : List Lexeme} (h : ∀ l ∈ ls.head?, test l = false) :
        ls.head?.any test = false := by
      cases ls with
      | nil => rfl
      | cons l ls => exact h l rfl
    rw [List.nil_append, List.nil_append, hfalse fun l hl => htest.head? ht (.inl hl),
      hfalse fun l hl => htest.head? ht (.inr hl)]
    exact .ok .nil ⟨rfl, nofun⟩
  | cons l ls => exact .ok hi ⟨rfl, fun _ => List.cons_ne_nil _ _⟩

/-- Where the next lexeme passes there is one. -/
theorem Keeps.of_head {p : Parser Bool}
    (hp : Runs κ m N (fun is b js => js = is ∧ (b = true → is ≠ [])) p p)
    (hyes : Keeps κ κ.need N (f true) (g true)) (hno : Keeps κ m N (f false) (g false)) :
    Keeps κ m N (p >>= f) (p >>= g) := by
  refine .of_bind hp fun {is b js} hi hm hN _ ⟨hjs, hne⟩ => ?_
  subst hjs
  cases b with
  | false => exact ⟨le_rfl, m, N, hm, hN, hno⟩
  | true =>
    have hneed : κ.need ≤ js.length := by
      cases κ with
      | limited => exact List.length_pos_iff.mpr (hne rfl)
      | _ => exact Nat.zero_le _
    exact ⟨le_rfl, κ.need, N, hneed, hN, hyes⟩

/-- A test that leaves its input is a look ahead. -/
theorem Looks.of_head {p : Parser Bool}
    (hp : Runs κ m N (fun is b js => js = is ∧ (b = true → is ≠ [])) p p) : Looks κ m N p p :=
  ⟨fun _ henv _ _ ht _ hi hm hN => (hp henv ht hi hm hN).mono fun _ h => h.1⟩

/-- Looking for a word that no tail holds. -/
theorem runs_atKeyword [hk : Absent κ k] :
    Runs κ m N (fun is b js => js = is ∧ (b = true → is ≠ [])) (atKeyword k) (atKeyword k) :=
  runs_head inner_keyword.toQuiet fun _ _ => rfl

/-- Looking for one of several words that no tail holds. -/
theorem runs_atAny [AllAbsent κ ks] :
    Runs κ m N (fun is b js => js = is ∧ (b = true → is ≠ [])) (atAny ks) (atAny ks) :=
  runs_head inner_keywords.toQuiet fun _ _ => rfl

/-- Looking for a symbol that no tail begins with. -/
theorem runs_atSymbol [h : Differ s ")"] :
    Runs κ m N (fun is b js => js = is ∧ (b = true → is ≠ [])) (atSymbol s) (atSymbol s) := by
  have htest : Quiet κ (·.token == .symbol s) := by
    refine ⟨fun _ => ?_, fun _ _ => rfl⟩
    simpa using Ne.symm h.ne
  exact runs_head htest fun _ _ => rfl

instance [Absent κ k] : Looks κ m N (atKeyword k) (atKeyword k) := .of_head runs_atKeyword

instance [AllAbsent κ ks] : Looks κ m N (atAny ks) (atAny ks) := .of_head runs_atAny

instance [Differ s ")"] : Looks κ m N (atSymbol s) (atSymbol s) := .of_head runs_atSymbol

instance (priority := 1100) [Absent κ k] [hyes : Keeps κ κ.need N (f true) (g true)]
    [hno : Keeps κ m N (f false) (g false)] :
    Keeps κ m N (atKeyword k >>= f) (atKeyword k >>= g) :=
  .of_head runs_atKeyword hyes hno

instance (priority := 1100) [AllAbsent κ ks] [hyes : Keeps κ κ.need N (f true) (g true)]
    [hno : Keeps κ m N (f false) (g false)] : Keeps κ m N (atAny ks >>= f) (atAny ks >>= g) :=
  .of_head runs_atAny hyes hno

instance (priority := 1100) [Differ s ")"] [hyes : Keeps κ κ.need N (f true) (g true)]
    [hno : Keeps κ m N (f false) (g false)] :
    Keeps κ m N (atSymbol s >>= f) (atSymbol s >>= g) :=
  .of_head runs_atSymbol hyes hno

/-- Inside parentheses the closing one is seen in the same place. -/
instance : Looks .inside m N (atSymbol ")") (atSymbol ")") := by
  refine ⟨fun env _ zs zs' ht is hi _ _ => ?_⟩
  cases ht with
  | @inside a zs zs' =>
    have hhead (zs) : (is ++ closing a :: zs).head? = is.head?.or (some (closing a)) := by
      cases is <;> rfl
    show Agree _ _ _ _ (.ok ((is ++ closing a :: zs).head?.any _, _))
      (.ok ((is ++ closing a :: zs').head?.any _, _))
    rw [hhead, hhead]
    exact .ok hi rfl

end

section

variable {f g : Option Token → Parser β}

/-- What goes on from the next token in the same way at the end, before a parenthesis and before
    a limit. -/
theorem Keeps.of_peekToken (hf : f (some (.symbol ")")) = f none) (hg : g (some (.symbol ")")) = g none)
    (hg' : g (some (.word "LIMIT" none)) = g none) (h : ∀ t, Keeps κ m N (f t) (g t)) :
    Keeps κ m N (peekToken >>= f) (peekToken >>= g) := by
  refine ⟨fun env henv zs zs' ht is hi hm hN => ?_⟩
  -- the parser looks at the token ahead and takes nothing
  show Agree κ zs zs' _ (f ((is ++ zs).head?.map (·.token)) env (is ++ zs))
    (g ((is ++ zs').head?.map (·.token)) env (is ++ zs'))
  cases is with
  | nil =>
    -- a tail alone looks like the end: that is what the hypotheses on `f` and `g` say
    have hend : f (zs.head?.map (·.token)) = f none ∧ g (zs'.head?.map (·.token)) = g none := by
      cases ht with
      | inside => exact ⟨hf, hg⟩
      | closed => exact ⟨rfl, hg⟩
      | limited => exact ⟨rfl, hg'⟩
      | lenient => exact ⟨rfl, hg'⟩
    rw [List.nil_append, List.nil_append, hend.1, hend.2]
    exact (h none).runs henv ht hi hm hN
  | cons l ls => exact (h (some l.token)).runs henv ht hi hm hN

end

/-! ### Taking a lexeme -/

/-- How many lexemes there are at least behind one. -/
def Tail.behind (κ : Tail) (l : Lexeme) : Nat := if l.asks = true then κ.need else 0

instance (priority := low) {l : Lexeme} [h : Keeps κ 0 N p q] : Keeps κ (κ.behind l) N p q :=
  h.mono (Nat.zero_le _) le_rfl

/-- What a lexeme asks for behind it is there. -/
theorem Tail.behind_le {l : Lexeme} {js : List Lexeme} (hl : l.token ≠ .symbol "(")
    (hfit : Fit κ.ended (l :: js)) : κ.behind l ≤ js.length := by
  unfold Tail.behind
  split
  · next hasks => exact Tested.need_le hl hfit hasks
  · exact Nat.zero_le _

section

variable {f g : Option Lexeme → Parser β}

/-- What goes on from a lexeme that is no parenthesis, and fails otherwise.  At the end nothing may
    be left to compare. -/
theorem Eats.of_next_at (hm : κ = .limited → m = 0 → ∀ a, g (some (limitWord a)) = misfit)
    (hf : f none = misfit) (hopen : ∀ a, f (some (opening a)) = misfit)
    (hclose : ∀ a, f (some (closing a)) = misfit) (hopen' : ∀ a, g (some (opening a)) = misfit)
    (hclose' : ∀ a, g (some (closing a)) = misfit)
    (h : ∀ l, ∀ M : Fin N, Keeps κ (κ.behind l) M (f (some l)) (g (some l))) :
    Eats κ m N (next >>= f) (next >>= g) := by
  refine ⟨fun env henv zs zs' ht is hi hmi hN => ?_⟩
  have hnext {h : Option Lexeme → Parser β} (l : Lexeme) (ls : List Lexeme) :
      (next >>= h) env (l :: ls) = h (some l) env ls := rfl
  have hend {h : Option Lexeme → Parser β} : (next >>= h) env [] = h none env [] := rfl
  -- a tail alone is refused in both texts, a parenthesis too; any other lexeme is taken
  cases hi with
  | nil =>
    cases ht with
    | inside =>
      rw [List.nil_append, List.nil_append, hnext, hnext, hclose, hclose']
      exact .error _
    | closed =>
      rw [List.nil_append, List.nil_append, hend, hnext, hf, hclose']
      exact .error _
    | limited =>
      rw [List.nil_append, List.nil_append, limit, hend, hnext, hf,
        hm rfl (Nat.le_zero.mp hmi)]
      exact .error _
    | lenient =>
      rw [List.nil_append, hend, hf]
      exact .of_lenient rfl _
  | @cons _ l ls hplain hleads hls =>
    rw [List.cons_append, List.cons_append, hnext, hnext]
    -- what is behind the lexeme is as long as the lexeme asks for
    refine ((h l ⟨ls.length, by simpa using hN⟩).runs henv ht hls
      (Tail.behind_le hplain.not_opening (.cons hplain hleads hls)) le_rfl).mono ?_
    exact fun _ hle => Nat.lt_succ_of_le hle
  | parens =>
    rw [List.cons_append, List.cons_append, hnext, hnext, hopen, hopen']
    exact .error _

/-- The same for a parser that fails of a limit, too. -/
theorem Eats.of_next (hf : f none = misfit) (hopen : ∀ a, f (some (opening a)) = misfit)
    (hclose : ∀ a, f (some (closing a)) = misfit) (hopen' : ∀ a, g (some (opening a)) = misfit)
    (hclose' : ∀ a, g (some (closing a)) = misfit)
    (h : ∀ l, ∀ M : Fin N, Keeps κ (κ.behind l) M (f (some l)) (g (some l))) :
    Eats κ κ.need N (next >>= f) (next >>= g) :=
  .of_next_at (fun hκ hm => by subst hκ; cases hm) hf hopen hclose hopen' hclose' h

end

section

variable {f g : Option Token → Parser β}

theorem nextToken_bind (f : Option Token → Parser β) :
    nextToken >>= f = next >>= fun l => f (l.map (·.token)) := by
  simp only [nextToken, bind_assoc, pure_bind]

/-- What goes on from a token that is no parenthesis, and fails otherwise. -/
theorem Eats.of_nextToken (hf : f none = misfit) (hopen : f (some (.symbol "(")) = misfit)
    (hclose : f (some (.symbol ")")) = misfit) (hopen' : g (some (.symbol "(")) = misfit)
    (hclose' : g (some (.symbol ")")) = misfit)
    (h : ∀ t, ∀ M : Fin N, Keeps κ 0 M (f (some t)) (g (some t))) :
    Eats κ κ.need N (nextToken >>= f) (nextToken >>= g) := by
  rw [nextToken_bind, nextToken_bind]
  exact .of_next hf (fun _ => hopen) (fun _ => hclose) (fun _ => hopen') (fun _ => hclose')
    fun l M => (h l.token M).mono (Nat.zero_le _) le_rfl

/-- The same for a parser that fails of a word, too. -/
theorem Eats.of_nextToken_quiet (hlimit : g (some (.word "LIMIT" none)) = misfit)
    (hf : f none = misfit) (hopen : f (some (.symbol "(")) = misfit)
    (hclose : f (some (.symbol ")")) = misfit) (hopen' : g (some (.symbol "(")) = misfit)
    (hclose' : g (some (.symbol ")")) = misfit)
    (h : ∀ t, ∀ M : Fin N, Keeps κ 0 M (f (some t)) (g (some t))) :
    Eats κ 0 N (nextToken >>= f) (nextToken >>= g) := by
  rw [nextToken_bind, nextToken_bind]
  exact .of_next_at (fun _ _ _ => hlimit) hf (fun _ => hopen) (fun _ => hclose) (fun _ => hopen')
    (fun _ => hclose') fun l M => (h l.token M).mono (Nat.zero_le _) le_rfl

end

/-! ### Alternatives -/

section

variable {p' q' : Parser α}

/-- After a misfit the lexemes are those before it. -/
theorem Agree.attempt {env : Env} {zs zs' is : List Lexeme} {R : α → List Lexeme → Prop}
    (hi : Fit κ.ended is) (h : Agree κ.firm zs zs' R (p env (is ++ zs)) (q env (is ++ zs'))) :
    Agree κ zs zs' (fun o js => match o with
      | some a => R a js
      | none => js = is) (attempt p env (is ++ zs)) (attempt q env (is ++ zs')) := by
  simp only [Parser.attempt]
  rcases h.cases with ⟨e, hl, hlenient | hm⟩ | ⟨a, js, hl, hm, hjs, hR⟩
  · cases κ <;> cases hlenient
  · rw [hl, hm]
    cases e with
    | misfit => exact .ok hi rfl
    | tooDeep => exact .error _
    | stuck => exact .error _
  · rw [hl, hm]
    exact .ok (κ.ended_firm ▸ hjs) hR

/-- A tail that is read exactly is its own firm form. -/
theorem Tail.firm_eq (κ : Tail) [hκ : κ.Exact] : κ.firm = κ := by
  cases κ with
  | lenient => exact absurd rfl hκ.ne
  | _ => rfl

/-- An attempt goes back to where it began, so it may fail in one text and in the other alike. -/
theorem Runs.attempt [κ.Exact] {R : List Lexeme → α → List Lexeme → Prop}
    (h : Runs κ m N R p q) :
    Runs κ m N (fun is o js => match o with
      | some a => R is a js
      | none => js = is) (attempt p) (attempt q) :=
  fun _ henv _ _ ht _ hi hm hN => .attempt hi (κ.firm_eq.symm ▸ h henv ht hi hm hN)

/-- What is given up is compared, whatever stands behind it. -/
instance (priority := low) [h : Keeps κ.firm 0 N p q] : Keeps κ 0 N (attempt p) (attempt q) := by
  refine ⟨fun _ henv _ _ ht _ hi _ hN => (Agree.attempt hi (h.runs henv ht.firm
    (κ.ended_firm ▸ hi) (Nat.zero_le _) hN)).mono fun {o _} _ hR => ?_⟩
  cases o with
  | some a => exact hR
  | none => exact hR ▸ le_rfl

instance [κ.Exact] [h : Keeps κ m N p q] : Keeps κ m N (attempt p) (attempt q) :=
  ⟨fun _ henv _ _ ht _ hi hm hN => (h.runs.attempt henv ht hi hm hN).mono fun {o _} _ hR => by
    cases o with
    | some a => exact hR
    | none => exact hR ▸ le_rfl⟩

/-- Where nothing was read the same lexemes are left. -/
theorem Keeps.of_attempt [κ.Exact] {f g : Option α → Parser β} (h : Keeps κ m N p q)
    (hsome : ∀ a, Keeps κ 0 N (f (some a)) (g (some a))) (hnone : Keeps κ m N (f none) (g none)) :
    Keeps κ m N (attempt p >>= f) (attempt q >>= g) := by
  refine .of_bind h.runs.attempt fun {is o js} _ hm hN _ hR => ?_
  cases o with
  | some a => exact ⟨hR, 0, N, Nat.zero_le _, hR.trans hN, hsome a⟩
  | none =>
    subst hR
    exact ⟨le_rfl, m, N, hm, hN, hnone⟩

instance (priority := 1100) [κ.Exact] {f g : Option α → Parser β} [h : Keeps κ m N p q]
    [hsome : ∀ a, Keeps κ 0 N (f (some a)) (g (some a))] [hnone : Keeps κ m N (f none) (g none)] :
    Keeps κ m N (attempt p >>= f) (attempt q >>= g) :=
  .of_attempt h hsome hnone

/-- What is given up inside a pair of parentheses is taken up there. -/
theorem Leaves.of_attempt {f g : Option α → Parser β} (h : Leaves κ.firm N p q)
    (hsome : ∀ a, Keeps κ 0 N (f (some a)) (g (some a))) (hnone : Leaves κ N (f none) (g none)) :
    Leaves κ N (attempt p >>= f) (attempt q >>= g) := by
  refine ⟨fun env henv zs zs' ht js is hjs his b hN => ?_⟩
  show Agree κ zs zs' _ (attempt p env _ >>= fun r => f r.1 env r.2)
    (attempt q env _ >>= fun r => g r.1 env r.2)
  simp only [Parser.attempt]
  -- the attempt is read exactly, so it fails in both texts with one error
  rcases (h.runs henv ht.firm hjs (κ.ended_firm ▸ his) b hN).cases with
    ⟨e, hl, hlenient | hm⟩ | ⟨a, ks, hl, hm, hks, hle⟩
  · cases κ <;> cases hlenient
  · rw [hl, hm]
    -- only a misfit is caught; the other errors go through
    cases e with
    | misfit => exact hnone.runs henv ht hjs his b hN
    | tooDeep => exact .error _
    | stuck => exact .error _
  · rw [hl, hm]
    exact ((hsome a).runs henv ht (κ.ended_firm ▸ hks) (Nat.zero_le _) (by omega)).mono
      fun _ hle' => hle'.trans hle

instance [hκ : κ.Exact] [h : Keeps κ m N p q] [h' : Keeps κ m N p' q'] :
    Keeps κ m N (orElseInstead p p') (orElseInstead q q') := by
  refine ⟨fun env henv zs zs' ht is hi hm hN => ?_⟩
  simp only [orElseInstead]
  -- the second choice is tried where the first one fails, and both texts agree on that
  rcases (h.runs henv ht hi hm hN).cases with ⟨e, hl, hlenient | hm'⟩ | ⟨a, js, hl, hm', hjs, hR⟩
  · exact absurd hlenient hκ.ne
  · rw [hl, hm']
    rcases (h'.runs henv ht hi hm hN).cases with
      ⟨e', hl', hlenient | hm''⟩ | ⟨a, js, hl', hm'', hjs, hR⟩
    · exact absurd hlenient hκ.ne
    · rw [hl', hm'']
      -- which error is passed on depends on the two errors and not on the text
      cases e <;> cases e' <;> exact .error _
    · rw [hl', hm'']
      cases e with
      | stuck => exact .error _
      | misfit => exact .ok hjs hR
      | tooDeep => exact .ok hjs hR
  · rw [hl, hm']
    exact .ok hjs hR

instance [h : Keeps κ m N p q] : Keeps κ m N (insist p) (insist q) := by
  refine ⟨fun env henv zs zs' ht is hi hm hN => ?_⟩
  simp only [insist]
  rcases (h.runs henv ht hi hm hN).cases with ⟨e, hl, hlenient | hm'⟩ | ⟨a, js, hl, hm', hjs, hR⟩
  · rw [hl]
    exact .of_lenient hlenient _
  · rw [hl, hm']
    exact .error _
  · rw [hl, hm']
    exact .ok hjs hR

instance {p q p' q' : Parser Bool} [Keeps κ m N p q] [Keeps κ 0 N p' q'] :
    Keeps κ m N (both p p') (both q q') := by
  unfold both
  infer_instance

instance {p q p' q' : Parser Bool} [Looks κ m N p q] [Looks κ m N p' q'] :
    Looks κ m N (both p p') (both q q') := by
  unfold both
  infer_instance

instance (priority := 1100) {p q p' q' : Parser Bool} [Looks κ m N p q] [Keeps κ m N p' q'] :
    Keeps κ m N (both p p') (both q q') := by
  unfold both
  infer_instance

instance {p q p' q' : Parser Bool} [Keeps κ m N p q] [Keeps κ 0 N p' q'] :
    Keeps κ m N (either p p') (either q q') := by
  unfold either
  infer_instance

end

/-! ### Nested parsers -/

instance [hκ : κ.Unlimited] : Keeps κ m N query query :=
  ⟨fun _ henv _ _ ht _ hi _ _ => henv.query ht hi⟩

/-- An expression goes on to the same end, unless it is looked for where there is none. -/
instance {power : Nat} : Keeps κ κ.need N (termAbove power) (termAbove power) := by
  refine ⟨fun env henv zs zs' ht is hi hm _ => ?_⟩
  show Agree _ _ _ _ (env.term power _) (env.term power _)
  -- enough is inside for the nested parser, or the tail is the lenient one and nothing is inside
  by_cases hneed : κ.firm.need ≤ is.length
  · exact (henv.term power ht.firm (κ.ended_firm ▸ hi) hneed).of_firm
  · cases ht with
    | inside => exact absurd (Nat.zero_le _) hneed
    | closed => exact absurd (Nat.zero_le _) hneed
    | limited => exact absurd hm hneed
    | lenient =>
      cases is with
      | nil =>
        obtain ⟨e, he⟩ := henv.term_nil power
        rw [List.nil_append, he]
        exact .of_lenient rfl e
      | cons l ls => exact absurd (Nat.le_add_left 1 _) hneed

instance : Keeps κ κ.need N expr expr :=
  inferInstanceAs (Keeps κ κ.need N (termAbove 0) (termAbove 0))

instance : Keeps κ κ.need N exprQueries exprQueries := by
  unfold exprQueries
  infer_instance

/-! ### Loops -/

/-- Fuel for every lexeme. -/
abbrev Above (N : Nat) := {n : Nat // N < n}

section

variable {R : List Lexeme → α → List Lexeme → Prop}

/-- A loop with a value that changes from round to round runs as one round does, where it goes on
    with fewer lexemes. -/
theorem Runs.loopWith {γ : Type} {p q : Nat → γ → Parser α}
    (h : ∀ (n n' : Nat) (M : Fin (N + 1)), M.val ≤ n → M.val ≤ n' →
      (∀ c, ∀ K : Fin M, Runs κ m K R (p n c) (q n' c)) →
        ∀ c, Runs κ m M R (p (n + 1) c) (q (n' + 1) c)) (n n' : Above N) (c : γ) :
    Runs κ m N R (p n c) (q n' c) := by
  -- by induction on the fuel of one text, which bounds what is inside; the other has as much
  have hall (n n' : Nat) (M : Fin (N + 1)) (hM : M.val < n) (hM' : M.val < n') (c : γ) :
      Runs κ m M R (p n c) (q n' c) := by
    induction n generalizing n' M c with
    | zero => exact absurd hM (Nat.not_lt_zero _)
    | succ n ih =>
      cases n' with
      | zero => exact absurd hM' (Nat.not_lt_zero _)
      | succ n' =>
        refine h n n' M (Nat.le_of_lt_succ hM) (Nat.le_of_lt_succ hM') (fun c K => ?_) c
        have hK := K.isLt
        have hMN := M.isLt
        exact ih n' ⟨K, by omega⟩ (by simp only; omega) (by simp only; omega) c
  exact hall n n' ⟨N, Nat.lt_succ_self N⟩ n.property n'.property c

variable {p q : Nat → Parser α}

/-- A loop runs as one round does, where it goes on with fewer lexemes. -/
theorem Runs.loop
    (h : ∀ (n n' : Nat) (M : Fin (N + 1)), M.val ≤ n → M.val ≤ n' →
      (∀ K : Fin M, Runs κ m K R (p n) (q n')) → Runs κ m M R (p (n + 1)) (q (n' + 1)))
    (n n' : Above N) : Runs κ m N R (p n) (q n') :=
  Runs.loopWith (p := fun n (_ : Unit) => p n) (q := fun n _ => q n)
    (fun n n' M hn hn' ih _ => h n n' M hn hn' (ih ())) n n' ()

/-- A loop keeps to its text if one round does, where it goes on with fewer lexemes. -/
theorem Keeps.loop (h : ∀ (n n' : Nat) (M : Fin (N + 1)) [∀ K : Fin M, Base κ m K (p n) (q n')],
      Keeps κ m M (p (n + 1)) (q (n' + 1))) (n n' : Above N) : Keeps κ m N (p n) (q n') := by
  refine ⟨.loop (fun n n' M _ _ ih => ?_) n n'⟩
  have (K : Fin M) : Base κ m K (p n) (q n') := ⟨⟨ih K⟩⟩
  exact (h n n' M).runs

/-- The same for a loop with a value that changes from round to round. -/
theorem Keeps.loopWith {γ : Type} {p q : Nat → γ → Parser α}
    (h : ∀ (n n' : Nat) (M : Fin (N + 1)) [∀ c, ∀ K : Fin M, Base κ m K (p n c) (q n' c)] (c : γ),
      Keeps κ m M (p (n + 1) c) (q (n' + 1) c)) (n n' : Above N) (c : γ) :
    Keeps κ m N (p n c) (q n' c) := by
  refine ⟨.loopWith (fun n n' M _ _ ih c => ?_) n n' c⟩
  have (c : γ) (K : Fin M) : Base κ m K (p n c) (q n' c) := ⟨⟨ih c K⟩⟩
  exact (h n n' M c).runs

/-- A loop takes something if one round does. -/
theorem Eats.loop (h : ∀ (n n' : Nat) (M : Fin (N + 1)) [∀ K : Fin M, Base κ m K (p n) (q n')],
      Eats κ m M (p (n + 1)) (q (n' + 1))) (n n' : Above N) : Eats κ m N (p n) (q n') := by
  refine ⟨.loop (fun n n' M _ _ ih => ?_) n n'⟩
  have (K : Fin M) : Base κ m K (p n) (q n') := ⟨Eats.keeps ⟨ih K⟩⟩
  exact (h n n' M).runs

/-- There is fuel for every lexeme. -/
theorem Runs.withFuel (h : ∀ (M : Fin (N + 1)) (n n' : Above M), Runs κ m M R (p n) (q n')) :
    Runs κ m N R (withFuel p) (withFuel q) := by
  intro env henv zs zs' ht is hi hm hN
  have hlen (zs : List Lexeme) : is.length < (is ++ zs).length + 1 := by
    rw [List.length_append]
    omega
  exact h ⟨is.length, Nat.lt_succ_of_le hN⟩ ⟨_, hlen zs⟩ ⟨_, hlen zs'⟩ henv ht hi hm le_rfl

instance [h : ∀ (M : Fin (N + 1)) (n n' : Above M), Keeps κ m M (p n) (q n')] :
    Keeps κ m N (withFuel p) (withFuel q) :=
  ⟨.withFuel fun M n n' => (h M n n').runs⟩

instance [h : ∀ (M : Fin (N + 1)) (n n' : Above M), Eats κ m M (p n) (q n')] :
    Eats κ m N (withFuel p) (withFuel q) :=
  ⟨.withFuel fun M n n' => (h M n n').runs⟩

instance [h : ∀ (M : Fin (N + 1)) (n n' : Above M), Leaves κ M (p n) (q n')] :
    Leaves κ N (withFuel p) (withFuel q) := by
  refine ⟨fun env henv zs zs' ht js is hjs his b hN => ?_⟩
  have hlen (zs : List Lexeme) :
      js.length + 1 + is.length < (js ++ closing b :: (is ++ zs)).length + 1 := by
    simp only [List.length_append, List.length_cons]
    omega
  exact (h ⟨js.length + 1 + is.length, Nat.lt_succ_of_le hN⟩ ⟨_, hlen zs⟩ ⟨_, hlen zs'⟩).runs henv
    ht hjs his b le_rfl

end

/-! ### Lists -/

section

instance (n n' : Above N) [h : Keeps κ κ.need N p q] :
    Keeps κ κ.need N (listOf p n) (listOf q n') :=
  have : Base κ κ.need N p q := ⟨h⟩
  Keeps.loop (fun n n' M _ => by
    unfold listOf
    infer_instance) n n'

instance (n n' : Above N) [h : Keeps κ 0 N p q] : Keeps κ 0 N (listOf p n) (listOf q n') :=
  have : Base κ 0 N p q := ⟨h⟩
  Keeps.loop (fun n n' M _ => by
    unfold listOf
    infer_instance) n n'

instance [h : Keeps κ κ.need N p q] : Keeps κ κ.need N (commaList p) (commaList q) := by
  have : Base κ κ.need N p q := ⟨h⟩
  unfold commaList
  infer_instance

instance [h : Keeps κ 0 N p q] : Keeps κ 0 N (commaList p) (commaList q) := by
  have : Base κ 0 N p q := ⟨h⟩
  unfold commaList
  infer_instance

variable {p q : Parser (List α)} {k : String}

instance [Keeps κ κ.need N p q] : Keeps κ κ.need N (commaLists p) (commaLists q) := by
  unfold commaLists
  infer_instance

instance [Keeps κ 0 N p q] : Keeps κ 0 N (commaLists p) (commaLists q) := by
  unfold commaLists
  infer_instance

instance [Absent κ k] [Among k askingWords] [h : Keeps κ κ.need N p q] :
    Keeps κ 0 N (clause k p) (clause k q) := by
  have : Base κ κ.need N p q := ⟨h⟩
  unfold clause
  infer_instance

instance [Absent κ k] [h : Keeps κ 0 N p q] : Keeps κ 0 N (clause k p) (clause k q) := by
  have : Base κ 0 N p q := ⟨h⟩
  unfold clause
  infer_instance

instance [Absent κ k] [Absent κ "BY"] [h : Keeps κ 0 N p q] :
    Keeps κ 0 N (clauseBy k p) (clauseBy k q) := by
  have : Base κ 0 N p q := ⟨h⟩
  unfold clauseBy
  infer_instance

end

/-! ### Names -/

instance : Eats κ κ.need N ident ident := by
  refine .of_next rfl (fun _ => rfl) (fun _ => rfl) (fun _ => rfl) (fun _ => rfl) fun l M => ?_
  dsimp only [Option.bind_some]
  split <;> infer_instance

instance : Keeps κ κ.need N ident ident := Eats.keeps inferInstance

instance (n n' : Above N) : Eats κ κ.need N (dotted n) (dotted n') :=
  Eats.loop (fun n n' M _ => by
    unfold dotted
    infer_instance) n n'

instance : Eats κ κ.need N name name := by
  unfold name
  infer_instance

instance : Keeps κ κ.need N name name := Eats.keeps inferInstance

/-- Words that a limit is not taken for an alias among. -/
class Reserves (κ : Tail) (ks : List String) : Prop where
  mem : κ.ended = true → "LIMIT" ∈ ks

instance {ks : List String} [h : Among "LIMIT" ks] : Reserves κ ks := ⟨fun _ => h.mem⟩

instance [h : κ.Unlimited] {ks : List String} : Reserves κ ks :=
  ⟨fun hended => absurd (h.eq.symm.trans hended) Bool.false_ne_true⟩

section

variable {reserved : List String}

/-- An alias with `AS` may be any name; one without may not be a reserved word. -/
theorem aliasUnless_eq (reserved : List String) :
    aliasUnless reserved = keyword "AS" >>= fun b =>
      if b then some <$> ident else take? (aliasWord? reserved) := by
  rw [aliasUnless]
  congr 1
  funext b
  cases b with
  | true => rw [if_pos rfl, if_pos rfl, map_eq_pure_bind]
  -- without `AS` one lexeme decides
  | false =>
    rw [if_neg Bool.false_ne_true, if_neg Bool.false_ne_true]
    funext env ls
    cases ls with
    | nil => rfl
    | cons l ls =>
      rw [bind_of_ok (a := l :: ls) (r := l :: ls) rfl]
      dsimp only
      cases h : aliasWord? reserved l with
      | some i =>
        rw [take?_of_some h]
        rfl
      | none =>
        rw [take?_of_none h]
        rfl

instance [hκ : Reserves κ reserved] :
    Keeps κ 0 N (aliasUnless reserved) (aliasUnless reserved) := by
  have hword : Keeps κ 0 N (take? (aliasWord? reserved)) (take? (aliasWord? reserved)) := by
    refine keeps_take? ⟨⟨fun _ => rfl, fun h => ?_⟩, fun _ => rfl⟩
    simp [aliasWord?, hκ.mem h]
  rw [aliasUnless_eq]
  infer_instance

end

instance : Keeps κ 0 N identList identList := by
  unfold identList
  infer_instance

instance : Keeps κ 0 N nameList nameList := by
  unfold nameList
  infer_instance

end QueryGate.Sql.Parser
