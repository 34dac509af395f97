import QueryGate.Proofs.Extension.Keeps

namespace QueryGate.Sql.Parser

/-!
# Combinators that keep to their text

Tests of the next lexeme, lists, names and loops.  Behind a test that takes a lexeme fewer are left,
which is what a loop descends on; and if the lexeme asks for more, there is one.
-/

variable {α β : Type} {κ : Tail} {m N : Nat} {p q : Parser α} {f g : α → Parser β}

/-! ### Keywords -/

section

variable {k : String} {ks : List String}

/-- A word that no tail holds is looked for inside only. -/
theorem inner_keyword [hk : Absent κ k] : Inner κ (·.keyword == k) where
  opening _ := beq_false_of_ne (Ne.symm hk.ne_empty)
  closing _ := beq_false_of_ne (Ne.symm hk.ne_empty)
  limit h _ := beq_false_of_ne (Ne.symm (hk.ne_limit h))

/-- A word that no tail holds is found inside or nowhere. -/
theorem runs_keyword [Absent κ k] :
    Runs κ m N (Tested κ (·.keyword == k) false fun _ => true) (keyword k) (keyword k) := by
  refine runs_of_test inner_keyword (fun env l ls hl => ?_) fun env ls hls => ?_
  · show (if (l.keyword == k) = true then _ else _ : Parser Bool) env (l :: ls) = _
    rw [if_pos hl]
    rfl
  · exact keyword_of_head fun l hl => by simpa using hls l hl

theorem inner_keywords [hks : AllAbsent κ ks] : Inner κ (ks.contains ·.keyword) where
  opening _ := by simpa using fun h => (hks.absent _ h).ne_empty rfl
  closing _ := by simpa using fun h => (hks.absent _ h).ne_empty rfl
  limit h _ := by simpa using fun h' => (hks.absent _ h').ne_limit h rfl

/-- One of several words that no tail holds is found inside or nowhere. -/
theorem runs_keywordOf? [AllAbsent κ ks] :
    Runs κ m N (Tested κ (ks.contains ·.keyword) none fun l => some l.keyword)
      (keywordOf? ks) (keywordOf? ks) := by
  refine runs_of_test inner_keywords (fun env l ls hl => ?_) fun env ls hls => ?_
  · show (if ks.contains l.keyword = true then _ else _ : Parser (Option String)) env (l :: ls) = _
    rw [if_pos hl]
    rfl
  · exact keywordOf?_of_head fun l hl => by simpa using hls l hl

end

/-! ### Symbols -/

section

variable {s : String}

/-- A symbol that is no parenthesis is found inside or nowhere. -/
theorem runs_symbol [hopen : Differ s "("] [hclose : Differ s ")"] :
    Runs κ m N (Tested κ (·.token == .symbol s) false fun _ => true) (symbol s) (symbol s) := by
  have hinner : Inner κ (·.token == .symbol s) := by
    -- the symbol is neither parenthesis, so the test is passed inside only
    refine ⟨⟨fun _ => ?_, fun _ _ => rfl⟩, fun _ => ?_⟩
    · simpa using Ne.symm hclose.ne
    · simpa using Ne.symm hopen.ne
  refine runs_of_test (p := symbol s) hinner (fun env l ls hl => ?_) fun env ls hls => ?_
  · show (if (l.token == .symbol s) = true then _ else _ : Parser Bool) env (l :: ls) = _
    rw [if_pos hl]
    rfl
  · exact symbol_of_head fun l hl => by simpa using hls l hl

end

/-! ### What goes on behind a test -/

section

variable {test : Lexeme → Bool} {no : α} {yes : Lexeme → α}

/-- Behind a test that takes a lexeme fewer are left. -/
theorem Keeps.of_test (h : Runs κ m N (Tested κ test no yes) p q)
    (hyes : ∀ l, test l = true → ∀ M : Fin N, Keeps κ 0 M (f (yes l)) (g (yes l)))
    (hno : Keeps κ m N (f no) (g no)) : Keeps κ m N (p >>= f) (q >>= g) := by
  refine .of_bind h fun {is a js} hi hm hN hj hR => ?_
  cases hR with
  | no => exact ⟨le_rfl, m, N, hm, hN, hno⟩
  | @yes l _ hl _ hfit hlt =>
    exact ⟨hlt.le, 0, js.length, Nat.zero_le _, le_rfl, hyes l hl ⟨_, hlt.trans_le hN⟩⟩

/-- Behind one that takes a lexeme which asks for more there is one. -/
theorem Keeps.of_asking_test (h : Runs κ m N (Tested κ test no yes) p q)
    (hasks : ∀ l, test l = true → l.asks = true)
    (hyes : ∀ l, test l = true → ∀ M : Fin N, Keeps κ κ.need M (f (yes l)) (g (yes l)))
    (hno : Keeps κ m N (f no) (g no)) : Keeps κ m N (p >>= f) (q >>= g) := by
  refine .of_bind h fun {is a js} hi hm hN hj hR => ?_
  cases hR with
  | no => exact ⟨le_rfl, m, N, hm, hN, hno⟩
  | @yes l _ hl hopen hfit hlt =>
    exact ⟨hlt.le, κ.need, js.length, Tested.need_le hopen hfit (hasks l hl), le_rfl,
      hyes l hl ⟨_, hlt.trans_le hN⟩⟩

/-- A test that takes a lexeme, if nothing follows without one. -/
theorem Eats.of_test (h : Runs κ m N (Tested κ test no yes) p q)
    (hyes : ∀ l, test l = true → ∀ M : Fin N, Keeps κ 0 M (f (yes l)) (g (yes l)))
    (hno : Eats κ m N (f no) (g no)) : Eats κ m N (p >>= f) (q >>= g) := by
  refine ⟨fun env henv zs zs' ht is hi hm hN => (h henv ht hi hm hN).bind fun {a js} hj hR => ?_⟩
  cases hR with
  | no => exact hno.runs henv ht hi hm hN
  | @yes l _ hl _ hfit hlt =>
    exact ((hyes l hl ⟨_, hlt.trans_le hN⟩).runs henv ht hj (Nat.zero_le _) le_rfl).mono
      fun _ hle => hle.trans_lt hlt

/-- The same for a lexeme that asks for more. -/
theorem Eats.of_asking_test (h : Runs κ m N (Tested κ test no yes) p q)
    (hasks : ∀ l, test l = true → l.asks = true)
    (hyes : ∀ l, test l = true → ∀ M : Fin N, Keeps κ κ.need M (f (yes l)) (g (yes l)))
    (hno : Eats κ m N (f no) (g no)) : Eats κ m N (p >>= f) (q >>= g) := by
  refine ⟨fun env henv zs zs' ht is hi hm hN => (h henv ht hi hm hN).bind fun {a js} hj hR => ?_⟩
  cases hR with
  | no => exact hno.runs henv ht hi hm hN
  | @yes l _ hl hopen hfit hlt =>
    exact ((hyes l hl ⟨_, hlt.trans_le hN⟩).runs henv ht hj (Tested.need_le hopen hfit (hasks l hl))
      le_rfl).mono fun _ hle => hle.trans_lt hlt

/-- Which words ask for something behind them is decided by the keyword alone. -/
theorem Lexeme.asks_of_keyword {l : Lexeme} (h : l.keyword ∈ askingWords) : l.asks = true := by
  rw [Lexeme.asks, List.contains_iff_mem.mpr h, Bool.true_or]

end

/-- A symbol that closes nothing. -/
class AsksSymbol (s : String) : Prop where
  ne_paren : s ≠ ")"
  ne_bracket : s ≠ "]"
  ne_brace : s ≠ "\x7d"

instance {s : String} [h : Differ s ")"] [h' : Differ s "]"] [h'' : Differ s "\x7d"] :
    AsksSymbol s :=
  ⟨h.ne, h'.ne, h''.ne⟩

/-- A symbol that asks for an operand does so in every lexeme. -/
theorem AsksSymbol.asks {s : String} (h : AsksSymbol s) {l : Lexeme} (hl : l.token = .symbol s) :
    l.asks = true := by
  simp [Lexeme.asks, hl, h.ne_paren, h.ne_bracket, h.ne_brace]

section

variable {f g : Bool → Parser β} {k s : String} {ks : List String}

/-- A word that counts tokens is not there. -/
instance (priority := 1300) [Absent κ k] [h : Among k countingWords]
    [hno : Keeps κ m N (f false) (g false)] : Keeps κ m N (keyword k >>= f) (keyword k >>= g) := by
  refine .of_bind runs_keyword fun {is b js} hi hm hN hj hR => ?_
  cases hR with
  | no => exact ⟨le_rfl, m, N, hm, hN, hno⟩
  | yes hl hopen hfit hlt =>
    exact absurd ((eq_of_beq hl).symm ▸ h.mem) (hfit.of_cons hopen).1.not_counting

instance (priority := 1200) [Absent κ k] [h : Among k askingWords]
    [hyes : ∀ M : Fin N, Keeps κ κ.need M (f true) (g true)] [hno : Keeps κ m N (f false) (g false)] :
    Keeps κ m N (keyword k >>= f) (keyword k >>= g) :=
  .of_asking_test runs_keyword
    (fun _ hl => Lexeme.asks_of_keyword ((eq_of_beq hl).symm ▸ h.mem)) (fun _ _ => hyes) hno

instance (priority := 1100) [Absent κ k] [hyes : ∀ M : Fin N, Keeps κ 0 M (f true) (g true)]
    [hno : Keeps κ m N (f false) (g false)] : Keeps κ m N (keyword k >>= f) (keyword k >>= g) :=
  .of_test runs_keyword (fun _ _ => hyes) hno

instance (priority := 1200) [Absent κ k] [h : Among k askingWords]
    [hyes : ∀ M : Fin N, Keeps κ κ.need M (f true) (g true)] [hno : Eats κ m N (f false) (g false)] :
    Eats κ m N (keyword k >>= f) (keyword k >>= g) :=
  .of_asking_test runs_keyword
    (fun _ hl => Lexeme.asks_of_keyword ((eq_of_beq hl).symm ▸ h.mem)) (fun _ _ => hyes) hno

instance (priority := 1100) [Absent κ k] [hyes : ∀ M : Fin N, Keeps κ 0 M (f true) (g true)]
    [hno : Eats κ m N (f false) (g false)] : Eats κ m N (keyword k >>= f) (keyword k >>= g) :=
  .of_test runs_keyword (fun _ _ => hyes) hno

instance [Absent κ k] : Keeps κ m N (keyword k) (keyword k) := by
  have : Keeps κ m N (keyword k >>= pure) (keyword k >>= pure) := inferInstance
  rwa [bind_pure] at this

end


section

variable {f g : Unit → Parser β} {k s : String} {ks : List String}

/-- A demand before the rest, as a choice. -/
theorem ensure_bind (b : Bool) (f : Unit → Parser β) :
    ensure b >>= f = if b = true then f () else misfit := by
  cases b <;> rfl

/-- A word that is demanded, as a choice. -/
theorem expectKeyword_bind (k : String) (f : Unit → Parser β) :
    expectKeyword k >>= f = keyword k >>= fun b => if b = true then f () else misfit := by
  simp only [expectKeyword, bind_assoc, ensure_bind]

instance (priority := 1200) [Absent κ k] [Among k askingWords]
    [∀ M : Fin N, Keeps κ κ.need M (f ()) (g ())] :
    Keeps κ m N (expectKeyword k >>= f) (expectKeyword k >>= g) := by
  rw [expectKeyword_bind, expectKeyword_bind]
  infer_instance

instance (priority := 1100) [Absent κ k] [∀ M : Fin N, Keeps κ 0 M (f ()) (g ())] :
    Keeps κ m N (expectKeyword k >>= f) (expectKeyword k >>= g) := by
  rw [expectKeyword_bind, expectKeyword_bind]
  infer_instance

instance {b : Bool} : Looks κ m N (ensure b) (ensure b) := by
  unfold ensure
  infer_instance

instance [Absent κ k] : Keeps κ m N (expectKeyword k) (expectKeyword k) := by
  unfold expectKeyword
  infer_instance

end

/-! ### One of several keywords -/

section

variable {f g : Option String → Parser β} {ks : List String}

instance (priority := 1200) [AllAbsent κ ks] [h : AllAmong ks askingWords]
    [hyes : ∀ k, ∀ M : Fin N, Keeps κ κ.need M (f (some k)) (g (some k))]
    [hno : Keeps κ m N (f none) (g none)] :
    Keeps κ m N (keywordOf? ks >>= f) (keywordOf? ks >>= g) :=
  .of_asking_test runs_keywordOf?
    (fun _ hl => Lexeme.asks_of_keyword (h.subset _ (List.contains_iff_mem.mp hl)))
    (fun l _ => hyes l.keyword) hno

instance (priority := 1100) [AllAbsent κ ks]
    [hyes : ∀ k, ∀ M : Fin N, Keeps κ 0 M (f (some k)) (g (some k))]
    [hno : Keeps κ m N (f none) (g none)] :
    Keeps κ m N (keywordOf? ks >>= f) (keywordOf? ks >>= g) :=
  .of_test runs_keywordOf? (fun l _ => hyes l.keyword) hno

instance (priority := 1200) [AllAbsent κ ks] [h : AllAmong ks askingWords]
    [hyes : ∀ k, ∀ M : Fin N, Keeps κ κ.need M (f (some k)) (g (some k))]
    [hno : Eats κ m N (f none) (g none)] :
    Eats κ m N (keywordOf? ks >>= f) (keywordOf? ks >>= g) :=
  .of_asking_test runs_keywordOf?
    (fun _ hl => Lexeme.asks_of_keyword (h.subset _ (List.contains_iff_mem.mp hl)))
    (fun l _ => hyes l.keyword) hno

instance (priority := 1100) [AllAbsent κ ks]
    [hyes : ∀ k, ∀ M : Fin N, Keeps κ 0 M (f (some k)) (g (some k))]
    [hno : Eats κ m N (f none) (g none)] :
    Eats κ m N (keywordOf? ks >>= f) (keywordOf? ks >>= g) :=
  .of_test runs_keywordOf? (fun l _ => hyes l.keyword) hno

/-! What is chosen by whether something was found. -/

section

variable {γ : Type} {a : γ} {p p' q q' : Parser α}

instance (priority := 1100) {d : Decidable ((some a).isSome = true)} [hp : Keeps κ m N p q] :
    Keeps κ m N (@ite _ ((some a).isSome = true) d p p') (@ite _ ((some a).isSome = true) d q q') := by
  rwa [if_pos Option.isSome_some, if_pos Option.isSome_some]

instance (priority := 1100) {d : Decidable ((none : Option γ).isSome = true)}
    [hp' : Keeps κ m N p' q'] :
    Keeps κ m N (@ite _ ((none : Option γ).isSome = true) d p p')
      (@ite _ ((none : Option γ).isSome = true) d q q') := by
  have hnone : ¬(none : Option γ).isSome = true := Bool.false_ne_true
  rwa [if_neg hnone, if_neg hnone]

instance (priority := 1100) {d : Decidable ((none : Option γ).isSome = true)}
    [hp' : Eats κ m N p' q'] :
    Eats κ m N (@ite _ ((none : Option γ).isSome = true) d p p')
      (@ite _ ((none : Option γ).isSome = true) d q q') := by
  have hnone : ¬(none : Option γ).isSome = true := Bool.false_ne_true
  rwa [if_neg hnone, if_neg hnone]

end

instance [AllAbsent κ ks] : Keeps κ m N (keywordOf? ks) (keywordOf? ks) := by
  have : Keeps κ m N (keywordOf? ks >>= pure) (keywordOf? ks >>= pure) := inferInstance
  rwa [bind_pure] at this

/-- One of several words that is demanded, as a choice. -/
theorem keywordOf_bind (ks : List String) (f : String → Parser β) :
    keywordOf ks >>= f = keywordOf? ks >>= fun o => match o with
      | some k => f k
      | none => misfit := by
  rw [keywordOf, bind_assoc]
  congr 1
  funext o
  cases o <;> rfl

instance {f g : String → Parser β} [AllAbsent κ ks]
    [∀ k, ∀ M : Fin N, Keeps κ 0 M (f k) (g k)] :
    Keeps κ m N (keywordOf ks >>= f) (keywordOf ks >>= g) := by
  rw [keywordOf_bind, keywordOf_bind]
  exact .of_test runs_keywordOf? (fun _ _ M => inferInstance) inferInstance

instance [AllAbsent κ ks] : Keeps κ m N (keywordOf ks) (keywordOf ks) := by
  have : Keeps κ m N (keywordOf ks >>= pure) (keywordOf ks >>= pure) := inferInstance
  rwa [bind_pure] at this

end

/-! ### Lexemes of any other kind -/

section

variable {take : Lexeme → Option α}

/-- Takes the next lexeme if there is something to take of it. -/
def take? (take : Lexeme → Option α) : Parser (Option α) := do
  match ← get with
  | l :: rest =>
    match take l with
    | some a =>
      set rest
      return some a
    | none => return none
  | [] => return none

/-- A lexeme that fits is taken. -/
theorem take?_of_some {env : Env} {l : Lexeme} {ls : List Lexeme} {a : α} (h : take l = some a) :
    take? take env (l :: ls) = .ok (some a, ls) := by
  rw [take?, bind_of_ok (a := l :: ls) (r := l :: ls) rfl]
  dsimp only
  rw [h]
  rfl

/-- A lexeme that does not fit is left. -/
theorem take?_of_none {env : Env} {l : Lexeme} {ls : List Lexeme} (h : take l = none) :
    take? take env (l :: ls) = .ok (none, l :: ls) := by
  rw [take?, bind_of_ok (a := l :: ls) (r := l :: ls) rfl]
  dsimp only
  rw [h]
  rfl

/-- A test that no lexeme of a tail passes takes from the inside or nothing. -/
theorem runs_take? (h : Inner κ fun l => (take l).isSome) :
    Runs κ m N (Tested κ (fun l => (take l).isSome) none take) (take? take) (take? take) := by
  refine runs_of_test h (fun env l ls hl => ?_) fun env ls hls => ?_
  · obtain ⟨a, ha⟩ := Option.isSome_iff_exists.mp hl
    rw [take?_of_some ha, ha]
  · cases ls with
    | nil => rfl
    | cons l ls => exact take?_of_none (by simpa using hls l rfl)

theorem keeps_take? (h : Inner κ fun l => (take l).isSome) :
    Keeps κ m N (take? take) (take? take) :=
  ⟨fun _ henv _ _ ht _ hi hm hN => (runs_take? h henv ht hi hm hN).mono fun _ hR => by
    cases hR with
    | no => exact le_rfl
    | yes _ _ _ hlt => exact hlt.le⟩

/-- Two parsers that go on from such a lexeme. -/
theorem Keeps.of_take? {f g : Option α → Parser β} (h : Inner κ fun l => (take l).isSome)
    (hsome : ∀ a, ∀ M : Fin N, Keeps κ 0 M (f (some a)) (g (some a)))
    (hnone : Keeps κ m N (f none) (g none)) : Keeps κ m N (take? take >>= f) (take? take >>= g) := by
  refine .of_test (runs_take? h) (fun l hl M => ?_) hnone
  obtain ⟨a, ha⟩ := Option.isSome_iff_exists.mp hl
  rw [ha]
  exact hsome a M

end

/-! ### Keywords in a row -/

/-- The last one of a list is among others. -/
class LastAmong (ks ts : List String) : Prop where
  mem : ∀ k, ks.getLast? = some k → k ∈ ts

instance {k : String} {ts : List String} [h : Among k ts] : LastAmong [k] ts :=
  ⟨fun _ hk => Option.some.inj hk ▸ h.mem⟩

instance {k k' : String} {ks ts : List String} [h : LastAmong (k' :: ks) ts] :
    LastAmong (k :: k' :: ks) ts :=
  ⟨fun _ hk => h.mem _ (by rwa [List.getLast?_cons_cons] at hk)⟩

section

variable {zs zs' is : List Lexeme} {k : String} {ks : List String}

/-- Keywords in a row are all found among the lexemes, or not at all. -/
theorem afterKeywords?_append (ht : Tails κ zs zs') (hks : ∀ k ∈ ks, Absent κ k)
    (hi : Fit κ.ended is) :
    (∃ js, Fit κ.ended js ∧ js.length ≤ is.length ∧
      (∀ k, ks.getLast? = some k → js.length < is.length ∧
        ∃ l, l.keyword = k ∧ l.token ≠ .symbol "(" ∧ Fit κ.ended (l :: js)) ∧
      afterKeywords? ks (is ++ zs) = some (js ++ zs) ∧
      afterKeywords? ks (is ++ zs') = some (js ++ zs')) ∨
    afterKeywords? ks (is ++ zs) = none ∧ afterKeywords? ks (is ++ zs') = none := by
  -- by induction on the words; where one is missing all of them are put back
  induction ks generalizing is with
  | nil => exact .inl ⟨is, hi, le_rfl, nofun, rfl, rfl⟩
  | cons k ks ih =>
    obtain ⟨hk, hks⟩ := List.forall_mem_cons.mp hks
    have hnone {ls} (h : ∀ l ∈ ls.head?, l.keyword ≠ k) : afterKeywords? (k :: ks) ls = none := by
      cases ls with
      | nil => rfl
      | cons l ls => simp [afterKeywords?, h l rfl]
    cases hi with
    | nil =>
      exact .inr ⟨hnone fun l hl => ht.keyword_ne (.inl hl) hk,
        hnone fun l hl => ht.keyword_ne (.inr hl) hk⟩
    | @parens _ a _ _ _ _ _ =>
      have hhead {ls} : ∀ l ∈ (opening a :: ls).head?, l.keyword ≠ k := by
        rintro l hl rfl
        cases hl
        exact hk.ne_empty rfl
      exact .inr ⟨hnone hhead, hnone hhead⟩
    | @cons _ l ls hplain hleads h =>
      by_cases hl : l.keyword = k
      · have hstep (zs) : afterKeywords? (k :: ks) (l :: ls ++ zs) = afterKeywords? ks (ls ++ zs) := by
          simp [afterKeywords?, hl]
        rw [hstep, hstep]
        -- the last word is the one that was read last
        rcases ih hks h with ⟨js, hjs, hle, hlast, heq, heq'⟩ | hnone
        · refine .inl ⟨js, hjs, hle.trans (Nat.le_succ _), fun k' hk' => ?_, heq, heq'⟩
          refine ⟨Nat.lt_succ_of_le hle, ?_⟩
          cases ks with
          | nil =>
            obtain rfl : ls = js := List.append_cancel_right (Option.some.inj heq)
            cases hk'
            exact ⟨l, hl, hplain.not_opening, .cons hplain hleads h⟩
          | cons => exact (hlast k' (by rwa [List.getLast?_cons_cons] at hk')).2
        · exact .inr hnone
      · have hhead {zs} : ∀ m ∈ (l :: ls ++ zs).head?, m.keyword ≠ k := by
          intro m hm
          obtain rfl : l = m := Option.some.inj hm
          exact hl
        exact .inr ⟨hnone hhead, hnone hhead⟩

/-- Several words in a row are taken together or not at all. -/
theorem keywords_eq (env : Env) (ls : List Lexeme) :
    keywords ks env ls = match afterKeywords? ks ls with
      | some rest => .ok (true, rest)
      | none => .ok (false, ls) := by
  show (match afterKeywords? ks ls with
    | some rest => _
    | none => _ : Parser Bool) env ls = _
  cases afterKeywords? ks ls <;> rfl

/-- Words in a row of which no tail holds one are found inside or nowhere. The last of them is the
    one that was read last. -/
theorem runs_keywords [hks : AllAbsent κ (k :: ks)] :
    Runs κ m N (Tested κ (fun l => (k :: ks).getLast? == some l.keyword) false fun _ => true)
      (keywords (k :: ks)) (keywords (k :: ks)) := by
  intro env henv zs zs' ht is hi _ _
  rw [keywords_eq, keywords_eq]
  rcases afterKeywords?_append ht hks.absent hi with ⟨js, hjs, -, hlast, heq, heq'⟩ | ⟨heq, heq'⟩
  · obtain ⟨hlt, l, hl, hopen, hfit⟩ := hlast _ (List.getLast?_eq_some_getLast (List.cons_ne_nil k ks))
    rw [heq, heq']
    refine .ok hjs (.yes (l := l) ?_ hopen hfit hlt)
    rw [List.getLast?_eq_some_getLast (List.cons_ne_nil k ks), hl]
    exact beq_self_eq_true _
  · rw [heq, heq']
    exact .ok hi .no

variable {f g : Bool → Parser β}

instance (priority := 1200) [AllAbsent κ (k :: ks)] [h : LastAmong (k :: ks) askingWords]
    [hyes : ∀ M : Fin N, Keeps κ κ.need M (f true) (g true)] [hno : Keeps κ m N (f false) (g false)] :
    Keeps κ m N (keywords (k :: ks) >>= f) (keywords (k :: ks) >>= g) :=
  .of_asking_test runs_keywords (fun _ hl => Lexeme.asks_of_keyword (h.mem _ (eq_of_beq hl)))
    (fun _ _ => hyes) hno

instance (priority := 1100) [AllAbsent κ (k :: ks)]
    [hyes : ∀ M : Fin N, Keeps κ 0 M (f true) (g true)] [hno : Keeps κ m N (f false) (g false)] :
    Keeps κ m N (keywords (k :: ks) >>= f) (keywords (k :: ks) >>= g) :=
  .of_test runs_keywords (fun _ _ => hyes) hno

instance (priority := 1200) [AllAbsent κ (k :: ks)] [h : LastAmong (k :: ks) askingWords]
    [hyes : ∀ M : Fin N, Keeps κ κ.need M (f true) (g true)] [hno : Eats κ m N (f false) (g false)] :
    Eats κ m N (keywords (k :: ks) >>= f) (keywords (k :: ks) >>= g) :=
  .of_asking_test runs_keywords (fun _ hl => Lexeme.asks_of_keyword (h.mem _ (eq_of_beq hl)))
    (fun _ _ => hyes) hno

instance (priority := 1100) [AllAbsent κ (k :: ks)]
    [hyes : ∀ M : Fin N, Keeps κ 0 M (f true) (g true)] [hno : Eats κ m N (f false) (g false)] :
    Eats κ m N (keywords (k :: ks) >>= f) (keywords (k :: ks) >>= g) :=
  .of_test runs_keywords (fun _ _ => hyes) hno

instance [AllAbsent κ (k :: ks)] : Keeps κ m N (keywords (k :: ks)) (keywords (k :: ks)) := by
  have : Keeps κ m N (keywords (k :: ks) >>= pure) (keywords (k :: ks) >>= pure) := inferInstance
  rwa [bind_pure] at this

/-- Words in a row that are demanded, as a choice. -/
theorem expectKeywords_bind (ks : List String) (f : Unit → Parser β) :
    expectKeywords ks >>= f = keywords ks >>= fun b => if b = true then f () else misfit := by
  simp only [expectKeywords, bind_assoc, ensure_bind]

variable {f g : Unit → Parser β}

instance (priority := 1200) [AllAbsent κ (k :: ks)] [LastAmong (k :: ks) askingWords]
    [∀ M : Fin N, Keeps κ κ.need M (f ()) (g ())] :
    Keeps κ m N (expectKeywords (k :: ks) >>= f) (expectKeywords (k :: ks) >>= g) := by
  rw [expectKeywords_bind, expectKeywords_bind]
  infer_instance

instance (priority := 1100) [AllAbsent κ (k :: ks)] [∀ M : Fin N, Keeps κ 0 M (f ()) (g ())] :
    Keeps κ m N (expectKeywords (k :: ks) >>= f) (expectKeywords (k :: ks) >>= g) := by
  rw [expectKeywords_bind, expectKeywords_bind]
  infer_instance

instance [AllAbsent κ (k :: ks)] :
    Keeps κ m N (expectKeywords (k :: ks)) (expectKeywords (k :: ks)) := by
  unfold expectKeywords
  infer_instance

end

/-! ### Symbols -/

section

variable {s : String}

section

variable {f g : Bool → Parser β}

instance (priority := 1200) [Differ s "("] [Differ s ")"] [h : AsksSymbol s]
    [hyes : ∀ M : Fin N, Keeps κ κ.need M (f true) (g true)] [hno : Keeps κ m N (f false) (g false)] :
    Keeps κ m N (symbol s >>= f) (symbol s >>= g) :=
  .of_asking_test runs_symbol (fun _ hl => h.asks (eq_of_beq hl)) (fun _ _ => hyes) hno

instance (priority := 1100) [Differ s "("] [Differ s ")"]
    [hyes : ∀ M : Fin N, Keeps κ 0 M (f true) (g true)] [hno : Keeps κ m N (f false) (g false)] :
    Keeps κ m N (symbol s >>= f) (symbol s >>= g) :=
  .of_test runs_symbol (fun _ _ => hyes) hno

instance [Differ s "("] [Differ s ")"] : Keeps κ m N (symbol s) (symbol s) := by
  have : Keeps κ m N (symbol s >>= pure) (symbol s >>= pure) := inferInstance
  rwa [bind_pure] at this

end

/-- A symbol that is demanded, as a choice. -/
theorem expectSymbol_bind (s : String) (f : Unit → Parser β) :
    expectSymbol s >>= f = symbol s >>= fun b => if b = true then f () else misfit := by
  simp only [expectSymbol, bind_assoc, ensure_bind]

variable {f g : Unit → Parser β}

instance (priority := 1200) [Differ s "("] [Differ s ")"] [AsksSymbol s]
    [∀ M : Fin N, Keeps κ κ.need M (f ()) (g ())] :
    Keeps κ m N (expectSymbol s >>= f) (expectSymbol s >>= g) := by
  rw [expectSymbol_bind, expectSymbol_bind]
  infer_instance

instance (priority := 1100) [Differ s "("] [Differ s ")"]
    [∀ M : Fin N, Keeps κ 0 M (f ()) (g ())] :
    Keeps κ m N (expectSymbol s >>= f) (expectSymbol s >>= g) := by
  rw [expectSymbol_bind, expectSymbol_bind]
  infer_instance

instance [Differ s "("] [Differ s ")"] : Keeps κ m N (expectSymbol s) (expectSymbol s) := by
  unfold expectSymbol
  infer_instance

end

/-! ### Parentheses -/

section

variable {f g : Bool → Parser β}

/-- Behind an opening parenthesis a parser goes on inside. -/
instance (priority := 1100) [hyes : ∀ M : Fin N, Leaves κ M (f true) (g true)]
    [hno : Keeps κ m N (f false) (g false)] : Keeps κ m N (symbol "(" >>= f) (symbol "(" >>= g) := by
  refine ⟨fun env henv zs zs' ht is hi hm hN => ?_⟩
  show Agree κ zs zs' _ (symbol "(" env _ >>= _) (symbol "(" env _ >>= _)
  rcases hi.parens_or_head ht with ⟨a, b, js, ls, hjs, h, rfl⟩ | ⟨h, h'⟩
  · -- behind the parenthesis the closing one is inside
    have hstep (zs) : symbol "(" env (opening a :: (js ++ closing b :: ls) ++ zs)
        = .ok (true, js ++ closing b :: (ls ++ zs)) := by
      rw [List.cons_append, List.append_assoc, List.cons_append]
      rfl
    have hlen : js.length + 1 + ls.length < N := by
      simp only [List.length_cons, List.length_append] at hN
      omega
    rw [hstep, hstep]
    refine ((hyes ⟨_, hlen⟩).runs henv ht hjs h b le_rfl).mono fun _ hle => hle.trans ?_
    simp only [List.length_cons, List.length_append]
    omega
  · -- without the parenthesis the other branch reads the same in both texts
    rw [symbol_of_head h, symbol_of_head h']
    exact hno.runs henv ht hi hm hN

/-- At the closing parenthesis a parser goes on behind it. -/
instance (priority := 1100) [hyes : ∀ M : Fin N, Keeps κ 0 M (f true) (g true)]
    [hno : Leaves κ N (f false) (g false)] : Leaves κ N (symbol ")" >>= f) (symbol ")" >>= g) := by
  refine ⟨fun env henv zs zs' ht js is hjs his b hN => ?_⟩
  show Agree κ zs zs' _ (symbol ")" env _ >>= _) (symbol ")" env _ >>= _)
  -- with something before it the closing parenthesis is not reached yet
  have hskip (h : ∀ l ∈ js.head?, l.token ≠ .symbol ")") (hjs' : js ≠ []) :
      Agree κ zs zs' (fun _ ks => ks.length ≤ is.length)
        (symbol ")" env (js ++ closing b :: (is ++ zs)) >>= fun r => f r.1 env r.2)
        (symbol ")" env (js ++ closing b :: (is ++ zs')) >>= fun r => g r.1 env r.2) := by
    have hhead (ms) : ∀ l ∈ (js ++ ms).head?, l.token ≠ .symbol ")" := by
      rwa [List.head?_append_of_ne_nil _ hjs']
    rw [symbol_of_head (hhead _), symbol_of_head (hhead _)]
    exact hno.runs henv ht hjs his b hN
  cases hjs with
  -- the closing parenthesis itself: what is behind it is shorter
  | nil =>
    have hlen : is.length < N := by
      rw [List.length_nil] at hN
      omega
    exact (hyes ⟨_, hlen⟩).runs henv ht his (Nat.zero_le _) le_rfl
  | @cons _ l ls hplain =>
    refine hskip (fun m hm => ?_) (List.cons_ne_nil _ _)
    obtain rfl : l = m := Option.some.inj hm
    exact hplain.not_closing
  | @parens _ a =>
    refine hskip (fun m hm => ?_) (List.cons_ne_nil _ _)
    obtain rfl : opening a = m := Option.some.inj hm
    simp

variable {f g : Unit → Parser β}

instance (priority := 1100) [∀ M : Fin N, Leaves κ M (f ()) (g ())] :
    Keeps κ m N (expectSymbol "(" >>= f) (expectSymbol "(" >>= g) := by
  rw [expectSymbol_bind, expectSymbol_bind]
  infer_instance

instance (priority := 1100) [∀ M : Fin N, Keeps κ 0 M (f ()) (g ())] :
    Leaves κ N (expectSymbol ")" >>= f) (expectSymbol ")" >>= g) := by
  rw [expectSymbol_bind, expectSymbol_bind]
  infer_instance

instance : Leaves κ N (expectSymbol ")") (expectSymbol ")") := by
  have : Leaves κ N (expectSymbol ")" >>= pure) (expectSymbol ")" >>= pure) := inferInstance
  rwa [bind_pure] at this

instance {p q : Parser α} [∀ M : Fin N, Keeps .inside 0 M p q] :
    Keeps κ m N (parenthesized p) (parenthesized q) := by
  unfold parenthesized
  infer_instance

end

end QueryGate.Sql.Parser
