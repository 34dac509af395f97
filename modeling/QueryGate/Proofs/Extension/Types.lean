import QueryGate.Proofs.Extension.Control

namespace QueryGate.Sql.Parser

/-!
# Data types keep to their text
-/

set_option synthInstance.maxSize 100000

variable {κ : Tail} {m N : Nat}

instance : Keeps κ 0 N uint uint :=
  Eats.keeps <| .of_nextToken_quiet rfl rfl rfl rfl rfl rfl fun t _ => by
    cases t <;> dsimp only <;> infer_instance

instance : Keeps κ 0 N quotedValue quotedValue :=
  Eats.keeps <| .of_nextToken_quiet rfl rfl rfl rfl rfl rfl fun t _ => by
    split <;> infer_instance

instance : Keeps κ 0 N optionalPrecision optionalPrecision := by
  unfold optionalPrecision
  infer_instance

instance : Keeps κ 0 N optionalScale optionalScale := by
  unfold optionalScale
  dsimp only
  infer_instance

instance : Keeps κ 0 N optionalLength optionalLength := by
  unfold optionalLength
  dsimp only
  infer_instance

instance : Keeps κ 0 N optionalZone optionalZone := by
  unfold optionalZone
  infer_instance

instance : Keeps κ 0 N optionalIntervalFields optionalIntervalFields := by
  unfold optionalIntervalFields
  refine .of_test runs_keywordOf? (fun l _ M => ?_) inferInstance
  split <;> infer_instance

instance : Keeps κ 0 N enumMember enumMember := by
  unfold enumMember
  infer_instance

instance : Keeps κ 0 N characterType characterType := by
  unfold characterType
  infer_instance

instance [κ.Exact] (n n' : Above N) : Keeps κ 0 N (arrayBrackets n) (arrayBrackets n') :=
  Keeps.loop (fun n n' M _ => by
    unfold arrayBrackets
    infer_instance) n n'

/-- The arguments of a type end at their closing parenthesis, since an opening one does not fit. -/
instance (n n' : Above N) : Leaves κ N (modifiers n) (modifiers n') := by
  -- one round looks at one token
  have hnext (n : Nat) (env : Env) (l : Lexeme) (ls : List Lexeme) :
      modifiers (n + 1) env (l :: ls) = (match some l.token with
        | some (.symbol ")") => pure ()
        | some (.symbol ",") => modifiers n
        | some (.word _ _) => modifiers n
        | some (.number _ _) => modifiers n
        | some (.literal .single _) => modifiers n
        | _ => misfit : Parser Unit) env ls := rfl
  -- by induction on what is inside: the closing parenthesis is reached with any fuel that suffices
  have hall {env : Env} {zs zs' js is : List Lexeme} (hjs : Fit false js) (his : Fit κ.ended is)
      (b : Bool) (n n' : Nat) (hn : js.length < n) (hn' : js.length < n') :
      Agree κ zs zs' (fun _ ks => ks.length ≤ is.length)
        (modifiers n env (js ++ closing b :: (is ++ zs)))
        (modifiers n' env (js ++ closing b :: (is ++ zs'))) := by
    induction js generalizing n n' with
    | nil =>
      obtain ⟨n, rfl⟩ := Nat.exists_eq_add_one_of_ne_zero (Nat.ne_zero_of_lt hn)
      obtain ⟨n', rfl⟩ := Nat.exists_eq_add_one_of_ne_zero (Nat.ne_zero_of_lt hn')
      exact .ok his le_rfl
    | cons l ls ih =>
      obtain ⟨n, rfl⟩ := Nat.exists_eq_add_one_of_ne_zero (Nat.ne_zero_of_lt hn)
      obtain ⟨n', rfl⟩ := Nat.exists_eq_add_one_of_ne_zero (Nat.ne_zero_of_lt hn')
      rw [List.cons_append, List.cons_append, hnext, hnext]
      -- a parenthesis inside is refused
      by_cases hopen : l.token = .symbol "("
      · rw [hopen]
        exact .error _
      · obtain ⟨hplain, -, hls⟩ := hjs.of_cons hopen
        have hrest := ih hls n n' (Nat.lt_of_succ_lt_succ hn) (Nat.lt_of_succ_lt_succ hn')
        generalize ho : some l.token = o
        split
        · exact absurd (Option.some.inj ho) hplain.not_closing
        all_goals first
          | exact hrest
          | exact .error _
  refine ⟨fun env henv zs zs' ht js is hjs his b hN => ?_⟩
  have hn := n.property
  have hn' := n'.property
  exact hall hjs his b n n' (by omega) (by omega)

section

variable {element element' : Parser TypeKind}

/-- Behind `SETOF` stands a type; behind any other word of a type there may be nothing. -/
theorem keeps_typeBehind [κ.Exact] [Base κ κ.need N element element'] {k : String}
    (hk : k = "SETOF" → m = κ.need) :
    Keeps κ m N (typeBehind element k) (typeBehind element' k) := by
  have hzero {p q : Parser TypeKind} (h : Keeps κ 0 N p q) : Keeps κ m N p q :=
    h.mono (Nat.zero_le _) le_rfl
  unfold typeBehind
  refine .of_look inferInstance fun d => ?_
  dsimp only
  -- the families of types in the order of the tests; a set needs its element, the others nothing
  split
  · infer_instance
  split
  · exact hzero inferInstance
  split
  · exact hzero inferInstance
  split
  · exact hzero inferInstance
  split
  all_goals first
    | exact hzero inferInstance
    | (rw [hk rfl]
       infer_instance)

end

/-! ### What stands behind a type -/

/-- A parser that comes to no type which a value has to follow. -/
class Whole (p : Parser TypeKind) : Prop where
  ne : ∀ {env ls kind rest}, p env ls = .ok (kind, rest) → ¬(kind = .interval ∨ kind = .binary)

section

variable {α : Type}

instance : Whole (pure .builtin) where
  ne h := by
    cases h
    decide

instance : Whole (pure .custom) where
  ne h := by
    cases h
    decide

instance : Whole misfit := ⟨nofun⟩

instance {p : Parser α} {f : α → Parser TypeKind} [hf : ∀ a, Whole (f a)] : Whole (p >>= f) where
  ne h := by
    obtain ⟨a, ms, -, ha⟩ := of_bind_ok h
    exact (hf a).ne ha

instance {c : Prop} [Decidable c] {p q : Parser TypeKind} [hp : Whole p] [hq : Whole q] :
    Whole (if c then p else q) := by
  split
  · exact hp
  · exact hq

instance : Whole namedType := by
  unfold namedType
  dsimp only
  infer_instance

end

/-- Only three words start a type that a value follows. -/
theorem whole_typeBehind {element : Parser TypeKind} {k : String} (hinterval : k ≠ "INTERVAL")
    (hbinary : k ≠ "BINARY") (hsetof : k ≠ "SETOF") : Whole (typeBehind element k) := by
  have hbind (f : Dialect → Parser TypeKind) (h : ∀ d, Whole (f d)) : Whole (dialect >>= f) :=
    inferInstance
  unfold typeBehind
  refine hbind _ fun d => ?_
  dsimp only
  split
  · infer_instance
  split
  · infer_instance
  split
  · infer_instance
  split
  · infer_instance
  split
  -- the three words that are excluded are the ones whose type may go on
  all_goals first
    | infer_instance
    | exact absurd rfl hinterval
    | exact absurd rfl hbinary
    | exact absurd rfl hsetof

/-- Behind a type fewer lexemes are left, and one at least where a value has to follow. -/
def BehindType (κ : Tail) (is : List Lexeme) (kind : TypeKind) (js : List Lexeme) : Prop :=
  js.length < is.length ∧ (kind = .interval ∨ kind = .binary → κ.need ≤ js.length)


section

variable {element element' : Parser TypeKind} {env : Env}

/-- Words of a type that stand behind a literal's type take nothing from the literal. -/
theorem typeBehind_literal {k : String} (hk : k = "INTERVAL" ∨ k = "BINARY") {l : Lexeme}
    {ls : List Lexeme} (hl : k = "INTERVAL" → l.isLiteral = true)
    (hl' : k = "BINARY" → l.token ≠ .symbol "(") {kind : TypeKind} {rest : List Lexeme}
    (h : typeBehind element k env (l :: ls) = .ok (kind, rest)) : rest = l :: ls := by
  -- without a parenthesis there is no precision
  have hprecision (hopen : l.token ≠ .symbol "(") :
      optionalPrecision env (l :: ls) = .ok ((), l :: ls) := by
    have hsymbol : symbol "(" env (l :: ls) = .ok (false, l :: ls) :=
      symbol_of_head fun m hm => by
        cases hm
        exact hopen
    rw [optionalPrecision, bind_of_ok hsymbol]
    rfl
  rcases hk with rfl | rfl
  · obtain ⟨hword, hshape⟩ := Bool.and_eq_true_iff.mp (hl rfl)
    -- a literal is no parenthesis
    have hopen : l.token ≠ .symbol "(" := by
      intro heq
      rw [heq] at hshape
      cases hshape
    -- its word names no field of an interval
    have hfields : optionalIntervalFields env (l :: ls) = .ok ((), l :: ls) := by
      rw [optionalIntervalFields, bind_of_ok (keywordOf?_of_head fun m hm => ?_)]
      · rfl
      · cases hm
        simp [eq_of_beq hword]
    have hread : typeBehind element "INTERVAL" env (l :: ls)
        = (if env.dialect = .postgresql then
            optionalIntervalFields >>= fun _ => optionalPrecision >>= fun _ => pure .interval
          else pure .interval : Parser TypeKind) env (l :: ls) := rfl
    rw [hread] at h
    split at h
    · rw [bind_of_ok hfields, bind_of_ok (hprecision hopen)] at h
      cases h
      rfl
    · cases h
      rfl
  · have hread : typeBehind element "BINARY" env (l :: ls)
        = (optionalPrecision >>= fun _ => pure .binary : Parser TypeKind) env (l :: ls) := rfl
    rw [hread, bind_of_ok (hprecision (hl' rfl))] at h
    cases h
    rfl

/-- A keyword of a type: what is left behind it leaves a value its place. -/
theorem agree_typeBehind [hκ : κ.Exact] (henv : env.Steady) {zs zs' : List Lexeme}
    (ht : Tails κ zs zs') {l : Lexeme} {ls : List Lexeme} (hopen : l.token ≠ .symbol "(")
    (hfit : Fit κ.ended (l :: ls))
    (h : Runs κ κ.need ls.length (BehindType κ) element element') :
    Agree κ zs zs' (BehindType κ (l :: ls)) (typeBehind element l.keyword env (ls ++ zs))
      (typeBehind element' l.keyword env (ls ++ zs')) := by
  obtain ⟨-, hleads, hls⟩ := hfit.of_cons hopen
  have : Base κ κ.need ls.length element element' :=
    ⟨⟨fun _ henv _ _ ht _ hi hm hN => (h henv ht hi hm hN).mono fun _ h => h.1.le⟩⟩
  have hasks {k : String} (hk : k ∈ askingWords) (hl : l.keyword = k) : κ.need ≤ ls.length :=
    Tested.need_le hopen hfit (Lexeme.asks_of_keyword (hl ▸ hk))
  by_cases hsetof : l.keyword = "SETOF"
  · rw [hsetof]
    exact (h henv ht hls (hasks (by decide) hsetof) le_rfl).mono fun _ hR =>
      ⟨hR.1.trans (Nat.lt_succ_self _), hR.2⟩
  have hkeeps : Keeps κ 0 ls.length (typeBehind element l.keyword) (typeBehind element' l.keyword) :=
    keeps_typeBehind fun h => absurd h hsetof
  refine (hkeeps.runs henv ht hls (Nat.zero_le _) le_rfl).refine fun {kind js} hread hjs => ?_
  refine ⟨Nat.lt_succ_of_le hjs, fun hkind => ?_⟩
  by_cases hk : l.keyword = "INTERVAL" ∨ l.keyword = "BINARY"
  · have hneed : κ.need ≤ ls.length := hk.elim (hasks (by decide)) (hasks (by decide))
    cases hended : κ.ended with
    | false =>
      have hzero : κ.need = 0 := by
        cases κ <;> first | rfl | cases hended
      rw [hzero]
      exact Nat.zero_le _
    | true =>
      -- what stands behind such a word is left in place
      cases ls with
      | nil =>
        rw [Nat.le_zero.mp hneed]
        exact Nat.zero_le _
      | cons m ms =>
        have hlead := hleads hended
        have hrest : js ++ zs = (m :: ms) ++ zs :=
          typeBehind_literal hk (fun hl => hlead.interval hl m rfl)
            (fun hl => hlead.binary hl m rfl) hread
        rw [List.append_cancel_right hrest]
        exact hneed
  · obtain ⟨hinterval, hbinary⟩ := not_or.mp hk
    exact absurd hkind ((whole_typeBehind hinterval hbinary hsetof).ne hread)


/-- A type up to its brackets takes a lexeme. -/
theorem runs_bareType [hκ : κ.Exact]
    (h : ∀ M : Fin N, Runs κ κ.need M (BehindType κ) element element') :
    Runs κ κ.need N (BehindType κ) (bareType element) (bareType element') := by
  intro env henv zs zs' ht is hi hm hN
  cases hi with
  | nil =>
    cases ht with
    | inside => exact .error _
    | closed => exact .error _
    | limited => cases hm
    | lenient => exact absurd rfl hκ.ne
  | parens => exact .error _
  | @cons _ l ls hplain hleads hls =>
    have hopen := hplain.not_opening
    have hfit : Fit κ.ended (l :: ls) := .cons hplain hleads hls
    have hlen : ls.length < N := hN
    obtain ⟨t, k, a⟩ := l
    cases t with
    | word text quote =>
      have hstep (e : Parser TypeKind) (zs : List Lexeme) :
          bareType e env (⟨.word text quote, k, a⟩ :: zs)
            = if isTypeWord env.dialect k then
                if k == "TSVECTOR" || k == "TSQUERY" then .ok (.builtin, zs)
                else typeBehind e k env zs
              else (keywords ["ANY", "TYPE"] >>= fun b =>
                if b then pure .builtin else namedType : Parser TypeKind) env
                  (⟨.word text quote, k, a⟩ :: zs) := by
        show (if isTypeWord env.dialect k then _ else _ : Parser TypeKind) env _ = _
        split
        · show (if (k == "TSVECTOR" || k == "TSQUERY") = true then _ else _ : Parser TypeKind) env zs = _
          split <;> rfl
        · rfl
      rw [List.cons_append, List.cons_append, hstep, hstep]
      split
      · split
        · exact .ok hls ⟨Nat.lt_succ_self _, fun hkind => absurd hkind (by decide)⟩
        · exact agree_typeBehind henv ht hopen hfit (h ⟨_, hlen⟩)
      · -- any other word starts a name
        have hnamed : Eats κ κ.need N namedType namedType := by
          unfold namedType
          dsimp only
          infer_instance
        let rest : Parser TypeKind :=
          keywords ["ANY", "TYPE"] >>= fun b => if b then pure .builtin else namedType
        have heats : Eats κ κ.need N rest rest :=
          inferInstanceAs (Eats κ κ.need N (keywords ["ANY", "TYPE"] >>= _) (keywords _ >>= _))
        have hwhole : Whole rest := inferInstanceAs (Whole (keywords ["ANY", "TYPE"] >>= _))
        exact (heats.runs henv ht hfit hm hN).refine fun hread hlt =>
          ⟨hlt, fun hkind => absurd hkind (hwhole.ne hread)⟩
    | _ => exact .error _

end

/-- The brackets of an array type. -/
def behindBare (kind : TypeKind) : Parser TypeKind := do
  if ← both (isDialect .postgresql) (atSymbol "[") then
    withFuel arrayBrackets
    return .builtin
  else return kind

/-- A type takes a lexeme, and leaves a value its place. -/
theorem runs_dataTypeWithin [κ.Exact] (n n' : Above N) :
    Runs κ κ.need N (BehindType κ) (dataTypeWithin n) (dataTypeWithin n') := by
  refine .loop (fun n n' M _ _ ih => ?_) n n'
  intro env henv zs zs' ht is hi hm hN
  refine (runs_bareType ih henv ht hi hm hN).bind fun {kind js} hj hR => ?_
  have hkeeps : Keeps κ 0 js.length (behindBare kind) (behindBare kind) := by
    unfold behindBare
    infer_instance
  refine (hkeeps.runs henv ht hj (Nat.zero_le _) le_rfl).refine fun {kind' ks} hread hle => ?_
  refine ⟨hle.trans_lt hR.1, fun hkind => ?_⟩
  -- behind a bare type stand array brackets or nothing
  rw [behindBare, bind_of_ok (both_isDialect_atSymbol _ _)] at hread
  split at hread
  · obtain ⟨-, ms, -, hread⟩ := of_bind_ok hread
    cases hread
    -- an array is none of the types that may go on
    exact absurd hkind (by decide)
  · obtain ⟨rfl, hks⟩ := Prod.mk.inj (Except.ok.inj hread)
    rw [← List.append_cancel_right hks]
    exact hR.2 hkind

/-- A data type ends before either tail. -/
theorem runs_dataType [κ.Exact] : Runs κ κ.need N (BehindType κ) dataType dataType :=
  .withFuel fun _ n n' => runs_dataTypeWithin n n'

instance [κ.Exact] : Eats κ κ.need N dataType dataType :=
  ⟨fun _ henv _ _ ht _ hi hm hN => (runs_dataType henv ht hi hm hN).mono fun _ h => h.1⟩

instance [κ.Exact] : Keeps κ κ.need N dataType dataType := Eats.keeps inferInstance

end QueryGate.Sql.Parser
