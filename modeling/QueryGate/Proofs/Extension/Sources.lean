import QueryGate.Proofs.Extension.Terms

namespace QueryGate.Sql.Parser

/-!
# Sources keep to their text

The items of a `FROM` clause, where nothing stands behind a text in the end or its failures are not
compared.  What is tried first and given up is compared all the same.
-/

set_option synthInstance.maxSize 100000

variable {α β : Type} {κ : Tail} {m N : Nat}

/-! ### Aliases and pivots -/

instance : Keeps κ κ.need N exprReads exprReads := by
  unfold exprReads
  infer_instance

instance : Keeps .inside 0 N aliasColumn aliasColumn := by
  unfold aliasColumn
  infer_instance

instance : Keeps κ 0 N optionalColumns optionalColumns := by
  unfold optionalColumns
  infer_instance

instance {d : Dialect} : Reserves κ (reservedForTable d) := ⟨fun _ => by cases d <;> decide⟩

instance : Keeps κ 0 N tableAlias tableAlias := by
  unfold tableAlias
  infer_instance

instance : Keeps .inside 0 N namedValue namedValue := by
  unfold namedValue
  dsimp only
  infer_instance

instance [κ.Exact] : Base κ κ.need N operand operand := ⟨inferInstance⟩

instance : Keeps .inside 0 N pivotAggregate pivotAggregate := by
  unfold pivotAggregate
  refine Keeps.mono (Eats.keeps (.of_nextToken rfl rfl rfl rfl rfl fun t M => ?_)) le_rfl le_rfl
  split <;> infer_instance

instance : Keeps .inside 0 N pivotColumns pivotColumns := by
  unfold pivotColumns
  infer_instance

instance : Keeps κ 0 N pivotClause pivotClause := by
  unfold pivotClause
  dsimp only
  infer_instance

instance : Keeps κ 0 N unpivotClause unpivotClause := by
  unfold unpivotClause
  dsimp only
  infer_instance

instance (n n' : Above N) : Keeps κ 0 N (pivots n) (pivots n') :=
  Keeps.loop (fun n n' M _ => by
    unfold pivots
    dsimp only
    infer_instance) n n'

/-! ### Rows from a document -/

instance (n n' : Above N) : Keeps .inside 0 N (jsonFallbacks n) (jsonFallbacks n') :=
  Keeps.loop (fun n n' M _ => by
    unfold jsonFallbacks
    dsimp only
    infer_instance) n n'

instance (n n' : Above N) : Keeps .inside 0 N (jsonColumn n) (jsonColumn n') :=
  Keeps.loop (fun n n' M _ => by
    unfold jsonColumn
    infer_instance) n n'

instance : Leaves κ N jsonTable jsonTable := by
  unfold jsonTable
  infer_instance

instance (n n' : Above N) : Keeps .inside 0 N (xmlOptions n) (xmlOptions n') :=
  Keeps.loop (fun n n' M _ => by
    unfold xmlOptions
    infer_instance) n n'

instance : Keeps .inside 0 N xmlColumn xmlColumn := by
  unfold xmlColumn
  infer_instance

instance : Keeps .inside 0 N xmlDocument xmlDocument := by
  unfold xmlDocument
  dsimp only
  infer_instance

instance : Leaves κ N xmlTable xmlTable := by
  unfold xmlTable
  dsimp only
  infer_instance

/-! ### Tables -/

instance : Leaves κ N tableArguments tableArguments := by
  unfold tableArguments
  infer_instance

instance : Keeps κ 0 N indexHint indexHint := by
  unfold indexHint
  dsimp only
  infer_instance

instance (n n' : Above N) : Keeps κ 0 N (indexHints n) (indexHints n') :=
  Keeps.loop (fun n n' M _ => by
    unfold indexHints
    infer_instance) n n'

instance : Keeps κ 0 N numberLiteral numberLiteral := by
  unfold numberLiteral
  refine Eats.keeps (.of_nextToken_quiet rfl rfl rfl rfl rfl rfl fun t M => ?_)
  split <;> infer_instance

/-- Hints behind their word; without a parenthesis the lexemes are those before it. -/
def hintsBehind (start : List Lexeme) : Parser (List Read) := do
  if ← symbol "(" then
    let qs ← commaLists exprQueries
    expectSymbol ")"
    return asReads qs
  else
    set start
    return []

theorem tableHints_eq {env : Env} {ls : List Lexeme} :
    tableHints env ls
      = (keyword "WITH" >>= fun b => if b then hintsBehind ls else pure [] : Parser _) env ls := rfl

instance : Keeps κ 0 N tableHints tableHints := by
  refine ⟨fun env henv zs zs' ht is hi hm hN => ?_⟩
  rw [tableHints_eq, tableHints_eq]
  refine (runs_keyword henv ht hi hm hN).bind fun {b js} hj hR => ?_
  cases hR with
  | no => exact .ok hi le_rfl
  | yes hl hopen hfit hlt =>
    show Agree κ zs zs' _ (hintsBehind (is ++ zs) env (js ++ zs)) (hintsBehind (is ++ zs') env _)
    -- hints stand in parentheses; without them `WITH` is put back
    rcases hj.parens_or_head ht with ⟨a, b, ks, ls, hks, hls, rfl⟩ | ⟨hhead, hhead'⟩
    · have hleaves : Leaves κ (ks.length + 1 + ls.length)
          (commaLists exprQueries >>= fun qs => expectSymbol ")" >>= fun _ => pure (asReads qs))
          (commaLists exprQueries >>= fun qs => expectSymbol ")" >>= fun _ => pure (asReads qs)) :=
        inferInstance
      -- the closing parenthesis is inside, so the hints are read alike
      have hlist (zs : List Lexeme) : opening a :: (ks ++ closing b :: ls) ++ zs
          = opening a :: (ks ++ closing b :: (ls ++ zs)) := by simp
      have hstep (start zs : List Lexeme) : hintsBehind start env (opening a :: zs)
          = (commaLists exprQueries >>= fun qs => expectSymbol ")" >>= fun _ => pure (asReads qs)
            : Parser (List Read)) env zs := rfl
      rw [hlist, hlist, hstep, hstep]
      refine (hleaves.runs henv ht hks hls b le_rfl).mono fun _ hle => hle.trans ?_
      simp only [List.length_cons, List.length_append] at hlt ⊢
      omega
    · rw [hintsBehind, hintsBehind, bind_of_ok (symbol_of_head hhead),
        bind_of_ok (symbol_of_head hhead')]
      exact .ok hi le_rfl

/-- A word in the place of a count. -/
def sampleWord : Parser (List Query) := do
  match ← nextToken with
  | some (.word _ _) => return []
  | _ => misfit

instance : Keeps κ κ.need N sampleWord sampleWord := by
  unfold sampleWord
  refine Eats.keeps (.of_nextToken rfl rfl rfl rfl rfl fun t M => ?_)
  split <;> infer_instance

/-- What a sample is counted in. -/
def sampleUnit (qs : List Query) : Parser (List Query) := do
  discard (keywordOf? ["ROWS", "PERCENT"])
  return qs

instance {qs : List Query} : Keeps κ 0 N (sampleUnit qs) (sampleUnit qs) := by
  unfold sampleUnit
  infer_instance

/-- A sample that is no bucket. -/
def sampleCount : Parser (List Query) := do
  match ← attempt exprQueries with
  | some qs => sampleUnit qs
  | none => sampleUnit (← sampleWord)

/-- An expression, or else a word in its place. -/
instance [hκ : κ.Easy] : Keeps κ 0 N sampleCount sampleCount := by
  refine ⟨fun env henv zs zs' ht is hi hm hN => ?_⟩
  by_cases hneed : κ.firm.need ≤ is.length
  · have hqueries : Keeps κ.firm κ.firm.need N exprQueries exprQueries := inferInstance
    have hunit (M : Nat) (qs : List Query) : Keeps κ 0 M (sampleUnit qs) (sampleUnit qs) :=
      inferInstance
    have hword (M : Nat) : Keeps κ 0 M (sampleWord >>= sampleUnit) (sampleWord >>= sampleUnit) :=
      inferInstance
    refine (Agree.attempt hi (hqueries.runs henv ht.firm (κ.ended_firm ▸ hi) hneed hN)).bind
      fun {o js} hj hR => ?_
    cases o with
    | some qs =>
      exact ((hunit _ qs).runs henv ht hj (Nat.zero_le _) le_rfl).mono fun _ hle => hle.trans hR
    | none =>
      obtain rfl : js = is := hR
      exact (hword _).runs henv ht hj (Nat.zero_le _) le_rfl
  · cases ht with
    | inside => exact absurd (Nat.zero_le _) hneed
    | closed => exact absurd (Nat.zero_le _) hneed
    | limited => cases hκ.eq
    | lenient =>
      cases is with
      | cons l ls => exact absurd (Nat.le_add_left 1 _) hneed
      | nil =>
        -- at the end there is neither
        obtain ⟨e, he⟩ := henv.term_nil 0
        have hqueries : exprQueries env [] = .error e := by
          show (env.term 0 [] >>= _) = _
          rw [he]
          rfl
        rw [List.nil_append, sampleCount]
        cases e with
        | misfit =>
          have hnone : attempt exprQueries env [] = .ok (none, []) := by rw [attempt, hqueries]
          rw [bind_of_ok hnone]
          exact .of_lenient rfl _
        | tooDeep =>
          have herror : attempt exprQueries env [] = .error .tooDeep := by rw [attempt, hqueries]
          rw [bind_of_error herror]
          exact .of_lenient rfl _
        | stuck =>
          have herror : attempt exprQueries env [] = .error .stuck := by rw [attempt, hqueries]
          rw [bind_of_error herror]
          exact .of_lenient rfl _

/-- A sample is a number of buckets or a count. -/
theorem sampleSize_eq (inParens : Bool) :
    sampleSize inParens = both (pure inParens) (keyword "BUCKET") >>= fun b => if b then do
        numberLiteral
        expectKeywords ["OUT", "OF"]
        numberLiteral
        clause "ON" exprQueries
      else sampleCount := by
  rw [sampleSize]
  refine bind_congr fun b => ?_
  cases b with
  | true => rfl
  | false =>
    refine bind_congr fun o => ?_
    cases o with
    | some qs => rfl
    | none =>
      -- the unit of a sample is one token
      simp only [sampleWord, bind_assoc]
      refine bind_congr fun t => ?_
      rcases t with _ | t
      · rfl
      · cases t <;> rfl

instance : Keeps .inside 0 N (sampleSize true) (sampleSize true) := by
  rw [sampleSize_eq]
  infer_instance

instance [κ.Easy] : Keeps κ 0 N (sampleSize false) (sampleSize false) := by
  rw [sampleSize_eq]
  exact inferInstanceAs (Keeps κ 0 N sampleCount sampleCount)

instance [κ.Easy] : Keeps κ 0 N sampleClause sampleClause := by
  unfold sampleClause
  dsimp only
  infer_instance

instance [κ.Easy] : Keeps κ 0 N namedTable namedTable := by
  unfold namedTable
  dsimp only
  infer_instance

instance : Keeps κ κ.need N lateralFunction lateralFunction := by
  unfold lateralFunction
  infer_instance

instance : Reserves κ reservedForColumn := ⟨fun _ => by decide⟩

instance : Keeps κ 0 N unnest unnest := by
  unfold unnest
  dsimp only
  infer_instance

instance : Leaves κ N derivedTable derivedTable := by
  unfold derivedTable
  infer_instance

/-! ### Joins -/

instance [κ.Easy] : Keeps κ 0 N joinCondition joinCondition := by
  unfold joinCondition
  dsimp only
  infer_instance

/-- The words of a join, behind the first one. -/
def joinWordsBehind (o : Option String) : Parser Bool := do
  match o with
  | some "JOIN" | some "STRAIGHT_JOIN" => return true
  | some "INNER" | some "ANTI" | some "SEMI" =>
    expectKeyword "JOIN"
    return true
  | some "LEFT" | some "RIGHT" =>
    if (← keywordOf ["OUTER", "SEMI", "ANTI", "JOIN"]) != "JOIN" then expectKeyword "JOIN"
    return true
  | some "FULL" =>
    discard (keyword "OUTER")
    expectKeyword "JOIN"
    return true
  | some _ => misfit
  | none => return false

instance {o : Option String} : Keeps κ 0 N (joinWordsBehind o) (joinWordsBehind o) := by
  unfold joinWordsBehind
  dsimp only
  split <;> infer_instance

/-- Behind the words of a join fewer lexemes are left. -/
instance (priority := 1100) {f g : Bool → Parser β} [hyes : ∀ b, ∀ M : Fin N, Keeps κ 0 M (f b) (g b)]
    [hno : Keeps κ m N (f false) (g false)] : Keeps κ m N (joinWords >>= f) (joinWords >>= g) := by
  have heq : joinWords = keywordOf? ["INNER", "JOIN", "LEFT", "RIGHT", "ANTI", "SEMI", "FULL",
      "OUTER", "STRAIGHT_JOIN"] >>= joinWordsBehind := rfl
  rw [heq, bind_assoc, bind_assoc]
  exact .of_test runs_keywordOf? (fun l _ M => inferInstance) hno

section

variable {item item' : Parser (List Read)}

instance [κ.Easy] [Base κ 0 N item item'] (n n' : Above N) :
    Keeps κ 0 N (joins item n) (joins item' n') :=
  Keeps.loop (fun n n' M _ => by
    have : Base κ 0 M item item' := inferInstance
    unfold joins join
    dsimp only
    infer_instance) n n'

end

section

variable {item item' : Parser Source}

instance [κ.Easy] [Base κ 0 N item item'] : Keeps κ 0 N (joined item) (joined item') := by
  have (M : Fin (N + 1)) : Base κ 0 M (Source.reads <$> item) (Source.reads <$> item') :=
    ⟨inferInstance⟩
  unfold joined
  infer_instance

instance [Base .inside 0 N item item'] : Leaves κ N (nestedJoin item) (nestedJoin item') := by
  unfold nestedJoin
  infer_instance

end

/-- An item by its name: a table or a function that makes one of a document. -/
def itemByName : Parser Source := do
  match ← get with
  | word :: ⟨.symbol "(", _, _⟩ :: rest =>
    if word.keyword == "JSON_TABLE" then
      set rest
      let reads ← jsonTable
      tableAlias
      return .of reads
    else if word.keyword == "XMLTABLE" then
      set rest
      let reads ← xmlTable
      tableAlias
      return .of reads
    else Source.of <$> namedTable
  | _ => Source.of <$> namedTable

section

variable {env : Env} {ls : List Lexeme}

/-- No parenthesis follows: a table. -/
theorem itemByName_of_head {l : Lexeme} (h : ∀ m ∈ ls.head?, m.token ≠ .symbol "(") :
    itemByName env (l :: ls) = (Source.of <$> namedTable : Parser Source) env (l :: ls) := by
  cases ls with
  | nil => rfl
  | cons m ms =>
    obtain ⟨t, k, a⟩ := m
    cases t with
    | symbol s =>
      -- another symbol behind the name opens no arguments
      have hs : s ≠ "(" := fun hs => h _ rfl (congrArg Token.symbol hs)
      rw [itemByName, bind_of_ok (a := l :: ⟨.symbol s, k, a⟩ :: ms) rfl]
      generalize hls : l :: ⟨.symbol s, k, a⟩ :: ms = ls
      split
      · obtain ⟨-, hms⟩ := List.cons.inj hls
        exact absurd (Token.symbol.inj (Lexeme.mk.inj (List.cons.inj hms).1).1) hs
      · rfl
    | _ => rfl

/-- Another word than that of a document: a table. -/
theorem itemByName_of_keyword (h : ∀ l ∈ ls.head?, l.keyword ∉ ["JSON_TABLE", "XMLTABLE"]) :
    itemByName env ls = (Source.of <$> namedTable : Parser Source) env ls := by
  cases ls with
  | nil => rfl
  | cons l ls =>
    by_cases hhead : ∀ m ∈ ls.head?, m.token ≠ .symbol "("
    · exact itemByName_of_head hhead
    cases ls with
    | nil => exact absurd nofun hhead
    | cons m ms =>
      obtain ⟨t, k, a⟩ := m
      -- there is a parenthesis, so the name decides
      obtain rfl : t = .symbol "(" := by
        by_contra hne
        exact hhead fun _ hm => by cases hm; exact hne
      obtain ⟨hjson, hxml⟩ : l.keyword ≠ "JSON_TABLE" ∧ l.keyword ≠ "XMLTABLE" := by
        simpa using h l rfl
      show (if (l.keyword == "JSON_TABLE") = true then _ else
        if (l.keyword == "XMLTABLE") = true then _ else _ : Parser Source) env _ = _
      rw [if_neg (by simpa using hjson), if_neg (by simpa using hxml)]

/-- What a document is read by. -/
def documentTable (k : String) : Parser Source := do
  let reads ← if k == "JSON_TABLE" then jsonTable else xmlTable
  tableAlias
  return .of reads

/-- The two table functions for documents have a grammar of their own. -/
theorem itemByName_document {l : Lexeme} {a : Bool} (hl : l.keyword ∈ ["JSON_TABLE", "XMLTABLE"]) :
    itemByName env (l :: opening a :: ls) = documentTable l.keyword env ls := by
  show (if (l.keyword == "JSON_TABLE") = true then _ else
    if (l.keyword == "XMLTABLE") = true then _ else _ : Parser Source) env _ = _
  rw [List.mem_pair] at hl
  rcases hl with hl | hl <;> rw [hl] <;> rfl

end

instance {k : String} : Leaves κ N (documentTable k) (documentTable k) := by
  unfold documentTable
  infer_instance

instance [κ.Easy] : Keeps κ 0 N itemByName itemByName := by
  have htable : Keeps κ 0 N (Source.of <$> namedTable) (Source.of <$> namedTable) := inferInstance
  refine ⟨fun env henv zs zs' ht is hi hm hN => ?_⟩
  -- any other name is that of a table
  have hkeyword (hhead : ∀ l ∈ (is ++ zs).head?, l.keyword ∉ ["JSON_TABLE", "XMLTABLE"])
      (hhead' : ∀ l ∈ (is ++ zs').head?, l.keyword ∉ ["JSON_TABLE", "XMLTABLE"]) :
      Agree κ zs zs' (fun _ js => js.length ≤ is.length) (itemByName env (is ++ zs))
        (itemByName env (is ++ zs')) := by
    rw [itemByName_of_keyword hhead, itemByName_of_keyword hhead']
    exact htable.runs henv ht hi hm hN
  cases hi with
  | nil =>
    exact hkeyword (fun l hl => ht.keyword_not_mem (.inl hl) inferInstance)
      fun l hl => ht.keyword_not_mem (.inr hl) inferInstance
  | parens =>
    refine hkeyword ?_ ?_
    all_goals
      rintro l ⟨⟩
      simp
  | @cons _ l ls hplain hleads hls =>
    -- one of the two names opens a table function only before a parenthesis
    by_cases hl : l.keyword ∈ ["JSON_TABLE", "XMLTABLE"]
    · rcases hls.parens_or_head ht with ⟨a, b, ks, ms, hks, hms, rfl⟩ | ⟨hhead, hhead'⟩
      · have hleaves : Leaves κ (ks.length + 1 + ms.length) (documentTable l.keyword)
          (documentTable l.keyword) := inferInstance
        have hlist (zs : List Lexeme) : l :: opening a :: (ks ++ closing b :: ms) ++ zs
            = l :: opening a :: (ks ++ closing b :: (ms ++ zs)) := by simp
        rw [hlist, hlist, itemByName_document hl, itemByName_document hl]
        refine (hleaves.runs henv ht hks hms b le_rfl).mono fun _ hle => hle.trans ?_
        simp only [List.length_cons, List.length_append]
        omega
      · rw [List.cons_append, List.cons_append, itemByName_of_head hhead, itemByName_of_head hhead']
        exact htable.runs henv ht (.cons hplain hleads hls) hm hN
    · refine hkeyword ?_ ?_
      all_goals
        rintro m ⟨⟩
        exact hl

/-- One item of `FROM`, case by case after its first word or symbol. -/
theorem itemWithin_succ (n : Nat) :
    itemWithin (n + 1) = keyword "LATERAL" >>= fun b => if b then
        symbol "(" >>= fun b => if b then Source.of <$> derivedTable else Source.of <$> lateralFunction
      else keyword "TABLE" >>= fun b => if b then do
        let reads ← parenthesized exprReads
        tableAlias
        return .of reads
      else symbol "(" >>= fun b => if b then attempt derivedTable >>= fun o => match o with
        | some reads => (fun more => .of (reads ++ more)) <$> withFuel pivots
        | none => (fun reads => ⟨true, reads⟩) <$> nestedJoin (itemWithin n)
      else both (isDialect .postgresql) (keyword "UNNEST") >>= fun b =>
        if b then Source.of <$> unnest else itemByName := by
  rw [itemWithin]
  -- both sides test the same words in the same order
  refine bind_congr fun b => ?_
  cases b with
  | true => rfl
  | false =>
    refine bind_congr fun b => ?_
    cases b with
    | true => rfl
    | false =>
      refine bind_congr fun b => ?_
      cases b with
      | true =>
        refine bind_congr fun o => ?_
        cases o <;> rfl
      | false => rfl

/-- One round of the items, where those in parentheses are items inside them. -/
theorem keeps_itemRound [κ.Easy] {n n' : Nat} [∀ M : Fin N, Base .inside 0 M (itemWithin n) (itemWithin n')] :
    Keeps κ 0 N (itemWithin (n + 1)) (itemWithin (n' + 1)) := by
  have hjoin (M : Fin N) : Leaves κ M (attempt derivedTable >>= fun o => match o with
        | some reads => (fun more => Source.of (reads ++ more)) <$> withFuel pivots
        | none => (fun reads => ⟨true, reads⟩) <$> nestedJoin (itemWithin n))
      (attempt derivedTable >>= fun o => match o with
        | some reads => (fun more => Source.of (reads ++ more)) <$> withFuel pivots
        | none => (fun reads => ⟨true, reads⟩) <$> nestedJoin (itemWithin n')) :=
    .of_attempt inferInstance (fun _ => inferInstance) inferInstance
  rw [itemWithin_succ, itemWithin_succ]
  infer_instance

/-- Inside parentheses an item of `FROM` is read up to the closing one, so both tails are
    far away. -/
theorem keeps_itemInside (n n' : Above N) : Keeps .inside 0 N (itemWithin n) (itemWithin n') :=
  Keeps.loop (fun _ _ _ _ => keeps_itemRound) n n'

instance [κ.Easy] (n n' : Above N) : Keeps κ 0 N (itemWithin n) (itemWithin n') := by
  refine ⟨.loop (fun n n' M hn hn' _ => ?_) n n'⟩
  have (K : Fin M) : Base .inside 0 K (itemWithin n) (itemWithin n') :=
    ⟨keeps_itemInside ⟨n, K.isLt.trans_le hn⟩ ⟨n', K.isLt.trans_le hn'⟩⟩
  exact keeps_itemRound.runs

instance [κ.Easy] : Keeps κ 0 N source source := by
  have : Base κ 0 N (withFuel itemWithin) (withFuel itemWithin) := ⟨inferInstance⟩
  unfold source
  infer_instance

instance [κ.Easy] : Keeps κ 0 N sources sources := by
  unfold sources
  infer_instance

end QueryGate.Sql.Parser
