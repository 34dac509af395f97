import QueryGate.Proofs.Extension.Types

namespace QueryGate.Sql.Parser

/-!
# Values and orderings keep to their text

What stands inside an expression and around it without being an operand of its own: literals,
wildcards, orderings and windows.
-/

set_option synthInstance.maxSize 100000

variable {α β : Type} {κ : Tail} {m N : Nat}

/-! ### Values -/

/-- A string literal that the one before it goes on in. -/
def adjacent? (l : Lexeme) : Option Unit :=
  match l.token with
  | .literal .single _ | .literal .double _ => some ()
  | _ => none

/-- Literals that follow a literal are joined one after the other. -/
theorem adjacentLiterals_succ (n : Nat) :
    adjacentLiterals (n + 1)
      = take? adjacent? >>= fun o => if o.isSome then adjacentLiterals n else pure () := by
  funext env ls
  cases ls with
  | nil => rfl
  | cons l ls =>
    obtain ⟨t, k, a⟩ := l
    cases t with
    | literal kind text => cases kind <;> rfl
    | _ => rfl

instance (n n' : Above N) : Keeps κ 0 N (adjacentLiterals n) (adjacentLiterals n') := by
  refine Keeps.loop (fun n n' M _ => ?_) n n'
  rw [adjacentLiterals_succ, adjacentLiterals_succ]
  exact .of_take? ⟨⟨fun _ => rfl, fun _ _ => rfl⟩, fun _ => rfl⟩ (fun _ _ => inferInstance)
    inferInstance

/-- A value starts with a lexeme of its own, and neither with a parenthesis nor with a limit. -/
instance : Eats κ 0 N value value := by
  unfold value
  refine .of_next_at (fun _ _ _ => rfl) rfl (fun _ => rfl) (fun _ => rfl) (fun _ => rfl)
    (fun _ => rfl) fun l M => ?_
  dsimp only
  split
  · infer_instance
  · infer_instance
  · infer_instance
  · infer_instance
  · infer_instance
  · next s hs =>
    rw [ensure_bind]
    split
    · next hmark =>
      -- behind a mark there is a lexeme
      have hasks : AsksSymbol s := by
        rcases Bool.or_eq_true_iff.mp hmark with h | h <;> (rw [eq_of_beq h]; infer_instance)
      have hneed : κ.behind l = κ.need := if_pos (hasks.asks hs)
      rw [hneed]
      refine Eats.keeps (.of_next rfl (fun _ => rfl) (fun _ => rfl) (fun _ => rfl) (fun _ => rfl)
        fun l M => ?_)
      split <;> infer_instance
    · infer_instance
  · infer_instance

instance : Keeps κ 0 N value value := Eats.keeps inferInstance

instance : Keeps κ 0 N valueTerm valueTerm := by
  unfold valueTerm
  infer_instance

instance : AllAbsent κ timeUnits := by
  unfold timeUnits
  infer_instance

/-- A part of a time is a lexeme of any kind. -/
instance : Keeps κ κ.need N timePart timePart := by
  unfold timePart
  refine .of_look inferInstance fun d => Eats.keeps ?_
  refine .of_next rfl (fun _ => rfl) (fun _ => rfl) (fun _ => rfl) (fun _ => rfl) fun l M => ?_
  split <;> infer_instance

section

variable {atom atom' : Parser Term}

/-- The units of an interval stand behind its value. -/
instance [Base κ κ.need N atom atom'] : Keeps κ κ.need N (intervalTerm atom) (intervalTerm atom') := by
  unfold intervalTerm
  dsimp only
  infer_instance

end

/-! ### Wildcards -/

instance (n n' : Above N) : Keeps κ 0 N (starAfterNames n) (starAfterNames n') := by
  refine Keeps.loop (fun n n' M _ => ?_) n n'
  unfold starAfterNames
  have hnext (K : Fin M) : Keeps κ κ.need K (nextToken >>= fun t => match t with
      | some (.word _ _) | some (.literal .single _) | some (.placeholder _) => starAfterNames n
      | some (.symbol "*") => return true
      | _ => misfit) (nextToken >>= fun t => match t with
      | some (.word _ _) | some (.literal .single _) | some (.placeholder _) => starAfterNames n'
      | some (.symbol "*") => return true
      | _ => misfit) :=
    Eats.keeps <| .of_nextToken rfl rfl rfl rfl rfl fun t M => by
      split <;> infer_instance
  infer_instance

/-- Whether a star stands behind a name. -/
def behindName : Parser Bool := do
  if ← atSymbol "." then withFuel starAfterNames else return false

instance : Keeps κ 0 N behindName behindName := by
  unfold behindName
  infer_instance

/-- Takes what a parser finds, or else nothing. -/
def tryTrue (p : Parser Bool) : Parser Bool := fun env ls =>
  match p env ls with
  | .ok (true, rest) => .ok (true, rest)
  | .ok (false, _) => .ok (false, ls)
  | .error e => .error e

/-- Whether a wildcard comes next; what was read may be none. -/
def wildcardAhead : Parser Bool := do
  match ← nextToken with
  | some (.symbol "*") => return true
  | some (.word _ _) | some (.literal .single _) => behindName
  | _ => return false

/-- Behind a name, a search for a star that goes back to some place where it finds none. -/
theorem behindName_eq {env : Env} (start ls : List Lexeme) :
    (atSymbol "." >>= fun b =>
      if b then withFuel starAfterNames >>= fun b =>
        if b then pure true else set start >>= fun _ => pure false
      else set start >>= fun _ => pure false : Parser Bool) env ls
    = match behindName env ls with
      | .ok (true, rest) => .ok (true, rest)
      | .ok (false, _) => .ok (false, start)
      | .error e => .error e := by
  have hat : atSymbol "." env ls = .ok (ls.head?.any (·.token == .symbol "."), ls) := rfl
  rw [behindName, bind_of_ok hat, bind_of_ok hat]
  split
  · cases hstar : withFuel starAfterNames env ls with
    | error e => rw [bind_of_error hstar]
    | ok r =>
      obtain ⟨b, rest⟩ := r
      rw [bind_of_ok hstar]
      cases b <;> rfl
  · rfl

/-- A wildcard is taken as a whole or not at all. -/
theorem wildcard_eq : wildcard = tryTrue wildcardAhead := by
  funext env ls
  cases ls with
  | nil => rfl
  | cons l ls =>
    obtain ⟨t, k, a⟩ := l
    have htoken : nextToken env (⟨t, k, a⟩ :: ls) = .ok (some t, ls) := rfl
    have hahead : tryTrue wildcardAhead env (⟨t, k, a⟩ :: ls)
        = match wildcardAhead env (⟨t, k, a⟩ :: ls) with
          | .ok (true, rest) => .ok (true, rest)
          | .ok (false, _) => .ok (false, ⟨t, k, a⟩ :: ls)
          | .error e => .error e := rfl
    rw [hahead, wildcardAhead, bind_of_ok htoken, wildcard,
      bind_of_ok (a := ⟨t, k, a⟩ :: ls) (r := ⟨t, k, a⟩ :: ls) rfl, bind_of_ok htoken]
    -- names are words and single-quoted literals
    cases t with
    | word text quote => exact behindName_eq _ _
    | literal kind text =>
      cases kind with
      | single => exact behindName_eq _ _
      | _ => rfl
    | symbol s =>
      by_cases hs : s = "*"
      · subst hs
        rfl
      -- no other symbol opens a wildcard
      · have hahead : (match some (Token.symbol s) with
            | some (.symbol "*") => pure true
            | some (.word _ _) | some (.literal .single _) => behindName
            | _ => pure false : Parser Bool) = pure false := by
          split
          · next heq => exact absurd (Token.symbol.inj (Option.some.inj heq)) hs
          · next heq => cases heq
          · next heq => cases heq
          · rfl
        rw [hahead]
        show _ = (.ok (false, ⟨.symbol s, k, a⟩ :: ls) : Except Halt (Bool × List Lexeme))
        generalize ho : some (Token.symbol s) = o
        split
        · exact absurd (Token.symbol.inj (Option.some.inj ho)) hs
        · cases ho
        · cases ho
        · rfl
    | _ => rfl

/-- An attempt that answers `false` goes back to where it began. -/
theorem agree_tryTrue {env : Env} {p q : Parser Bool} {zs zs' is : List Lexeme}
    (hi : Fit κ.ended is) (h : Agree κ zs zs' (fun b js => b = true → js.length < is.length)
      (p env (is ++ zs)) (q env (is ++ zs'))) :
    Agree κ zs zs' (fun b js => if b then js.length < is.length else js = is)
      (tryTrue p env (is ++ zs)) (tryTrue q env (is ++ zs')) := by
  rw [tryTrue, tryTrue]
  rcases h.cases with ⟨e, hl, hκ | hm⟩ | ⟨b, js, hl, hm, hjs, hR⟩
  · rw [hl]
    exact .of_lenient hκ e
  · rw [hl, hm]
    exact .error e
  · rw [hl, hm]
    cases b with
    | true => exact .ok hjs (hR rfl)
    | false => exact .ok hi rfl

/-- A wildcard is read as a whole or not at all. -/
theorem runs_wildcard :
    Runs κ m N (fun is b js => if b then js.length < is.length else js = is) wildcard wildcard := by
  intro env henv zs zs' ht is hi _ _
  -- a tail alone and a parenthesis are no wildcard, so nothing is taken
  cases hi with
  | nil =>
    cases ht with
    | inside => exact .ok .nil rfl
    | closed => exact .ok .nil rfl
    | limited => exact .ok .nil rfl
    | lenient => exact .ok .nil rfl
  | @parens _ a b js ls hjs h => exact .ok (.parens hjs h) rfl
  | @cons _ l ls hplain hleads hls =>
    have hkeeps : Keeps κ 0 ls.length behindName behindName := inferInstance
    rw [wildcard_eq]
    refine agree_tryTrue (.cons hplain hleads hls) ?_
    have htoken (zs : List Lexeme) : nextToken env (l :: zs) = .ok (some l.token, zs) := rfl
    rw [wildcardAhead, List.cons_append, List.cons_append, bind_of_ok (htoken _),
      bind_of_ok (htoken _)]
    -- a wildcard that is read has at least its first lexeme taken
    have hname := (hkeeps.runs henv ht hls (Nat.zero_le _) le_rfl).mono
      fun {b js} _ hle => fun (_ : b = true) => Nat.lt_succ_of_le hle
    generalize some l.token = t
    split
    · exact .ok hls fun _ => Nat.lt_succ_self _
    · exact hname
    · exact hname
    · exact .ok hls nofun

/-- Where no wildcard comes next an expression does. -/
instance : Keeps κ κ.need N wildcardTerm wildcardTerm := by
  unfold wildcardTerm
  refine .of_bind runs_wildcard fun {is b js} _ hm hN _ hR => ?_
  cases b with
  | true => exact ⟨Nat.le_of_lt hR, 0, N, Nat.zero_le _, (Nat.le_of_lt hR).trans hN, inferInstance⟩
  | false => exact ⟨le_of_eq (congrArg _ hR), κ.need, N, hR ▸ hm, hR ▸ hN, inferInstance⟩

/-! ### Ordering and windows -/

instance : Keeps κ κ.need N orderItem orderItem := by
  unfold orderItem
  dsimp only
  infer_instance

section

variable {atom atom' : Parser Term}

/-- The bound of a frame looks ahead for an interval. -/
instance [Base .inside Tail.inside.need N atom atom'] :
    Keeps .inside 0 N (frameBound atom) (frameBound atom') := by
  unfold frameBound
  dsimp only
  refine .of_test runs_keywords (fun _ _ _ => inferInstance) ?_
  show Keeps _ _ _ (keyword "UNBOUNDED" >>= _) (keyword "UNBOUNDED" >>= _)
  refine .of_test runs_keyword (fun _ _ _ => inferInstance) ?_
  exact .of_peekToken rfl rfl rfl fun t => by
    split <;> infer_instance

/-- A word that names the window which another one goes on from. -/
def windowName? (l : Lexeme) : Option Unit :=
  match l.token with
  | .word _ _ =>
    if ["PARTITION", "ORDER", "ROWS", "RANGE", "GROUPS"].contains l.keyword then none else some ()
  | _ => none

/-- The clauses of a window. -/
def windowClauses (atom : Parser Term) : Parser (List Query) := do
  let partition ← clauseBy "PARTITION" (commaLists exprQueries)
  let order ← clauseBy "ORDER" (commaLists orderItem)
  if ← symbol ")" then return partition ++ order
  else
    discard (keywordOf ["ROWS", "RANGE", "GROUPS"])
    let frame ←
      if ← keyword "BETWEEN" then
        let low ← frameBound atom
        expectKeyword "AND"
        pure (low ++ (← frameBound atom))
      else frameBound atom
    expectSymbol ")"
    return partition ++ order ++ frame

/-- A window may begin with the name of another one. -/
theorem windowSpec_eq (atom : Parser Term) :
    windowSpec atom = take? windowName? >>= fun _ => windowClauses atom := by
  funext env ls
  cases ls with
  | nil => rfl
  | cons l ls =>
    obtain ⟨t, k, a⟩ := l
    cases t with
    | word text quote =>
      rw [windowSpec, bind_of_ok (a := some ⟨.word text quote, k, a⟩) rfl]
      dsimp only
      -- these words open a clause of the window, so they are no name
      by_cases hk : ["PARTITION", "ORDER", "ROWS", "RANGE", "GROUPS"].contains k = true
      · have hname : windowName? ⟨.word text quote, k, a⟩ = none := if_pos hk
        rw [if_pos hk, bind_of_ok (take?_of_none hname)]
        rfl
      · have hname : windowName? ⟨.word text quote, k, a⟩ = some () := if_neg hk
        rw [if_neg hk, bind_of_ok (take?_of_some hname)]
        rfl
    | _ => rfl

instance [Base .inside Tail.inside.need N atom atom'] :
    Leaves κ N (windowSpec atom) (windowSpec atom') := by
  have hclauses : Leaves κ N (windowClauses atom) (windowClauses atom') := by
    unfold windowClauses
    dsimp only
    infer_instance
  have hname : Keeps .inside 0 N (take? windowName?) (take? windowName?) :=
    keeps_take? ⟨⟨fun _ => rfl, nofun⟩, fun _ => rfl⟩
  rw [windowSpec_eq, windowSpec_eq]
  infer_instance

end

end QueryGate.Sql.Parser
