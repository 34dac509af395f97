import QueryGate.Proofs.Extension.Lists

namespace QueryGate.Sql.Parser

/-!
# Parsers that keep to their text

`Keeps κ m N p q` says that `p` and `q` come to the same end on fit lexemes, whichever of the two
tails stands behind them, and that they leave the tail alone.  The lexemes are at least `m`, which
is how a parser says that it cannot do without one, and at most `N`, which is what a loop descends
on: `p` and `q` may be the same loop with more or less fuel.

* `Looks` — the same for parsers that take nothing;
* `Eats` — the same for parsers that take something;
* `Leaves` — the same for parsers that start inside a pair of parentheses and end behind it.

Each combinator keeps to its text if its parts do, and says so as an instance, so that for most
parsers of the grammar the property is found from their text.
-/

variable {α β : Type} {κ : Tail} {m N : Nat} {zs zs' : List Lexeme}

/-! ### Outcomes -/

/-- The same failure, or the same result with the same lexemes left before each tail; `R` says what
    the result and those lexemes are.  Before a lenient tail nothing is said of failures. -/
def Agree (κ : Tail) (zs zs' : List Lexeme) (R : α → List Lexeme → Prop) :
    Except Halt (α × List Lexeme) → Except Halt (α × List Lexeme) → Prop
  | .ok (a, ls), .ok (b, ms) =>
    b = a ∧ ∃ js, Fit κ.ended js ∧ R a js ∧ ls = js ++ zs ∧ ms = js ++ zs'
  | .error e, .error f => κ = .lenient ∨ f = e
  | .error _, .ok _ => κ = .lenient
  | .ok _, .error _ => False

namespace Agree

variable {R : α → List Lexeme → Prop} {S : β → List Lexeme → Prop}
  {x y : Except Halt (α × List Lexeme)}

/-- Two readings that end at one place with one value agree. -/
theorem ok {a : α} {js : List Lexeme} (hjs : Fit κ.ended js) (h : R a js) :
    Agree κ zs zs' R (.ok (a, js ++ zs)) (.ok (a, js ++ zs')) :=
  ⟨rfl, js, hjs, h, rfl, rfl⟩

theorem error (e : Halt) : Agree κ zs zs' R (.error e) (.error e) := .inr rfl

/-- After a failure before a lenient tail nothing is left to show. -/
theorem of_lenient (hκ : κ = .lenient) (e : Halt) : Agree κ zs zs' R (.error e) y := by
  cases y with
  | error f => exact .inl hκ
  | ok r => exact hκ

/-- Either the first one fails, and so does the second in the same way unless the tail is lenient;
    or both have the same result. -/
theorem cases (h : Agree κ zs zs' R x y) :
    (∃ e, x = .error e ∧ (κ = .lenient ∨ y = .error e)) ∨
      ∃ a js, x = .ok (a, js ++ zs) ∧ y = .ok (a, js ++ zs') ∧ Fit κ.ended js ∧ R a js := by
  cases x with
  -- two results agree if both are errors, or both end in the tails with the same inside
  | error e =>
    refine .inl ⟨e, rfl, ?_⟩
    cases y with
    | error f => exact h.imp_right (congrArg _)
    | ok r => exact .inl h
  | ok r =>
    cases y with
    | error f => exact h.elim
    | ok r' =>
      obtain ⟨a, ls⟩ := r
      obtain ⟨b, ms⟩ := r'
      obtain ⟨rfl, js, hjs, hR, rfl, rfl⟩ := h
      exact .inr ⟨b, js, rfl, rfl, hjs, hR⟩

/-- What is shown with failures compared is more. -/
theorem of_firm (h : Agree κ.firm zs zs' R x y) : Agree κ zs zs' R x y := by
  rcases h.cases with ⟨e, rfl, hκ | rfl⟩ | ⟨a, js, rfl, rfl, hjs, ha⟩
  · cases κ <;> cases hκ
  · exact error e
  · exact ok (κ.ended_firm ▸ hjs) ha

/-- What readings agree on may be said more weakly. -/
theorem mono {R' : α → List Lexeme → Prop} (h : Agree κ zs zs' R x y)
    (hR : ∀ {a js}, Fit κ.ended js → R a js → R' a js) : Agree κ zs zs' R' x y := by
  rcases h.cases with ⟨e, rfl, hκ | rfl⟩ | ⟨a, js, rfl, rfl, hjs, ha⟩
  · exact of_lenient hκ e
  · exact error e
  · exact ok hjs (hR hjs ha)

/-- What the first outcome says of the result and the lexemes left. -/
theorem refine {R' : α → List Lexeme → Prop} (h : Agree κ zs zs' R x y)
    (hR : ∀ {a js}, x = .ok (a, js ++ zs) → R a js → R' a js) : Agree κ zs zs' R' x y := by
  rcases h.cases with ⟨e, rfl, hκ | rfl⟩ | ⟨a, js, rfl, rfl, hjs, ha⟩
  · exact of_lenient hκ e
  · exact error e
  · exact ok hjs (hR rfl ha)

/-- Readings that agree go on alike. -/
theorem bind {f g : α × List Lexeme → Except Halt (β × List Lexeme)} (h : Agree κ zs zs' R x y)
    (hf : ∀ {a js}, Fit κ.ended js → R a js →
      Agree κ zs zs' S (f (a, js ++ zs)) (g (a, js ++ zs'))) :
    Agree κ zs zs' S (x >>= f) (y >>= g) := by
  rcases h.cases with ⟨e, rfl, hκ | rfl⟩ | ⟨a, js, rfl, rfl, hjs, ha⟩
  · exact of_lenient hκ e
  · exact error e
  · exact hf hjs ha

end Agree

/-! ### Parsers -/

/-- What is nested one level deeper keeps to its text.  An expression cannot do without a lexeme. -/
structure Env.Steady (env : Env) : Prop where
  query : ∀ {κ : Tail} [κ.Unlimited] {zs zs' is : List Lexeme}, Tails κ zs zs' →
    Fit κ.ended is → Agree κ zs zs' (fun _ js => js.length ≤ is.length)
      (env.query (is ++ zs)) (env.query (is ++ zs'))
  term : ∀ (power : Nat) {κ : Tail} [κ.Exact] {zs zs' is : List Lexeme}, Tails κ zs zs' →
    Fit κ.ended is → κ.need ≤ is.length → Agree κ zs zs' (fun _ js => js.length ≤ is.length)
      (env.term power (is ++ zs)) (env.term power (is ++ zs'))
  term_nil : ∀ power, ∃ e, env.term power [] = .error e

/-- The outcomes of two parsers agree on fit lexemes, with what the result and the lexemes left
    have to do with those read. -/
def Runs (κ : Tail) (m N : Nat) (R : List Lexeme → α → List Lexeme → Prop) (p q : Parser α) :
    Prop :=
  ∀ ⦃env : Env⦄, env.Steady → ∀ {zs zs' : List Lexeme}, Tails κ zs zs' → ∀ {is : List Lexeme},
    Fit κ.ended is → m ≤ is.length → is.length ≤ N →
      Agree κ zs zs' (R is) (p env (is ++ zs)) (q env (is ++ zs'))

/-- Two parsers come to the same end, and leave the tail alone. -/
class Keeps (κ : Tail) (m N : Nat) (p q : Parser α) : Prop where
  runs : Runs κ m N (fun is _ js => js.length ≤ is.length) p q

/-- Two parsers come to the same end, and take nothing. -/
class Looks (κ : Tail) (m N : Nat) (p q : Parser α) : Prop where
  runs : Runs κ m N (fun is _ js => js = is) p q

/-- Two parsers come to the same end, and take something. -/
class Eats (κ : Tail) (m N : Nat) (p q : Parser α) : Prop where
  runs : Runs κ m N (fun is _ js => js.length < is.length) p q

/-- Two parsers that start inside a pair of parentheses come to the same end, behind it. -/
class Leaves (κ : Tail) (N : Nat) (p q : Parser α) : Prop where
  runs : ∀ ⦃env : Env⦄, env.Steady → ∀ {zs zs' : List Lexeme}, Tails κ zs zs' →
    ∀ {js is : List Lexeme}, Fit false js → Fit κ.ended is → ∀ (b : Bool),
      js.length + 1 + is.length ≤ N →
        Agree κ zs zs' (fun _ ks => ks.length ≤ is.length)
          (p env (js ++ closing b :: (is ++ zs))) (q env (js ++ closing b :: (is ++ zs')))

/-- The property as something that is assumed, of a parser that is a variable or a loop with less
    fuel.  It holds for fewer lexemes too. -/
class Base (κ : Tail) (m N : Nat) (p q : Parser α) : Prop where
  keeps : Keeps κ m N p q

variable {p q : Parser α}

namespace Keeps

theorem mono {m' N' : Nat} (h : Keeps κ m N p q) (hm : m ≤ m') (hN : N' ≤ N) :
    Keeps κ m' N' p q :=
  ⟨fun _ henv _ _ ht _ hi hmi hNi => h.runs henv ht hi (hm.trans hmi) (hNi.trans hN)⟩

/-- A parser goes on from what another one leaves. -/
theorem of_bind {R : List Lexeme → α → List Lexeme → Prop} {f g : α → Parser β}
    (hp : Runs κ m N R p q)
    (hf : ∀ {is a js}, Fit κ.ended is → m ≤ is.length → is.length ≤ N → Fit κ.ended js →
      R is a js → js.length ≤ is.length ∧
        ∃ m' N', m' ≤ js.length ∧ js.length ≤ N' ∧ Keeps κ m' N' (f a) (g a)) :
    Keeps κ m N (p >>= f) (q >>= g) := by
  refine ⟨fun _ henv _ _ ht _ hi hm hN => (hp henv ht hi hm hN).bind fun hj hR => ?_⟩
  obtain ⟨hle, m', N', hm', hN', hk⟩ := hf hi hm hN hj hR
  exact (hk.runs henv ht hj hm' hN').mono fun _ hks => hks.trans hle

end Keeps

section

instance [h : Base κ m N p q] : Keeps κ m N p q := h.keeps

instance (M : Fin N) [h : Base κ m N p q] : Base κ m M p q := ⟨h.keeps.mono le_rfl M.isLt.le⟩

instance (M : Fin (N + 1)) [h : Base κ m N p q] : Base κ m M p q :=
  ⟨h.keeps.mono le_rfl (Nat.le_of_lt_succ M.isLt)⟩

instance (priority := low) [h : Keeps κ 0 N p q] : Keeps κ κ.need N p q :=
  h.mono (Nat.zero_le _) le_rfl

instance (priority := low) [hκ : κ.Easy] [h : Keeps κ κ.need N p q] : Keeps κ 0 N p q :=
  h.mono hκ.eq.le le_rfl

instance [h : Looks κ m N p q] : Keeps κ m N p q :=
  ⟨fun _ henv _ _ ht _ hi hm hN =>
    (h.runs henv ht hi hm hN).mono fun _ hjs => (congrArg List.length hjs).le⟩

end

/-! ### Control -/

section

variable {p' q' : Parser α} {f g : α → Parser β}

instance {a : α} : Looks κ m N (pure a) (pure a) := ⟨fun _ _ _ _ _ _ hi _ _ => .ok hi rfl⟩

instance : Looks κ m N (misfit : Parser α) misfit := ⟨fun _ _ _ _ _ _ _ _ _ => .error _⟩

instance : Leaves κ N (misfit : Parser α) misfit := ⟨fun _ _ _ _ _ _ _ _ _ _ _ => .error _⟩

instance (priority := 1100) [hp : Looks κ m N p q] [hf : ∀ a, Looks κ m N (f a) (g a)] :
    Looks κ m N (p >>= f) (q >>= g) :=
  ⟨fun _ henv _ _ ht _ hi hm hN => (hp.runs henv ht hi hm hN).bind fun _ hjs => by
    subst hjs
    exact (hf _).runs henv ht hi hm hN⟩

/-- Behind a parser that takes nothing the same lexemes are left. -/
theorem Keeps.of_look (hp : Looks κ m N p q) (hf : ∀ a, Keeps κ m N (f a) (g a)) :
    Keeps κ m N (p >>= f) (q >>= g) :=
  .of_bind hp.runs fun _ hm hN _ hjs => by
    subst hjs
    exact ⟨le_rfl, m, N, hm, hN, hf _⟩

/-- Behind any other parser there may be none left. -/
theorem Keeps.andThen (hp : Keeps κ m N p q) (hf : ∀ a, Keeps κ 0 N (f a) (g a)) :
    Keeps κ m N (p >>= f) (q >>= g) :=
  .of_bind hp.runs fun _ _ hN _ hjs => ⟨hjs, 0, N, Nat.zero_le _, hjs.trans hN, hf _⟩

instance [hp : Looks κ m N p q] [hf : ∀ a, Keeps κ m N (f a) (g a)] :
    Keeps κ m N (p >>= f) (q >>= g) :=
  .of_look hp hf

instance (priority := 900) [hp : Keeps κ m N p q] [hf : ∀ a, Keeps κ 0 N (f a) (g a)] :
    Keeps κ m N (p >>= f) (q >>= g) :=
  .andThen hp hf

instance {f : α → β} [hp : Looks κ m N p q] : Looks κ m N (f <$> p) (f <$> q) := by
  rw [map_eq_pure_bind, map_eq_pure_bind]
  infer_instance

instance {f : α → β} [hp : Keeps κ m N p q] : Keeps κ m N (f <$> p) (f <$> q) := by
  rw [map_eq_pure_bind, map_eq_pure_bind]
  infer_instance

/-! What follows a parser in several steps follows its last one. -/

section

variable {γ : Type} {c : Prop} {h h' : β → Parser γ}

instance (priority := 1150) [hk : Keeps κ m N (p >>= fun a => f a >>= h) (q >>= fun a => g a >>= h')] :
    Keeps κ m N (p >>= f >>= h) (q >>= g >>= h') := by
  rwa [bind_assoc, bind_assoc]

instance (priority := 1150) {i : α → β}
    [hk : Keeps κ m N (p >>= fun a => h (i a)) (q >>= fun a => h' (i a))] :
    Keeps κ m N (i <$> p >>= h) (i <$> q >>= h') := by
  rwa [bind_map_left, bind_map_left]

instance (priority := 1150) {a a' : α} [hk : Keeps κ m N (f a) (g a')] :
    Keeps κ m N (pure a >>= f) (pure a' >>= g) := by
  rwa [pure_bind, pure_bind]

instance (priority := 1150) {d : Decidable (true = true)} [hk : Keeps κ m N (p >>= f) (q >>= g)] :
    Keeps κ m N (@ite _ (true = true) d p p' >>= f) (@ite _ (true = true) d q q' >>= g) := by
  rwa [if_pos rfl, if_pos rfl]

instance (priority := 1150) {d : Decidable (false = true)}
    [hk : Keeps κ m N (p' >>= f) (q' >>= g)] :
    Keeps κ m N (@ite _ (false = true) d p p' >>= f) (@ite _ (false = true) d q q' >>= g) := by
  rwa [if_neg Bool.false_ne_true, if_neg Bool.false_ne_true]

end

/-- What follows a choice follows either side of it. -/
instance (priority := 890) {c : Prop} [Decidable c] [hp : Keeps κ m N (p >>= f) (q >>= g)]
    [hp' : Keeps κ m N (p' >>= f) (q' >>= g)] :
    Keeps κ m N ((if c then p else p') >>= f) ((if c then q else q') >>= g) := by
  split
  · exact hp
  · exact hp'

/-- What is read and put aside. -/
theorem discard_bind (p : Parser α) (f : PUnit → Parser β) :
    discard p >>= f = p >>= fun _ => f ⟨⟩ := by
  show (fun _ => PUnit.unit) <$> p >>= f = _
  rw [map_eq_pure_bind, bind_assoc]
  rfl

instance (priority := 1100) {f g : PUnit → Parser β}
    [h : Keeps κ m N (p >>= fun _ => f ⟨⟩) (q >>= fun _ => g ⟨⟩)] :
    Keeps κ m N (discard p >>= f) (discard q >>= g) := by
  rwa [discard_bind, discard_bind]

instance [Looks κ m N p q] : Looks κ m N (discard p) (discard q) :=
  inferInstanceAs (Looks κ m N ((fun _ => PUnit.unit) <$> p) ((fun _ => PUnit.unit) <$> q))

instance [Keeps κ m N p q] : Keeps κ m N (discard p) (discard q) :=
  inferInstanceAs (Keeps κ m N ((fun _ => PUnit.unit) <$> p) ((fun _ => PUnit.unit) <$> q))

instance {c : Prop} [Decidable c] [hp : Looks κ m N p q] [hp' : Looks κ m N p' q'] :
    Looks κ m N (if c then p else p') (if c then q else q') := by
  split
  · exact hp
  · exact hp'

instance {c : Prop} [Decidable c] [hp : Keeps κ m N p q] [hp' : Keeps κ m N p' q'] :
    Keeps κ m N (if c then p else p') (if c then q else q') := by
  split
  · exact hp
  · exact hp'

instance {c : Prop} [Decidable c] [hp : Leaves κ N p q] [hp' : Leaves κ N p' q'] :
    Leaves κ N (if c then p else p') (if c then q else q') := by
  split
  · exact hp
  · exact hp'

instance (priority := 1100) {d : Decidable (true = true)} [hp : Keeps κ m N p q] :
    Keeps κ m N (@ite _ (true = true) d p p') (@ite _ (true = true) d q q') := by
  rwa [if_pos rfl, if_pos rfl]

instance (priority := 1100) {d : Decidable (false = true)} [hp' : Keeps κ m N p' q'] :
    Keeps κ m N (@ite _ (false = true) d p p') (@ite _ (false = true) d q q') := by
  rwa [if_neg Bool.false_ne_true, if_neg Bool.false_ne_true]

instance (priority := 1100) {d : Decidable (true = true)} [hp : Leaves κ N p q] :
    Leaves κ N (@ite _ (true = true) d p p') (@ite _ (true = true) d q q') := by
  rwa [if_pos rfl, if_pos rfl]

instance (priority := 1100) {d : Decidable (false = true)} [hp' : Leaves κ N p' q'] :
    Leaves κ N (@ite _ (false = true) d p p') (@ite _ (false = true) d q q') := by
  rwa [if_neg Bool.false_ne_true, if_neg Bool.false_ne_true]

end

/-! ### Parsers that take something -/

section

variable {p' q' : Parser α} {f g : α → Parser β}

/-- To take something is to keep the agreement, too. -/
theorem Eats.keeps (h : Eats κ m N p q) : Keeps κ m N p q :=
  ⟨fun _ henv _ _ ht _ hi hm hN => (h.runs henv ht hi hm hN).mono fun _ => Nat.le_of_lt⟩

instance : Eats κ m N (misfit : Parser α) misfit := ⟨fun _ _ _ _ _ _ _ _ _ => .error _⟩

/-- Whatever follows, it has fewer lexemes. -/
instance [h : Eats κ m N p q] [hf : ∀ a, ∀ M : Fin N, Keeps κ 0 M (f a) (g a)] :
    Eats κ m N (p >>= f) (q >>= g) := by
  refine ⟨fun env henv zs zs' ht is hi hm hN => (h.runs henv ht hi hm hN).bind fun hjs hlt => ?_⟩
  exact ((hf _ ⟨_, hlt.trans_le hN⟩).runs henv ht hjs (Nat.zero_le _) le_rfl).mono
    fun _ hle => hle.trans_lt hlt

instance (priority := 1100) [hp : Looks κ m N p q] [hf : ∀ a, Eats κ m N (f a) (g a)] :
    Eats κ m N (p >>= f) (q >>= g) :=
  ⟨fun _ henv _ _ ht _ hi hm hN => (hp.runs henv ht hi hm hN).bind fun _ hjs => by
    subst hjs
    exact (hf _).runs henv ht hi hm hN⟩

instance {f : α → β} [hp : Eats κ m N p q] : Eats κ m N (f <$> p) (f <$> q) := by
  rw [map_eq_pure_bind, map_eq_pure_bind]
  infer_instance

instance (priority := 1100) {f g : PUnit → Parser β}
    [h : Eats κ m N (p >>= fun _ => f ⟨⟩) (q >>= fun _ => g ⟨⟩)] :
    Eats κ m N (discard p >>= f) (discard q >>= g) := by
  rwa [discard_bind, discard_bind]

instance {c : Prop} [Decidable c] [hp : Eats κ m N p q] [hp' : Eats κ m N p' q'] :
    Eats κ m N (if c then p else p') (if c then q else q') := by
  split
  · exact hp
  · exact hp'

instance (priority := 1100) {d : Decidable (true = true)} [hp : Eats κ m N p q] :
    Eats κ m N (@ite _ (true = true) d p p') (@ite _ (true = true) d q q') := by
  rwa [if_pos rfl, if_pos rfl]

instance (priority := 1100) {d : Decidable (false = true)} [hp' : Eats κ m N p' q'] :
    Eats κ m N (@ite _ (false = true) d p p') (@ite _ (false = true) d q q') := by
  rwa [if_neg Bool.false_ne_true, if_neg Bool.false_ne_true]

end

/-! ### Parsers that leave their parentheses -/

section

variable {f g : α → Parser β}

/-- What is read before the closing parenthesis. -/
instance (priority := 900) [hp : Keeps .inside 0 N p q] [hf : ∀ a, Leaves κ N (f a) (g a)] :
    Leaves κ N (p >>= f) (q >>= g) := by
  refine ⟨fun env henv zs zs' ht js is hjs his b hN => ?_⟩
  show Agree κ zs zs' _ (p env _ >>= _) (q env _ >>= _)
  have hinside : Tails .inside (closing b :: (is ++ zs)) (closing b :: (is ++ zs')) := .inside
  rcases (hp.runs henv hinside hjs (Nat.zero_le _) (by omega)).cases with
    ⟨e, hl, hκ | hm⟩ | ⟨a, ks, hl, hm, hks, hle⟩
  · cases hκ
  · rw [hl, hm]
    exact .error e
  · rw [hl, hm]
    exact (hf a).runs henv ht hks his b (by omega)

/-- What is read behind the closing parenthesis. -/
instance (priority := 800) [hp : Leaves κ N p q] [hf : ∀ a, Keeps κ 0 N (f a) (g a)] :
    Leaves κ N (p >>= f) (q >>= g) :=
  ⟨fun _ henv _ _ ht _ _ hjs his b hN => (hp.runs henv ht hjs his b hN).bind fun hks hle =>
    ((hf _).runs henv ht hks (Nat.zero_le _) (by omega)).mono fun _ h => h.trans hle⟩

instance {f : α → β} [hp : Leaves κ N p q] : Leaves κ N (f <$> p) (f <$> q) := by
  rw [map_eq_pure_bind, map_eq_pure_bind]
  infer_instance

end

/-! ### Single lexemes -/

/-- What a test of the next lexeme comes to: nothing is taken, or the lexeme that passes. -/
inductive Tested (κ : Tail) (test : Lexeme → Bool) (no : α) (yes : Lexeme → α)
    (is : List Lexeme) : α → List Lexeme → Prop
  | no : Tested κ test no yes is no is
  | yes {l : Lexeme} {js : List Lexeme} (h : test l = true) (hl : l.token ≠ .symbol "(")
      (hfit : Fit κ.ended (l :: js)) (hlt : js.length < is.length) :
      Tested κ test no yes is (yes l) js

/-- A test that fails of a closing parenthesis, and of a limit where one may follow. -/
structure Quiet (κ : Tail) (test : Lexeme → Bool) : Prop where
  closing : ∀ a, test (closing a) = false
  limit : κ.ended = true → ∀ a, test (limitWord a) = false

/-- A test that fails of the tails. -/
theorem Quiet.head? {test : Lexeme → Bool} (h : Quiet κ test) (ht : Tails κ zs zs') {l : Lexeme}
    (hl : l ∈ zs.head? ∨ l ∈ zs'.head?) : test l = false := by
  rcases ht.head? hl with ⟨a, rfl⟩ | ⟨hended, a, rfl⟩
  · exact h.closing a
  · exact h.limit hended a

/-- A test that fails of an opening parenthesis too. -/
structure Inner (κ : Tail) (test : Lexeme → Bool) : Prop extends Quiet κ test where
  opening : ∀ a, test (opening a) = false

/-- A parser that takes the next lexeme if it passes such a test. -/
theorem runs_of_test {no : α} {yes : Lexeme → α} {test : Lexeme → Bool} (htest : Inner κ test)
    (hyes : ∀ env l ls, test l = true → p env (l :: ls) = .ok (yes l, ls))
    (hno : ∀ env ls, (∀ l ∈ ls.head?, test l = false) → p env ls = .ok (no, ls)) :
    Runs κ m N (Tested κ test no yes) p p := by
  intro env henv zs zs' ht is hi _ _
  cases hi with
  | nil =>
    rw [List.nil_append, List.nil_append, hno env zs fun l hl => htest.head? ht (.inl hl),
      hno env zs' fun l hl => htest.head? ht (.inr hl)]
    exact .ok .nil .no
  | @cons _ l ls hplain hleads h =>
    -- the first lexeme decides, and a tail or a parenthesis fails the test
    by_cases hl : test l = true
    · rw [List.cons_append, List.cons_append, hyes env l _ hl, hyes env l _ hl]
      exact .ok h (.yes hl hplain.not_opening (.cons hplain hleads h) (Nat.lt_succ_self _))
    · have hhead {zs} : ∀ m ∈ (l :: ls ++ zs).head?, test m = false := by
        intro m hm
        obtain rfl : l = m := Option.some.inj hm
        simpa using hl
      rw [hno env _ hhead, hno env _ hhead]
      exact .ok (.cons hplain hleads h) .no
  | @parens _ a b js ls hjs h =>
    have hhead {zs} : ∀ m ∈ (opening a :: (js ++ closing b :: ls) ++ zs).head?,
        test m = false := by
      intro m hm
      obtain rfl : opening a = m := Option.some.inj hm
      exact htest.opening a
    rw [hno env _ hhead, hno env _ hhead]
    exact .ok (.parens hjs h) .no

namespace Tested

variable {test : Lexeme → Bool} {no a : α} {yes : Lexeme → α} {is js : List Lexeme}

/-- Behind a lexeme that asks for more there is one. -/
theorem need_le {l : Lexeme} (hl : l.token ≠ .symbol "(") (hfit : Fit κ.ended (l :: js))
    (hasks : l.asks = true) : κ.need ≤ js.length := by
  cases κ with
  | limited => exact List.length_pos_iff.mpr (hfit.ne_nil hl rfl hasks)
  | _ => exact Nat.zero_le _

end Tested

end QueryGate.Sql.Parser
