import QueryGate.Proofs.ExpiringCache
import QueryGate.SourceSession

namespace QueryGate

/-!
# How stale an answer can be

A cached source answers from memory what the source behind it answered less than a fixed time ago,
and everything else it asks the source for:

* `SourceSession.Remembers` — what a history leaves in memory for a data source;
* `SourceSession.lastKept` — the same, followed step by step;
* `SourceSession.Simulates` — a session agrees with a history, which `Simulates.step` preserves;
* `SourceSession.lookup_bounded` — what a look-up answers after any history.
-/

/-- The memory after an invalidation, whatever is logged. -/
theorem CachedSource.invalidate_value (s : CachedSource) (name : String) :
    (s.invalidate name).value = ⟨(s.cache.invalidate name).2⟩ := by
  rw [invalidate]
  split <;> next hresult => rw [hresult]; rfl

namespace SourceSession

variable {ε : Type}

/-! ### Histories -/

/-- How much time a step takes. -/
def takes : SourceStep ε → Option Duration
  | .advance d => some d
  | _ => none

/-- The time that a history takes. -/
def elapsed (history : List (SourceStep ε)) : Nat := timeOf takes history

theorem elapsed_concat (history : List (SourceStep ε)) (st : SourceStep ε) :
    elapsed (history ++ [st]) = tick (elapsed history) (takes st) := timeOf_concat

/-- The source behind after a step. -/
def sourceAfter (other : String → Logged (Except ε AllowList)) :
    SourceStep ε → String → Logged (Except ε AllowList)
  | .change other' => other'
  | _ => other

section Spec

variable (made : Moment) (ttl : Duration) (other : String → Logged (Except ε AllowList))

/-- The source behind after a history that starts with another one. -/
def source (history : List (SourceStep ε)) : String → Logged (Except ε AllowList) :=
  history.foldl sourceAfter other

/-- What a look-up tells: whether the source behind is asked, the answer, and the events. -/
def tells (r : Logged (LookupResult ε)) : Bool × Option (Except ε AllowList) × List Event :=
  (r.value.asked, r.value.answer, r.events)

/-- A look-up that is made after a history. -/
def lookupAfter (history : List (SourceStep ε)) (name : String) : Logged (LookupResult ε) :=
  ((start made ttl other).run history).lookup name

/-- Whether a step that is made after a history settles what is remembered for a data source: a
    look-up that gets an allow-list from the source behind, or one that is forgotten. -/
def Settles (name : String) (history : List (SourceStep ε)) : SourceStep ε → Prop
  | .lookup name' => name' = name ∧ (lookupAfter made ttl other history name').value.asked = true ∧
      ∃ a, (lookupAfter made ttl other history name').value.answer = some (.ok a)
  | .invalidate name' => name' = name
  | .clear => True
  | _ => False

/-- What a history leaves in memory for a data source: what the source behind answered when it was
    asked last, less than the time ago. -/
def Remembers (history : List (SourceStep ε)) (name : String) (a : AllowList) : Prop :=
  ∃ past, LastStep (Settles made ttl other name) history past (.lookup name) ∧
    elapsed history - elapsed past < ttl.ns ∧ (source other past name).value = .ok a

end Spec

/-! ### What is remembered -/

/-- What a look-up of a data source gets from the source behind and keeps. -/
def kept (ttl : Duration) (time : Nat) (answer : Except ε AllowList)
    (last : Option (AllowList × Nat)) : Option AllowList :=
  match TtlCache.freshValue ttl time last, answer with
  | none, .ok a => if Showable (time + ttl.ns) then some a else none
  | _, _ => none

/-- What a look-up tells at some time, given what was kept last and what the source behind replies. -/
def told (ttl : Duration) (time : Nat) (name : String) (reply : Logged (Except ε AllowList))
    (last : Option (AllowList × Nat)) : Bool × Option (Except ε AllowList) × List Event :=
  if Showable time then
    match TtlCache.freshValue ttl time last, reply.value with
    | some a, _ => (false, some (.ok a), [CachedSource.hitEvent name])
    | none, .error e => (true, some (.error e), reply.events)
    | none, .ok a =>
      (true, if Showable (time + ttl.ns) then some (.ok a) else none,
        reply.events ++ [CachedSource.refreshedEvent name a ttl])
  else (false, none, [])

/-- What was kept of a data source last, and when, after a step at some time. -/
def keptAfter (ttl : Duration) (name : String) (time : Nat)
    (other : String → Logged (Except ε AllowList)) (last : Option (AllowList × Nat)) :
    SourceStep ε → Option (AllowList × Nat)
  | .lookup name' =>
    if name' == name then
      match kept ttl time (other name').value last with
      | some a => some (a, time)
      | none => last
    else last
  | .invalidate name' => if name' == name then none else last
  | .clear => none
  | _ => last

/-- What a look-up that keeps nothing leaves. -/
theorem keptAfter_of_kept_eq_none {ttl : Duration} {name : String} {time : Nat}
    {other : String → Logged (Except ε AllowList)} {last : String → Option (AllowList × Nat)}
    (h : kept ttl time (other name).value (last name) = none) :
    (fun name' => keptAfter ttl name' time other (last name') (.lookup name)) = last := by
  funext name'
  by_cases hname : name = name'
  · subst hname
    simp [keptAfter, h]
  · simp [keptAfter, hname]

/-- What a look-up that keeps an allow-list leaves. -/
theorem keptAfter_of_kept_eq_some {ttl : Duration} {name : String} {time : Nat} {a : AllowList}
    {other : String → Logged (Except ε AllowList)} {last : String → Option (AllowList × Nat)}
    (h : kept ttl time (other name).value (last name) = some a) :
    (fun name' => keptAfter ttl name' time other (last name') (.lookup name)) =
      fun name' => if name == name' then some (a, time) else last name' := by
  funext name'
  by_cases hname : name = name'
  · subst hname
    simp [keptAfter, h]
  · simp [keptAfter, hname]

/-- A look-up of a session whose cache holds what was kept last. -/
theorem lookup_spec (s : SourceSession ε) {last : String → Option (AllowList × Nat)} {time : Nat}
    (htime : s.clock.made.ns + s.clock.elapsed.ns = time) (hholds : s.cached.cache.Holds time last)
      (name : String) :
    tells (s.lookup name)
        = told s.cached.cache.ttl time name (s.other name) (last name) ∧
      (s.lookup name).value.source.cache.ttl = s.cached.cache.ttl ∧
      (s.lookup name).value.source.cache.Holds time fun name' =>
        keptAfter s.cached.cache.ttl name' time s.other (last name') (.lookup name) := by
  have hget := hholds.get name
  have httl := TtlCache.get_ttl s.cached.cache ⟨time⟩ name
  have hremembered : s.cached.remembered ⟨time⟩ name =
      (TtlCache.freshValue s.cached.cache.ttl time (last name),
        ⟨(s.cached.cache.get ⟨time⟩ name).2⟩) :=
    Prod.ext (hholds.get_fst name) rfl
  rw [lookup, CachedSource.lookup, Clock.now?_eq, htime]
  by_cases hnow : Showable time
  · rw [if_pos hnow]
    dsimp only
    rw [hremembered, told, if_pos hnow]
    cases hfresh : TtlCache.freshValue s.cached.cache.ttl time (last name) with
    | some a =>
      -- the cache answers
      rw [keptAfter_of_kept_eq_none (by simp only [kept, hfresh])]
      exact ⟨rfl, httl, hget⟩
    | none =>
      -- the source behind does
      cases hother : s.other name with
      | mk answer events =>
        cases answer with
        | error e =>
          rw [keptAfter_of_kept_eq_none (by simp only [kept, hfresh, hother])]
          exact ⟨by simp [tells, bind, Logged.andThen, pure, Logged.silent], httl, hget⟩
        | ok a =>
          by_cases hfits : Showable (time + s.cached.cache.ttl.ns)
          · have hkept : kept s.cached.cache.ttl time (s.other name).value (last name) = some a := by
              simp only [kept, hfresh, hother, if_pos hfits]
            obtain ⟨c, hins⟩ :
                ∃ c, (s.cached.cache.get ⟨time⟩ name).2.insert? ⟨time⟩ name a = some c := by
              rw [TtlCache.insert?_eq, httl, if_pos hfits]
              exact ⟨_, rfl⟩
            rw [keptAfter_of_kept_eq_some hkept]
            simp only [bind, Logged.andThen, pure, Logged.silent, CachedSource.remember?, hins,
              if_pos hfits]
            exact ⟨by simp [tells, Logged.report, httl], (TtlCache.ttl_of_insert? hins).trans httl,
              hget.insert name a hins⟩
          · have hkept : kept s.cached.cache.ttl time (s.other name).value (last name) = none := by
              simp only [kept, hfresh, hother, if_neg hfits]
            have hins : (s.cached.cache.get ⟨time⟩ name).2.insert? ⟨time⟩ name a = none := by
              rw [TtlCache.insert?_eq, httl, if_neg hfits]
            rw [keptAfter_of_kept_eq_none hkept]
            simp only [bind, Logged.andThen, pure, Logged.silent, CachedSource.remember?, hins,
              if_neg hfits]
            exact ⟨by simp [tells, Logged.report, httl], httl, hget⟩
  · have hkept : kept s.cached.cache.ttl time (s.other name).value (last name) = none := by
      unfold kept
      split
      · exact if_neg fun hfits => hnow (hfits.of_le (Nat.le_add_right _ _))
      · rfl
    rw [if_neg hnow, told, if_neg hnow, keptAfter_of_kept_eq_none hkept]
    exact ⟨rfl, rfl, hholds⟩

/-! ### Following a history -/

section Follow

variable (made : Moment) (ttl : Duration) (other : String → Logged (Except ε AllowList))
  (name : String)
variable (history : List (SourceStep ε))

/-- The time, the source behind, and what was kept of a data source last, after a history. -/
def follow : Nat × (String → Logged (Except ε AllowList)) × Option (AllowList × Nat) :=
  history.foldl (fun s st => (tick s.1 (takes st), sourceAfter s.2.1 st,
    keptAfter ttl name (made.ns + s.1) s.2.1 s.2.2 st)) (0, other, none)

/-- What was kept of a data source last, and when. -/
def lastKept : Option (AllowList × Nat) := (follow made ttl other name history).2.2

end Follow

variable {made : Moment} {ttl : Duration} {other : String → Logged (Except ε AllowList)}
  {name : String}
variable {history : List (SourceStep ε)} {s : SourceSession ε} {st : SourceStep ε}

/-- What is followed along a history is followed step by step from the left. -/
theorem follow_concat : follow made ttl other name (history ++ [st]) =
    (tick (follow made ttl other name history).1 (takes st),
      sourceAfter (follow made ttl other name history).2.1 st,
      keptAfter ttl name (made.ns + (follow made ttl other name history).1)
        (follow made ttl other name history).2.1
        (follow made ttl other name history).2.2 st) := by
  simp [follow]

theorem source_concat : source other (history ++ [st]) = sourceAfter (source other history) st := by
  simp [source]

/-- The three things that are followed together are the three that are read off one by one. -/
theorem follow_eq : follow made ttl other name history =
    (elapsed history, source other history, lastKept made ttl other name history) := by
  induction history using List.reverseRecOn with
  | nil => rfl
  | append_singleton history st ih =>
    rw [lastKept, follow_concat, ih, elapsed_concat, source_concat]

/-- The last answer kept, one step later: the step sees the source and the time before it. -/
theorem lastKept_concat : lastKept made ttl other name (history ++ [st]) =
    keptAfter ttl name (shownAfter takes made history) (source other history)
      (lastKept made ttl other name history) st := by
  rw [lastKept, follow_concat, follow_eq, shownAfter, elapsed]

/-! ### Sessions -/

/-- A session agrees with a history: its clock was made at the moment and shows the time, it has the
    source behind, and its cache holds what was kept last. -/
structure Simulates (made : Moment) (ttl : Duration)
    (other : String → Logged (Except ε AllowList)) (history : List (SourceStep ε))
      (s : SourceSession ε) : Prop where
  made_eq : s.clock.made = made
  time_eq : s.clock.elapsed.ns = elapsed history
  other_eq : s.other = source other history
  ttl_eq : s.cached.cache.ttl = ttl
  holds : s.cached.cache.Holds (shownAfter takes made history) fun name => lastKept made ttl other
    name history

/-- A session that begins has remembered nothing. -/
theorem Simulates.start (made : Moment) (ttl : Duration)
    (other : String → Logged (Except ε AllowList)) :
    Simulates made ttl other [] (SourceSession.start made ttl other) :=
  ⟨rfl, rfl, rfl, rfl, .empty ttl _⟩

/-- A step on the cache alone. -/
theorem Simulates.cached (h : Simulates made ttl other history s) {cached : CachedSource}
    (htakes : takes st = none) (hsource : ∀ other : String → Logged (Except ε AllowList),
      sourceAfter other st = other)
    (httl : cached.cache.ttl = s.cached.cache.ttl)
    (hholds : cached.cache.Holds (shownAfter takes made history) fun name =>
      keptAfter ttl name (shownAfter takes made history) (source other history)
        (lastKept made ttl other name history) st) :
    Simulates made ttl other (history ++ [st]) { s with cached } where
  made_eq := h.made_eq
  time_eq := by rw [elapsed_concat, htakes, tick, h.time_eq]
  other_eq := by rw [source_concat, hsource, h.other_eq]
  ttl_eq := httl.trans h.ttl_eq
  holds := by
    simp only [shownAfter_concat made history htakes, lastKept_concat]
    exact hholds

/-- What the clock of such a session shows. -/
theorem Simulates.shown_eq (h : Simulates made ttl other history s) :
    s.clock.made.ns + s.clock.elapsed.ns = shownAfter takes made history := by
  rw [h.made_eq, h.time_eq, shownAfter, elapsed]

/-- The session after a look-up, whether or not that panics. -/
theorem step_lookup_fst (s : SourceSession ε) (name : String) :
    (s.step (.lookup name)).value.1 = { s with cached := (s.lookup name).value.source } := by
  simp only [SourceSession.step, bind, Logged.andThen]
  split <;> rfl

/-- **A step.** A session that agrees with a history agrees with it after a step of both. -/
theorem Simulates.step (h : Simulates made ttl other history s) (st : SourceStep ε) :
    Simulates made ttl other (history ++ [st]) (s.step st).value.1 := by
  cases st with
  | lookup name =>
    obtain ⟨-, httl, hholds⟩ := lookup_spec s h.shown_eq h.holds name
    rw [h.ttl_eq, h.other_eq] at hholds
    rw [step_lookup_fst]
    -- a look-up keeps what the specification of one look-up says
    exact h.cached rfl (fun _ => rfl) httl hholds
  | invalidate name =>
    have hstep : (s.step (.invalidate name)).value.1 =
        { s with cached := ⟨(s.cached.cache.invalidate name).2⟩ } := by
      rw [← CachedSource.invalidate_value]
      rfl
    rw [hstep]
    exact h.cached rfl (fun _ => rfl) rfl (h.holds.invalidate name)
  | clear => exact h.cached rfl (fun _ => rfl) rfl (.clear _ _)
  | advance d =>
    -- time that cannot be counted is refused, and the clock stands still
    have htick : elapsed (history ++ [(SourceStep.advance d : SourceStep ε)]) =
        if Countable (elapsed history + d.ns) then elapsed history + d.ns else elapsed history := by
      rw [elapsed_concat, takes, tick]
    rw [SourceSession.step, Clock.advance?_eq, h.time_eq]
    by_cases hfits : Countable (elapsed history + d.ns)
    · rw [if_pos hfits] at htick ⊢
      refine ⟨h.made_eq, htick.symm, by rw [source_concat]; exact h.other_eq, h.ttl_eq, ?_⟩
      rw [shownAfter, ← elapsed, htick]
      simp only [lastKept_concat, keptAfter]
      -- what was held earlier is held later, if it is still fresh
      exact h.holds.later (Nat.add_le_add_left (Nat.le_add_right _ _) _)
    · rw [if_neg hfits] at htick ⊢
      refine ⟨h.made_eq, htick ▸ h.time_eq, by rw [source_concat]; exact h.other_eq, h.ttl_eq, ?_⟩
      rw [shownAfter, ← elapsed, htick]
      simp only [lastKept_concat, keptAfter]
      exact h.holds
  | change other' =>
    refine ⟨h.made_eq, by rw [elapsed_concat]; exact h.time_eq, by rw [source_concat]; rfl,
      h.ttl_eq, ?_⟩
    -- what is remembered does not depend on the source behind
    rw [shownAfter_concat made history rfl]
    simp only [lastKept_concat, keptAfter]
    exact h.holds

/-- A run takes its last step from where the steps before it lead. -/
theorem run_concat (s : SourceSession ε) (history : List (SourceStep ε)) (st : SourceStep ε) :
    s.run (history ++ [st]) = ((s.run history).step st).value.1 := by
  simp [run]

/-- **A run.** A memory that starts empty agrees with what was done to it. -/
theorem simulates_run (made : Moment) (ttl : Duration) (other : String → Logged (Except ε AllowList))
    (history : List (SourceStep ε)) :
    Simulates made ttl other history ((SourceSession.start made ttl other).run history) := by
  induction history using List.reverseRecOn with
  | nil => exact .start made ttl other
  | append_singleton history st ih =>
    rw [run_concat]
    exact ih.step st

/-- What a look-up tells after a history. -/
theorem lookupAfter_told (made : Moment) (ttl : Duration)
    (other : String → Logged (Except ε AllowList))
    (history : List (SourceStep ε)) (name : String) :
    tells (lookupAfter made ttl other history name) =
      told ttl (shownAfter takes made history) name (source other history name)
        (lastKept made ttl other name history) := by
  have hrun := simulates_run made ttl other history
  obtain ⟨htold, -⟩ := lookup_spec _ hrun.shown_eq hrun.holds name
  rw [hrun.ttl_eq, hrun.other_eq] at htold
  exact htold

/-! ### Memory and history -/

/-- An answer is kept only if it is an allow-list, the clock can show its end, and no fresh answer
    was there. -/
theorem of_kept_eq_some {time : Nat} {answer : Except ε AllowList} {last : Option (AllowList × Nat)}
    {a : AllowList} (h : kept ttl time answer last = some a) :
    answer = .ok a ∧ Showable (time + ttl.ns) ∧ TtlCache.freshValue ttl time last = none := by
  unfold kept at h
  split at h
  · next hfresh =>
    split at h
    · next hfits =>
      cases h
      exact ⟨rfl, hfits, hfresh⟩
    · cases h
  · cases h

/-- The source behind is asked and answers with an allow-list iff that is kept. -/
theorem told_fetched_iff (name : String) {time : Nat} {reply : Logged (Except ε AllowList)}
    {last : Option (AllowList × Nat)} {a : AllowList} :
    (told ttl time name reply last).1 = true ∧ (told ttl time name reply last).2.1 = some (.ok a) ↔
      kept ttl time reply.value last = some a := by
  constructor
  · rintro ⟨hasked, hanswer⟩
    -- asked, with an allow-list for an answer: the only branch that keeps one
    unfold told at hasked hanswer
    split at hasked
    · next hnow =>
      rw [if_pos hnow] at hanswer
      split at hasked
      · cases hasked
      · next hfresh hreply =>
        simp [hfresh, hreply] at hanswer
      · next hfresh hreply =>
        simpa [hfresh, hreply, kept] using hanswer
    · cases hasked
  · intro h
    obtain ⟨hreply, hfits, hfresh⟩ := of_kept_eq_some h
    -- an end that can be shown lies behind a moment that can be shown
    have hnow : Showable time := hfits.of_le (Nat.le_add_right _ _)
    simp [told, hnow, hfresh, hreply, hfits]

/-- A look-up settles what is remembered iff it keeps what it gets. -/
theorem settles_lookup_iff : Settles made ttl other name history (.lookup name) ↔
    ∃ a, kept ttl (shownAfter takes made history) (source other history name).value
      (lastKept made ttl other name history) = some a := by
  have htold := lookupAfter_told made ttl other history name
  simp only [← told_fetched_iff name, ← htold, tells, Settles, true_and, exists_and_left]

/-- A step that settles what is remembered of a data source remembers what the source behind
    answers, if it is a look-up. -/
theorem keptAfter_of_settles (h : Settles made ttl other name history st)
    (a : AllowList) (time : Nat) : lastKept made ttl other name (history ++ [st]) = some (a, time) ↔
      st = .lookup name ∧ time = shownAfter takes made history ∧
        (source other history name).value = .ok a := by
  rw [lastKept_concat]
  cases st with
  -- of the steps that settle only a look-up leaves an answer
  | lookup name' =>
    obtain rfl : name' = name := h.1
    obtain ⟨a', hkept⟩ := settles_lookup_iff.mp h
    obtain ⟨hsource, -⟩ := of_kept_eq_some hkept
    rw [keptAfter, if_pos (beq_self_eq_true name'), hkept, hsource]
    simp only [Option.some.injEq, Prod.mk.injEq, Except.ok.injEq, true_and]
    exact ⟨fun h => ⟨h.2.symm, h.1⟩, fun h => ⟨h.2, h.1.symm⟩⟩
  | invalidate name' =>
    obtain rfl : name' = name := h
    simp [keptAfter]
  | clear => simp [keptAfter]
  | advance | change => cases h

/-- Any other step leaves what is remembered of it. -/
theorem keptAfter_of_not_settles (h : ¬Settles made ttl other name history st) :
    lastKept made ttl other name (history ++ [st]) = lastKept made ttl other name history := by
  rw [lastKept_concat]
  cases st with
  | lookup name' =>
    by_cases hname : name' = name
    · subst hname
      rw [settles_lookup_iff, ← Option.ne_none_iff_exists', not_not] at h
      simp [keptAfter, h]
    · simp [keptAfter, hname]
  | invalidate name' => simp_all [keptAfter, Settles]
  | clear => exact absurd trivial h
  | advance | change => rfl

/-- **What was kept last** is what the source behind answered at the last step that settles it. -/
theorem lastKept_eq_some_iff {a : AllowList} {time : Nat} :
    lastKept made ttl other name history = some (a, time) ↔
      ∃ past, LastStep (Settles made ttl other name) history past (.lookup name) ∧
        time = shownAfter takes made past ∧ (source other past name).value = .ok a := by
  induction history using List.reverseRecOn with
  | nil => simp [not_lastStep_nil, lastKept, follow]
  | append_singleton history st ih =>
    -- the last answer is that of the last step that settles
    by_cases hsettles : Settles made ttl other name history st
    · rw [keptAfter_of_settles hsettles]
      simp only [lastStep_concat, hsettles, true_and, not_true_eq_false, false_and, or_false]
      constructor
      · rintro ⟨rfl, htime, hsource⟩
        exact ⟨history, ⟨rfl, rfl⟩, htime, hsource⟩
      · rintro ⟨past, ⟨rfl, rfl⟩, htime, hsource⟩
        exact ⟨rfl, htime, hsource⟩
    · rw [keptAfter_of_not_settles hsettles, ih]
      simp only [lastStep_concat, hsettles, false_and, not_false_eq_true, true_and, false_or]

/-- The cache gives out what is remembered. -/
theorem remembers_iff {a : AllowList} : Remembers made ttl other history name a ↔
    TtlCache.freshValue ttl (shownAfter takes made history) (lastKept made ttl other name history) =
      some a := by
  -- the last answer was kept in the past
  have hpast : ∀ time, lastKept made ttl other name history = some (a, time) →
      time ≤ shownAfter takes made history := by
    intro time hlast
    obtain ⟨past, hsettles, rfl, -⟩ := lastKept_eq_some_iff.mp hlast
    exact hsettles.shownAfter_le takes made
  rw [Remembers, TtlCache.freshValue_eq_some_iff hpast]
  constructor
  · rintro ⟨past, hsettles, hfresh, hsource⟩
    refine ⟨_, lastKept_eq_some_iff.mpr ⟨past, hsettles, rfl, hsource⟩, ?_⟩
    rwa [shownAfter_sub_shownAfter]
  · rintro ⟨time, hlast, hfresh⟩
    obtain ⟨past, hsettles, rfl, hsource⟩ := lastKept_eq_some_iff.mp hlast
    exact ⟨past, hsettles, shownAfter_sub_shownAfter takes made history past ▸ hfresh, hsource⟩

/-! ### Look-ups -/

/-- A look-up does not tell of what is done about other data sources. -/
theorem follow_of_elsewhere (made : Moment) (ttl : Duration)
    (other : String → Logged (Except ε AllowList))
    (history later : List (SourceStep ε)) {name' : String} (hne : name' ≠ name)
    (hst : st = .lookup name ∨ st = .invalidate name) :
    follow made ttl other name' (history ++ st :: later) =
      follow made ttl other name' (history ++ later) := by
  induction later using List.reverseRecOn with
  | nil =>
    have hname : (name == name') = false := beq_false_of_ne hne.symm
    rw [List.append_nil, follow_concat, follow_eq]
    obtain rfl | rfl := hst <;> simp [takes, tick, sourceAfter, keptAfter, hname]
  | append_singleton later st' ih =>
    rw [← List.cons_append, ← List.append_assoc, ← List.append_assoc, follow_concat, follow_concat,
      ih]

/-- The events of an answer from the source behind: those of the source, and that an allow-list was
    kept. -/
def fetchEvents (ttl : Duration) (name : String) (reply : Logged (Except ε AllowList)) : List Event :=
  match reply.value with
  | .ok a => reply.events ++ [CachedSource.refreshedEvent name a ttl]
  | .error _ => reply.events

/-- A look-up for which the clock has a moment is answered from memory or by the source behind. -/
theorem told_cases {time : Nat} {reply : Logged (Except ε AllowList)}
    {last : Option (AllowList × Nat)} (h : (told ttl time name reply last).2.1 ≠ none) :
    (∃ a, TtlCache.freshValue ttl time last = some a ∧
      told ttl time name reply last = (false, some (.ok a), [CachedSource.hitEvent name])) ∨
    (TtlCache.freshValue ttl time last = none ∧
      told ttl time name reply last = (true, some reply.value, fetchEvents ttl name reply)) := by
  by_cases hnow : Showable time
  · cases hfresh : TtlCache.freshValue ttl time last with
    | some a => exact .inl ⟨a, rfl, by simp [told, hnow, hfresh]⟩
    | none =>
      refine .inr ⟨rfl, ?_⟩
      cases hreply : reply.value with
      | error e => simp [told, hnow, hfresh, hreply, fetchEvents]
      | ok a =>
        -- without a moment at which it goes stale there is no answer
        have hfits : Showable (time + ttl.ns) := by
          by_contra hfits
          simp [told, hnow, hfresh, hreply, hfits] at h
        simp [told, hnow, hfresh, hreply, fetchEvents, hfits]
  · simp [told, hnow] at h

/-- A failure leaves what is remembered. -/
theorem remembers_concat_of_error {e : ε} {a : AllowList}
    (h : (source other history name).value = .error e) :
    Remembers made ttl other (history ++ [SourceStep.lookup name]) name a ↔
      Remembers made ttl other history name a := by
  have hkept : kept ttl (shownAfter takes made history) (source other history name).value
      (lastKept made ttl other name history) = none := by
    rw [h]
    cases hfresh : TtlCache.freshValue ttl (shownAfter takes made history)
      (lastKept made ttl other name history) <;>
      simp only [kept, hfresh]
  have htakes : takes (SourceStep.lookup name : SourceStep ε) = none := rfl
  simp only [remembers_iff, lastKept_concat, shownAfter_concat made history htakes, keptAfter,
    beq_self_eq_true, if_true, hkept]

/-- **Bounded staleness.** A look-up for which the clock has a moment. -/
theorem lookup_bounded (made : Moment) (ttl : Duration) (other : String → Logged (Except ε AllowList))
    (history : List (SourceStep ε)) (name : String)
    (hclock : (lookupAfter made ttl other history name).value.answer ≠ none) :
    -- it does not ask the source behind iff an allow-list is remembered
    ((lookupAfter made ttl other history name).value.asked = false ↔
      ∃ a, Remembers made ttl other history name a) ∧
    -- and then answers what was remembered
    (∀ a, Remembers made ttl other history name a → tells (lookupAfter made ttl other history name) =
      (false, some (.ok a), [CachedSource.hitEvent name])) ∧
    -- otherwise it asks once and answers as the source behind does
    ((lookupAfter made ttl other history name).value.asked = true →
      tells (lookupAfter made ttl other history name) =
        (true, some (source other history name).value,
          fetchEvents ttl name (source other history name))) ∧
    -- a failure is not remembered
    (∀ e, (lookupAfter made ttl other history name).value.answer = some (.error e) →
      ∀ a, ¬Remembers made ttl other (history ++ [SourceStep.lookup name]) name a) ∧
    -- neither a look-up nor an invalidation of a data source is observed through another one
    ∀ st : SourceStep ε, st = .lookup name ∨ st = .invalidate name → ∀ name', name' ≠ name → ∀ later,
      tells (lookupAfter made ttl other (history ++ st :: later) name') =
        tells (lookupAfter made ttl other (history ++ later) name') := by
  have htold := lookupAfter_told made ttl other history name
  have hasked := congrArg Prod.fst htold
  have hanswer := congrArg (fun r => r.2.1) htold
  simp only [tells] at hasked hanswer
  rw [hanswer] at hclock
  have helsewhere : ∀ st : SourceStep ε, st = .lookup name ∨ st = .invalidate name →
      ∀ name', name' ≠ name →
      ∀ later, tells (lookupAfter made ttl other (history ++ st :: later) name') =
        tells (lookupAfter made ttl other (history ++ later) name') := by
    intro st hst name' hne later
    have hfollow := follow_of_elsewhere made ttl other history later hne hst
    simp only [follow_eq, Prod.mk.injEq] at hfollow
    rw [lookupAfter_told, lookupAfter_told, shownAfter, shownAfter, ← elapsed, ← elapsed, hfollow.1,
      hfollow.2.1, hfollow.2.2]
  obtain ⟨a, hfresh, hcase⟩ | ⟨hfresh, hcase⟩ := told_cases hclock
  · -- what is remembered is fresh
    have hremembers : ∀ a', Remembers made ttl other history name a' ↔ a = a' := by
      intro a'
      rw [remembers_iff, hfresh, Option.some.injEq]
    rw [hasked, hanswer, htold, hcase]
    refine ⟨⟨fun _ => ⟨a, (hremembers a).mpr rfl⟩, fun _ => rfl⟩, ?_, ?_, ?_, helsewhere⟩
    · intro a' ha
      rw [(hremembers a').mp ha]
    · intro h
      cases h
    · intro e h
      cases h
  · -- nothing is remembered
    have hremembers : ∀ a, ¬Remembers made ttl other history name a := by
      intro a
      rw [remembers_iff, hfresh]
      intro h
      cases h
    rw [hasked, hanswer, htold, hcase]
    refine ⟨⟨fun h => Bool.noConfusion h, ?_⟩, fun a ha => absurd ha (hremembers a), fun _ => rfl, ?_,
      helsewhere⟩
    · rintro ⟨a, ha⟩
      exact absurd ha (hremembers a)
    · intro e he a ha
      exact hremembers a ((remembers_concat_of_error (Option.some.inj he)).mp ha)

/-- A source that knows one data source. -/
def staffSource (name : String) : Logged (Except UnknownSource AllowList) :=
  .silent ((FixedSource.empty.put "staff" ⟨[⟨["t"]⟩], none⟩).allowedTables name)

/-- Looked up, looked up in vain, and half of the time later gone. -/
def staffGone : List (SourceStep UnknownSource) :=
  [.lookup "staff", .lookup "sales", .change fun name => .silent
    (FixedSource.empty.allowedTables name),
    .advance (.ofSeconds 5)]

/-- A data source that has gone is still answered from memory, with the list asked for before. -/
theorem staffGone_bounded : ∃ a, Remembers ⟨7⟩ (.ofSeconds 10) staffSource staffGone "staff" a ∧
    tells (lookupAfter ⟨7⟩ (.ofSeconds 10) staffSource staffGone "staff") =
      (false, some (.ok a), [CachedSource.hitEvent "staff"]) :=
  have hbounded := lookup_bounded ⟨7⟩ (.ofSeconds 10) staffSource staffGone "staff"
    (Option.isSome_iff_ne_none.mp (by decide))
  have ⟨a, ha⟩ := hbounded.1.mp (by decide)
  ⟨a, ha, hbounded.2.1 a ha⟩

end SourceSession

end QueryGate
