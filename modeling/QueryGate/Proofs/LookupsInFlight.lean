import QueryGate.Proofs.BoundedStaleness
import QueryGate.SourceCalls

namespace QueryGate

/-!
# Look-ups in flight and invalidations

An invalidation empties the cache, but not the hands of a look-up that has its answer and is about to
keep it:

* `SourceCalls.run_alone` — a look-up that nothing comes between is the look-up of a cached source;
* `SourceCalls.Settled` — where the entries and the answers in flight of a data source come from once
  it was invalidated, which `Settled.step` preserves;
* `SourceCalls.answered_since_or_overtaken` — a look-up that starts later answers what the source
  behind has held since, or what another look-up had got before and kept in between.
-/

namespace TtlCache

variable {κ ν : Type} [BEq κ] [LawfulBEq κ] {c : TtlCache κ ν} {key k : κ} {e : CacheEntry ν}

/-- A look-up adds no entry. -/
theorem mem_of_mem_get {now : Moment} (h : (k, e) ∈ (c.get now key).2.entries) :
    (k, e) ∈ c.entries := by
  rw [get] at h
  split at h
  · split at h
    · exact h
    · exact (mem_erase.mp h).1
  · exact h

/-- What is given out is the value of an entry. -/
theorem mem_of_get {now : Moment} {v : ν} (h : (c.get now key).1 = some v) :
    ∃ e, (key, e) ∈ c.entries ∧ e.value = v := by
  rw [get] at h
  split at h
  · next e hentry =>
    split at h
    · cases h
      exact ⟨e, mem_of_lookup hentry, rfl⟩
    · cases h
  · cases h

/-- An insertion adds one entry. -/
theorem mem_of_mem_insert? {now : Moment} {v : ν} {c' : TtlCache κ ν}
    (hc : c.insert? now key v = some c') (h : (k, e) ∈ c'.entries) :
    (k, e) ∈ c.entries ∨ (k = key ∧ e.value = v) := by
  rw [insert?_eq] at hc
  split at hc
  · cases hc
    obtain heq | h := List.mem_cons.mp h
    · cases heq
      exact .inr ⟨rfl, rfl⟩
    · exact .inl (mem_erase.mp h).1
  · cases hc

end TtlCache

namespace SourceCalls

variable {ε : Type}

/-! ### What an action does -/

section Actions

variable {s : SourceCalls ε} {x : SourceAction ε} {name : String} {a : AllowList} {c : Nat}

@[simp] theorem put_calls (s : SourceCalls ε) (call : Nat) (p : SourceCall ε) (cached : CachedSource)
    (k : Nat) : (s.put call p cached).calls k = if k = call then some p else s.calls k := rfl

@[simp] theorem put_cached (s : SourceCalls ε) (call : Nat) (p : SourceCall ε)
    (cached : CachedSource) :
    (s.put call p cached).cached = cached := rfl

/-- What an action can do: to the look-ups, and to the entries of the cache. -/
inductive Moves (s : SourceCalls ε) (x : SourceAction ε) : SourceCalls ε → Prop where
  /-- No look-up moves, and no entry is added. -/
  | still {s' : SourceCalls ε} (hcalls : s'.calls = s.calls)
      (hentries : s'.cached.cache.entries ⊆ s.cached.cache.entries) : Moves s x s'
  /-- A look-up starts, and is answered by an entry if it is answered. -/
  | start {c : Nat} {name : String} {p : SourceCall ε} {cached : CachedSource}
      (hnew : s.calls c = none) (hentries : cached.cache.entries ⊆ s.cached.cache.entries)
      (hp : p = .missed name ∨ p = .answered name none ∨
        ∃ e, (name, e) ∈ s.cached.cache.entries ∧ p = .answered name (some (.ok e.value))) :
      Moves s x (s.put c p cached)
  /-- The source behind answers a look-up. -/
  | fetch {c : Nat} {name : String} {p : SourceCall ε} (hmissed : s.calls c = some (.missed name))
      (hp : (∃ a, s.other name = .ok a ∧ p = .fetched name a) ∨
        ∃ e, p = .answered name (some (.error e))) : Moves s x (s.put c p s.cached)
  /-- A look-up keeps its answer, if there is a moment at which it goes stale. -/
  | finish {c : Nat} {name : String} {a : AllowList} {r : Option (Except ε AllowList)}
      {cached : CachedSource} (hx : x = .finish c) (hfetched : s.calls c = some (.fetched name a))
      (hr : r = some (.ok a) ∨ r = none)
      (hentries : ∀ k e, (k, e) ∈ cached.cache.entries →
        (k, e) ∈ s.cached.cache.entries ∨ (k = name ∧ e.value = a)) :
      Moves s x (s.put c (.answered name r) cached)

/-- Asking the cache moves the look-up that asks. -/
theorem moves_start (s : SourceCalls ε) (c : Nat) (name : String) :
    Moves s (.start c name) (s.step (.start c name)) := by
  rw [step]
  split
  · exact .still rfl (List.Subset.refl _)
  · next hnew _ => exact .start hnew (List.Subset.refl _) (.inr (.inl rfl))
  · next now hnew _ =>
    -- a look-up may drop an entry but adds none
    have hentries : (s.cached.remembered now name).2.cache.entries ⊆ s.cached.cache.entries :=
      fun ⟨_, _⟩ h => TtlCache.mem_of_mem_get h
    split
    · next a cached hresult =>
      rw [hresult] at hentries
      obtain ⟨e, hmem, rfl⟩ := TtlCache.mem_of_get (congrArg Prod.fst hresult)
      exact .start hnew hentries (.inr (.inr ⟨e, hmem, rfl⟩))
    · next cached hresult =>
      rw [hresult] at hentries
      exact .start hnew hentries (.inl rfl)

/-- An answer of the source behind moves the look-up that waits for it. -/
theorem moves_fetch (s : SourceCalls ε) (c : Nat) : Moves s (.fetch c) (s.step (.fetch c)) := by
  rw [step]
  split
  · next name hmissed =>
    split
    · next a hother => exact .fetch hmissed (.inl ⟨a, hother, rfl⟩)
    · next e _ => exact .fetch hmissed (.inr ⟨e, rfl⟩)
  · exact .still rfl (List.Subset.refl _)

/-- Keeping an answer moves the look-up that got it. -/
theorem moves_finish (s : SourceCalls ε) (c : Nat) : Moves s (.finish c) (s.step (.finish c)) := by
  rw [step]
  split
  · next name a hfetched =>
    split
    · next cached hkept =>
      refine .finish rfl hfetched (.inl rfl) ?_
      intro k e hmem
      obtain ⟨now, -, hremember⟩ := Option.bind_eq_some_iff.mp hkept
      obtain ⟨cache, hinsert, rfl⟩ := Option.map_eq_some_iff.mp hremember
      exact TtlCache.mem_of_mem_insert? hinsert hmem
    · exact .finish rfl hfetched (.inr rfl) fun _ _ h => .inl h
  · exact .still rfl (List.Subset.refl _)

/-- **An action.** It moves one look-up at most. -/
theorem moves_step (s : SourceCalls ε) (x : SourceAction ε) : Moves s x (s.step x) := by
  cases x with
  | start c name => exact moves_start s c name
  | fetch c => exact moves_fetch s c
  | finish c => exact moves_finish s c
  | invalidate name =>
    refine .still rfl ?_
    rw [step, CachedSource.invalidate_value]
    exact List.filter_sublist.subset
  | clear => exact .still rfl (List.nil_subset _)
  | advance d => exact .still rfl (List.Subset.refl _)
  | change other => exact .still rfl (List.Subset.refl _)

/-- A look-up that starts has started. -/
theorem started_of_start (s : SourceCalls ε) (c : Nat) (name : String) :
    (s.step (.start c name)).calls c ≠ none := by
  rw [step]
  split
  · next _ hstarted =>
    rw [hstarted]
    exact nofun
  · simp
  · split <;> simp

variable {s' : SourceCalls ε}

/-- An entry is one that was there, or the answer that a look-up keeps. -/
theorem Moves.mem {e : CacheEntry AllowList} (h : Moves s x s')
    (hmem : (name, e) ∈ s'.cached.cache.entries) : (name, e) ∈ s.cached.cache.entries ∨
      ∃ c, x = .finish c ∧ s.calls c = some (.fetched name e.value) := by
  cases h with
  | still hcalls hentries => exact .inl (hentries hmem)
  | start hnew hentries hp => exact .inl (hentries hmem)
  | fetch hmissed hp => exact .inl hmem
  | finish hx hfetched hr hentries =>
    obtain hmem | ⟨rfl, rfl⟩ := hentries _ _ hmem
    · exact .inl hmem
    · exact .inr ⟨_, hx, hfetched⟩

/-- An answer in flight was in flight, or is the one that the source behind gives. -/
theorem Moves.fetched (h : Moves s x s') (hc : s'.calls c = some (.fetched name a)) :
    s.calls c = some (.fetched name a) ∨ s.other name = .ok a := by
  cases h with
  | still hcalls hentries => exact .inl (hcalls ▸ hc)
  | start hnew hentries hp =>
    rw [put_calls] at hc
    split at hc
    -- a look-up that starts has asked nothing yet
    · obtain rfl | rfl | ⟨e, -, rfl⟩ := hp <;> cases hc
    · exact .inl hc
  | fetch hmissed hp =>
    rw [put_calls] at hc
    split at hc
    -- the source behind answers here
    · obtain ⟨a', hother, rfl⟩ | ⟨e, rfl⟩ := hp
      · cases hc
        exact .inr hother
      · cases hc
    · exact .inl hc
  | finish hx hfetched hr hentries =>
    rw [put_calls] at hc
    split at hc
    -- a look-up that ends is answered
    · cases hc
    · exact .inl hc

/-- An answer was given before, or it was in flight, or it is the value of an entry. -/
theorem Moves.answered (h : Moves s x s') (hc : s'.calls c = some (.answered name (some (.ok a)))) :
    s.calls c = some (.answered name (some (.ok a))) ∨ s.calls c = some (.fetched name a) ∨
      (s.calls c = none ∧ ∃ e, (name, e) ∈ s.cached.cache.entries ∧ e.value = a) := by
  cases h with
  | still hcalls hentries => exact .inl (hcalls ▸ hc)
  | start hnew hentries hp =>
    rw [put_calls] at hc
    split at hc
    · next heq =>
      -- of the ways to start only a hit has an answer, and it is an entry of the cache
      obtain rfl | rfl | ⟨e, hmem, rfl⟩ := hp
      · cases hc
      · cases hc
      · cases hc
        exact .inr (.inr ⟨heq ▸ hnew, e, hmem, rfl⟩)
    · exact .inl hc
  | fetch hmissed hp =>
    rw [put_calls] at hc
    split at hc
    -- what the source behind answers still has to be kept
    · obtain ⟨a', -, rfl⟩ | ⟨e, rfl⟩ := hp <;> cases hc
    · exact .inl hc
  | finish hx hfetched hr hentries =>
    rw [put_calls] at hc
    split at hc
    · next heq =>
      obtain rfl | rfl := hr
      · cases hc
        exact .inr (.inl (heq ▸ hfetched))
      · cases hc
    · exact .inl hc

/-- A look-up that has started stays so. -/
theorem Moves.started (h : Moves s x s') (hc : s.calls c ≠ none) : s'.calls c ≠ none := by
  cases h with
  | still hcalls hentries => rwa [hcalls]
  | start | fetch | finish =>
    rw [put_calls]
    split
    · exact nofun
    · exact hc

end Actions

/-! ### One look-up -/

/-- A look-up that nothing comes between. -/
theorem run_alone (s : SourceCalls ε) (call : Nat) (name : String) (hnew : s.calls call = none) :
    (s.run [.start call name, .fetch call, .finish call]).cached =
        (s.cached.lookup s.clock (fun n => .silent (s.other n)) name).value.source ∧
      (s.run [.start call name, .fetch call, .finish call]).calls call =
        some (.answered name (s.cached.lookup s.clock
          (fun n => .silent (s.other n)) name).value.answer) := by
  -- one action after the other, as the sequential look-up does
  rw [run, List.foldl_cons, List.foldl_cons, List.foldl_cons, List.foldl_nil, CachedSource.lookup]
  cases hnow : s.clock.now? with
  | none => simp [step, hnew, hnow, pure, Logged.silent]
  | some now =>
    cases hremembered : s.cached.remembered now name with
    | mk found cached =>
      cases found with
      | some a => simp [step, hnew, hnow, hremembered, bind, Logged.andThen, pure, Logged.silent]
      | none =>
        cases hother : s.other name with
        | error e =>
          simp [step, put, hnew, hnow, hremembered, hother, bind, Logged.andThen, pure, Logged.silent]
        | ok a =>
          cases hremember : cached.remember? now name a <;>
            simp [step, put, hnew, hnow, hremembered, hother, hremember, bind, Logged.andThen, pure,
              Logged.silent]

/-! ### Moments -/

variable (made : Moment) (ttl : Duration) (other : String → Except ε AllowList)

/-- What a run leaves that starts with nothing in memory. -/
def reached (actions : List (SourceAction ε)) : SourceCalls ε := (initial made ttl other).run actions

/-- At some moment of a run, from a moment on, the source behind held an allow-list for a data
    source. -/
def HeldSince (since actions : List (SourceAction ε)) (name : String) (a : AllowList) : Prop :=
  ∃ past, since <+: past ∧ past <+: actions ∧ (reached made ttl other past).other name = .ok a

variable {made ttl other}

/-- One more action is taken from where the others lead. -/
theorem reached_concat (actions : List (SourceAction ε)) (x : SourceAction ε) :
    reached made ttl other (actions ++ [x]) = (reached made ttl other actions).step x := by
  simp [reached, run]

/-- What has been held is not undone by what happens later. -/
theorem HeldSince.later {since actions more : List (SourceAction ε)} {name : String} {a : AllowList}
    (h : HeldSince made ttl other since actions name a) :
      HeldSince made ttl other since (actions ++ more) name a := by
  obtain ⟨past, hsince, hpast, hheld⟩ := h
  exact ⟨past, hsince, hpast.trans (List.prefix_append _ _), hheld⟩

/-- A look-up that got an allow-list before an action kept it between that and a later one. -/
def Overtaken (made : Moment) (ttl : Duration) (other : String → Except ε AllowList)
    (before between : List (SourceAction ε)) (name : String) (a : AllowList) : Prop :=
  ∃ c, (reached made ttl other before).calls c = some (.fetched name a) ∧ .finish c ∈ between

/-! ### After an invalidation -/

/-- Where entries and answers in flight come from after an invalidation: the source behind has held
    them since, or a look-up had got them before, and an entry is there only if it was kept. -/
structure Settled (made : Moment) (ttl : Duration) (other : String → Except ε AllowList)
    (before since later : List (SourceAction ε)) (name : String) : Prop where
  entries : ∀ e, (name, e) ∈ (reached made ttl other (since ++ later)).cached.cache.entries →
    HeldSince made ttl other since (since ++ later) name e.value ∨
    Overtaken made ttl other before later name e.value
  fetched : ∀ c a, (reached made ttl other (since ++ later)).calls c = some (.fetched name a) →
    HeldSince made ttl other since (since ++ later) name a ∨
    (reached made ttl other before).calls c = some (.fetched name a)

variable {before since later : List (SourceAction ε)} {name : String}

/-- Right after an invalidation there is no entry. -/
theorem Settled.of_invalidation {x : SourceAction ε} (hx : x = .invalidate name ∨ x = .clear) :
    Settled made ttl other before (before ++ [x]) [] name := by
  -- an invalidation leaves no entry under the name
  have hempty : ∀ e, (name, e) ∉ ((reached made ttl other before).step x).cached.cache.entries := by
    intro e he
    obtain rfl | rfl := hx
    · rw [SourceCalls.step, CachedSource.invalidate_value] at he
      exact (TtlCache.mem_erase.mp he).2 rfl
    · exact List.not_mem_nil he
  -- the look-ups in flight are not touched
  have hcalls : ((reached made ttl other before).step x).calls =
      (reached made ttl other before).calls := by
    obtain rfl | rfl := hx <;> rfl
  refine ⟨fun e he => ?_, fun c a hc => ?_⟩
  · rw [List.append_nil, reached_concat] at he
    exact absurd he (hempty e)
  · rw [List.append_nil, reached_concat, hcalls] at hc
    exact .inr hc

/-- **A step.** -/
theorem Settled.step (h : Settled made ttl other before since later name) (x : SourceAction ε) :
    Settled made ttl other before since (later ++ [x]) name where
  entries e he := by
    rw [← List.append_assoc, reached_concat] at he
    -- an entry was there before the step, or the step kept an answer that a look-up had got
    obtain hmem | ⟨c, rfl, hc⟩ := (moves_step _ x).mem he
    · obtain hheld | ⟨c, hc, hfinish⟩ := h.entries e hmem
      · exact .inl (by rw [← List.append_assoc]; exact hheld.later)
      · exact .inr ⟨c, hc, List.mem_append_left _ hfinish⟩
    · obtain hheld | hc := h.fetched c e.value hc
      -- the look-up that keeps it had started before, so it overtook the invalidation
      · exact .inl (by rw [← List.append_assoc]; exact hheld.later)
      · exact .inr ⟨c, hc, by simp⟩
  fetched c a hc := by
    rw [← List.append_assoc, reached_concat] at hc
    rw [← List.append_assoc]
    -- an answer was got before the step, or it is what the source says now
    obtain hc | hother := (moves_step _ x).fetched hc
    · obtain hheld | hc := h.fetched c a hc
      · exact .inl hheld.later
      · exact .inr hc
    · exact .inl ⟨since ++ later, List.prefix_append _ _, List.prefix_append _ _, hother⟩

/-- **A run.** -/
theorem settled_run (made : Moment) (ttl : Duration) (other : String → Except ε AllowList)
    {x : SourceAction ε}
    (hx : x = .invalidate name ∨ x = .clear)
    (before later : List (SourceAction ε)) :
    Settled made ttl other before (before ++ [x]) later name := by
  induction later using List.reverseRecOn with
  | nil => exact .of_invalidation hx
  | append_singleton later y ih => exact ih.step y

/-- What a look-up has in hand, and answers, that starts after an invalidation. -/
structure StartedSince (made : Moment) (ttl : Duration) (other : String → Except ε AllowList)
    (before since between actions : List (SourceAction ε)) (name : String) (call : Nat) : Prop where
  started : (reached made ttl other actions).calls call ≠ none
  fetched : ∀ a, (reached made ttl other actions).calls call = some (.fetched name a) →
    HeldSince made ttl other since actions name a
  answered : ∀ a, (reached made ttl other actions).calls call = some (.answered name (some (.ok a))) →
    HeldSince made ttl other since actions name a ∨ Overtaken made ttl other before between name a

/-- The start. -/
theorem Settled.start {between : List (SourceAction ε)} {call : Nat}
    (h : Settled made ttl other before since between name)
    (hnew : (reached made ttl other (since ++ between)).calls call = none) :
    StartedSince made ttl other before since between
      (since ++ between ++ [SourceAction.start call name]) name call := by
  have hmoves := moves_step (reached made ttl other (since ++ between)) (.start call name)
  rw [← reached_concat] at hmoves
  refine ⟨?_, fun a hc => ?_, fun a hc => ?_⟩
  · rw [reached_concat]
    exact started_of_start _ _ _
  · obtain hc | hother := hmoves.fetched hc
    -- the number is new, so this look-up had no answer before
    · rw [hnew] at hc
      cases hc
    · exact ⟨since ++ between, List.prefix_append _ _, List.prefix_append _ _, hother⟩
  · obtain hc | hc | ⟨-, e, hmem, rfl⟩ := hmoves.answered hc
    · rw [hnew] at hc
      cases hc
    · rw [hnew] at hc
      cases hc
    -- a hit is an entry, and entries are held since or overtaken
    · exact (h.entries e hmem).imp_left HeldSince.later

/-- **A step.** -/
theorem StartedSince.step {between actions : List (SourceAction ε)} {call : Nat}
    (h : StartedSince made ttl other before since between actions name call)
      (hsince : since <+: actions)
    (x : SourceAction ε) :
    StartedSince made ttl other before since between (actions ++ [x]) name call := by
  have hmoves := moves_step (reached made ttl other actions) x
  rw [← reached_concat] at hmoves
  refine ⟨hmoves.started h.started, fun a hc => ?_, fun a hc => ?_⟩
  · obtain hc | hother := hmoves.fetched hc
    · exact (h.fetched a hc).later
    · exact ⟨actions, hsince, List.prefix_append _ _, hother⟩
  · obtain hc | hc | ⟨hnew, -⟩ := hmoves.answered hc
    · exact (h.answered a hc).imp_left HeldSince.later
    · exact .inl (h.fetched a hc).later
    · exact absurd hnew h.started

/-- **A run.** -/
theorem StartedSince.run {between actions : List (SourceAction ε)} {call : Nat}
    (h : StartedSince made ttl other before since between actions name call)
      (hsince : since <+: actions)
    (after : List (SourceAction ε)) :
    StartedSince made ttl other before since between (actions ++ after) name call := by
  induction after using List.reverseRecOn with
  | nil => rwa [List.append_nil]
  | append_singleton after x ih =>
    rw [← List.append_assoc]
    exact ih.step (hsince.trans (List.prefix_append _ _)) x

/-- **Invalidations and look-ups in flight.** A look-up that starts after an invalidation answers an
    allow-list that the source behind has held since, or one that another look-up had got before the
    invalidation and kept between it and the start. -/
theorem answered_since_or_overtaken (made : Moment) (ttl : Duration)
    (other : String → Except ε AllowList)
    (before between after : List (SourceAction ε)) (x : SourceAction ε) (name : String) (call : Nat)
    (a : AllowList) (hx : x = .invalidate name ∨ x = .clear)
    (hnew : (reached made ttl other (before ++ [x] ++ between)).calls call = none)
    (hanswer : (reached made ttl other (before ++ [x] ++ between ++
      [SourceAction.start call name] ++ after)).calls call =
      some (.answered name (some (.ok a)))) :
    HeldSince made ttl other (before ++ [x])
      (before ++ [x] ++ between ++ [SourceAction.start call name] ++ after)
      name a ∨ Overtaken made ttl other before between name a := by
  have hsettled := settled_run made ttl other hx before between
  have hsince : before ++ [x] <+: before ++ [x] ++ between ++ [SourceAction.start call name] :=
    (List.prefix_append _ _).trans (List.prefix_append _ _)
  exact ((hsettled.start hnew).run hsince after).answered a hanswer

/-! ### An invalidation that is lost -/

/-- A source that answers the same for every data source. -/
def always (a : AllowList) (_ : String) : Except UnknownSource AllowList := .ok a

/-- What was allowed before. -/
def withPayroll : AllowList := ⟨[⟨["payroll"]⟩, ⟨["orders"]⟩], none⟩

/-- What is allowed from now on. -/
def ordersOnly : AllowList := ⟨[⟨["orders"]⟩], none⟩

/-- A look-up gets its answer before the source changes. -/
def gotBefore : List (SourceAction UnknownSource) :=
  [.start 0 "sales", .fetch 0, .change (always ordersOnly)]

/-- An answer got before the invalidation is kept after it and given to the next look-up. -/
theorem gotBefore_answered :
    HeldSince ⟨7⟩ (.ofSeconds 60) (always withPayroll)
      (gotBefore ++ [SourceAction.invalidate "sales"])
      (gotBefore ++ [SourceAction.invalidate "sales"] ++ [SourceAction.finish 0] ++
        [SourceAction.start 1 "sales"] ++ []) "sales"
      withPayroll ∨
    Overtaken ⟨7⟩ (.ofSeconds 60) (always withPayroll) gotBefore [.finish 0] "sales" withPayroll :=
  answered_since_or_overtaken ⟨7⟩ (.ofSeconds 60) (always withPayroll) gotBefore [.finish 0] []
    (.invalidate "sales") "sales" 1 withPayroll (.inl rfl) rfl rfl

/-- The look-up keeps its answer after the invalidation, and the next one is answered with it,
    although the source behind has not held it since. -/
theorem gotBefore_not_held :
    (reached ⟨7⟩ (.ofSeconds 60) (always withPayroll)
      (gotBefore ++ [SourceAction.invalidate "sales", .finish 0, .start 1 "sales"])).calls 1 =
        some (.answered "sales" (some (.ok withPayroll))) ∧
    ¬HeldSince ⟨7⟩ (.ofSeconds 60) (always withPayroll)
      (gotBefore ++ [SourceAction.invalidate "sales"])
      (gotBefore ++ [SourceAction.invalidate "sales", .finish 0,
        .start 1 "sales"]) "sales" withPayroll := by
  refine ⟨rfl, ?_⟩
  rintro ⟨past, ⟨rest, rfl⟩, hpast, hheld⟩
  -- three pasts are possible, and in each of them the source has no such list any more
  have hrest : rest <+: [.finish 0, .start 1 "sales"] := by
    rwa [← List.prefix_append_right_inj (gotBefore ++ [SourceAction.invalidate "sales"]),
      List.append_assoc]
  have hother : (reached ⟨7⟩ (.ofSeconds 60) (always withPayroll)
      (gotBefore ++ [SourceAction.invalidate "sales"] ++ rest)).other = always ordersOnly := by
    simp only [List.prefix_cons_iff, List.prefix_nil] at hrest
    obtain rfl | ⟨_, rfl, rfl | ⟨_, rfl, rfl⟩⟩ := hrest <;> rfl
  rw [hother] at hheld
  exact absurd (Except.ok.inj hheld) (by decide)

end SourceCalls

end QueryGate
