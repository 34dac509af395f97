import QueryGate.CacheSession
import QueryGate.Proofs.ExpiringCache
import QueryGate.Proofs.History

namespace QueryGate

/-!
# Caches and their histories

What a cache gives out is a matter of what was done to it, not of what it happens to store:

* `CacheSession.elapsed` — the time that a history takes;
* `CacheSession.Writes` — the steps that set or drop a key of a cache;
* `CacheSession.lastInsert` — what was inserted for a key last, followed step by step;
* `CacheSession.Simulates` — a session agrees with a history, which `Simulates.step` preserves;
* `CacheSession.refines_history` — a look-up is answered by the last write of its key alone, whatever
  else was done to this cache and the others, and a step for which a time does not fit might as well
  not have been made.
-/

namespace CacheSession

variable {n : Nat} {κ ν : Type}

/-! ### Histories -/

/-- How much time a step takes. -/
def takes : CacheStep n κ ν → Option Duration
  | .advance d => some d
  | _ => none

/-- The time that a history takes. -/
def elapsed (history : List (CacheStep n κ ν)) : Nat := timeOf takes history

theorem elapsed_concat (history : List (CacheStep n κ ν)) (st : CacheStep n κ ν) :
    elapsed (history ++ [st]) = tick (elapsed history) (takes st) := timeOf_concat

/-- Whether a step that is made after a history sets or drops a key of a cache. -/
def Writes (made : Moment) (ttls : Vector Duration n) (i : Fin n) (k : κ)
    (history : List (CacheStep n κ ν)) :
    CacheStep n κ ν → Prop
  | .insert j key _ => j = i ∧ key = k ∧ Showable (shownAfter takes made history + ttls[j].ns)
  | .invalidate j key => j = i ∧ key = k
  | .clear j => j = i
  | _ => False

/-- Whether a time does not fit when a step is made after a history. -/
def Overflows (made : Moment) (ttls : Vector Duration n) (history : List (CacheStep n κ ν)) :
    CacheStep n κ ν → Prop
  | .advance d => ¬Countable (elapsed history + d.ns)
  | .insert i _ _ => ¬Showable (shownAfter takes made history) ∨
    ¬Showable (shownAfter takes made history + ttls[i].ns)
  | .get _ _ | .purge _ => ¬Showable (shownAfter takes made history)
  | _ => False

variable [BEq κ]

/-- Whether a step can change what is given out for a key of a cache. -/
def matters (i : Fin n) (k : κ) : CacheStep n κ ν → Bool
  | .advance _ => true
  | .insert j key _ | .invalidate j key => j == i && key == k
  | .clear j => j == i
  | _ => false

/-- What a step answers that is made after a history. -/
def answer (made : Moment) (ttls : Vector Duration n) (history : List (CacheStep n κ ν))
    (st : CacheStep n κ ν) :
    CacheAnswer ν :=
  (((start made ttls).run history).step st).2

/-! ### What was inserted last -/

/-- What was inserted for a key last, and when, after a step at some time. -/
def insertAfter (ttls : Vector Duration n) (i : Fin n) (k : κ) (time : Nat)
    (last : Option (ν × Nat)) : CacheStep n κ ν → Option (ν × Nat)
  | .insert j key v =>
    if j = i ∧ key == k ∧ Showable (time + ttls[j].ns) then some (v, time) else last
  | .invalidate j key => if j = i ∧ key == k then none else last
  | .clear j => if j = i then none else last
  | _ => last

/-- The time after a history, and what was inserted for a key last and when. -/
def follow (made : Moment) (ttls : Vector Duration n) (i : Fin n) (k : κ)
    (history : List (CacheStep n κ ν)) :
    Nat × Option (ν × Nat) :=
  history.foldl (fun s st => (tick s.1 (takes st), insertAfter ttls i k (made.ns + s.1) s.2 st))
    (0, none)

/-- What was inserted for a key last, and when. -/
def lastInsert (made : Moment) (ttls : Vector Duration n) (i : Fin n) (k : κ)
    (history : List (CacheStep n κ ν)) :
    Option (ν × Nat) :=
  (follow made ttls i k history).2

section Follow

variable {made : Moment} {ttls : Vector Duration n} {i : Fin n} {k : κ}
  {history : List (CacheStep n κ ν)}

/-- Time and last insert are followed step by step from the left. -/
theorem follow_concat (st : CacheStep n κ ν) : follow made ttls i k (history ++ [st]) =
    (tick (follow made ttls i k history).1 (takes st),
      insertAfter ttls i k (made.ns + (follow made ttls i k history).1)
        (follow made ttls i k history).2 st) := by
  simp [follow]

/-- The time that is followed is the time elapsed. -/
theorem follow_fst (made : Moment) (ttls : Vector Duration n) (i : Fin n) (k : κ)
    (history : List (CacheStep n κ ν)) : (follow made ttls i k history).1 = elapsed history := by
  induction history using List.reverseRecOn with
  | nil => rfl
  | append_singleton history st ih => rw [follow_concat, elapsed_concat, ih]

/-- The last insert under a key, one step later. -/
@[simp] theorem lastInsert_concat (st : CacheStep n κ ν) :
    lastInsert made ttls i k (history ++ [st]) =
    insertAfter ttls i k (shownAfter takes made history) (lastInsert made ttls i k history) st := by
  rw [lastInsert, follow_concat, follow_fst, lastInsert, shownAfter, elapsed]

/-- A step that does not matter changes neither the time nor what was inserted last. -/
theorem follow_concat_of_not_matters {st : CacheStep n κ ν} (h : matters i k st = false) :
    follow made ttls i k (history ++ [st]) = follow made ttls i k history := by
  rw [follow_concat]
  refine Prod.ext ?_ ?_
  · cases st with
    | advance d => cases h
    | _ => rfl
  · cases st <;> simp_all [matters, insertAfter]

/-- What was inserted last is a matter of the steps that matter. -/
theorem follow_filter (made : Moment) (ttls : Vector Duration n) (i : Fin n) (k : κ)
    (history : List (CacheStep n κ ν)) :
    follow made ttls i k (history.filter (matters i k)) = follow made ttls i k history := by
  induction history using List.reverseRecOn with
  | nil => rfl
  | append_singleton history st ih =>
    cases hmatters : matters i k st with
    | true => simp [hmatters, follow_concat, ih]
    | false => simp [hmatters, follow_concat_of_not_matters hmatters, ih]

variable [LawfulBEq κ]

/-- A step that writes the key is what was inserted last, if it is an insertion. -/
theorem insertAfter_of_writes {st : CacheStep n κ ν} (h : Writes made ttls i k history st)
    (last : Option (ν × Nat)) (v : ν) (time : Nat) :
    insertAfter ttls i k (shownAfter takes made history) last st = some (v, time) ↔
      st = .insert i k v ∧ time = shownAfter takes made history := by
  -- of the steps that write only an insert leaves a value
  cases st with
  | insert j key v' =>
    obtain ⟨rfl, rfl, hshow⟩ := h
    rw [insertAfter, if_pos ⟨rfl, beq_self_eq_true key, hshow⟩]
    simp [eq_comm]
  | invalidate j key =>
    obtain ⟨rfl, rfl⟩ := h
    simp [insertAfter]
  | clear j =>
    obtain rfl := h
    simp [insertAfter]
  | get | purge | size | advance => cases h

/-- Any other step leaves what was inserted last. -/
theorem insertAfter_of_not_writes {st : CacheStep n κ ν} (h : ¬Writes made ttls i k history st)
    (last : Option (ν × Nat)) : insertAfter ttls i k (shownAfter takes made history) last st =
      last := by
  cases st <;> simp_all [Writes, insertAfter]

/-- **What was inserted last** is the value of the last write, if that is an insertion. -/
theorem lastInsert_eq_some_iff {v : ν} {time : Nat} :
    lastInsert made ttls i k history = some (v, time) ↔
    ∃ past, LastStep (Writes made ttls i k) history past (.insert i k v) ∧
      time = shownAfter takes made past := by
  induction history using List.reverseRecOn with
  | nil => simp [not_lastStep_nil, lastInsert, follow]
  | append_singleton history st ih =>
    rw [lastInsert_concat]
    -- the last insert is visible only if nothing was written after it
    by_cases hwrites : Writes made ttls i k history st
    · rw [insertAfter_of_writes hwrites]
      simp only [lastStep_concat, hwrites, true_and, not_true_eq_false, false_and, or_false]
      constructor
      · rintro ⟨rfl, rfl⟩
        exact ⟨history, ⟨rfl, rfl⟩, rfl⟩
      · rintro ⟨past, ⟨rfl, rfl⟩, rfl⟩
        exact ⟨rfl, rfl⟩
    · rw [insertAfter_of_not_writes hwrites, ih]
      simp only [lastStep_concat, hwrites, false_and, not_false_eq_true, true_and, false_or]

end Follow

/-! ### Sessions -/

/-- A session agrees with a history: its clock was made at the moment and shows the time, and each
    cache holds what was inserted last. -/
structure Simulates (made : Moment) (ttls : Vector Duration n) (history : List (CacheStep n κ ν))
    (s : CacheSession n κ ν) : Prop where
  made_eq : s.clock.made = made
  time : s.clock.elapsed.ns = elapsed history
  ttl : ∀ i : Fin n, s.caches[i].ttl = ttls[i]
  holds : ∀ i : Fin n, s.caches[i].Holds (shownAfter takes made history) fun k => lastInsert made
    ttls i k history

section Simulation

variable {made : Moment} {ttls : Vector Duration n} {i : Fin n} {k : κ}
  {history : List (CacheStep n κ ν)}
variable {s : CacheSession n κ ν} {st : CacheStep n κ ν}

omit [BEq κ] in
/-- Putting a cache in its place leaves the other caches alone. -/
theorem put_caches (s : CacheSession n κ ν) (i j : Fin n) (c : TtlCache κ ν) :
    (s.put i c).caches[j] = if i = j then c else s.caches[j] := by
  simp [put, Vector.getElem_set, Fin.ext_iff]

/-- A session that begins has nothing to hit. -/
theorem Simulates.start (made : Moment) (ttls : Vector Duration n) :
    Simulates made ttls [] (CacheSession.start made ttls : CacheSession n κ ν) where
  made_eq := rfl
  time := rfl
  ttl i := by simp [CacheSession.start, TtlCache.empty]
  holds i := by
    have hcache : (CacheSession.start made ttls : CacheSession n κ ν).caches[i] = .empty ttls[i] := by
      simp [CacheSession.start]
    rw [hcache]
    exact .empty _ _

/-- A step without an effect. -/
theorem Simulates.same (h : Simulates made ttls history s) (htime : takes st = none)
    (hlast : ∀ i k last, insertAfter ttls i k (shownAfter takes made history) last st = last) :
    Simulates made ttls (history ++ [st]) s where
  made_eq := h.made_eq
  time := by rw [elapsed_concat, htime, h.time, tick]
  ttl := h.ttl
  holds i := by
    simp only [shownAfter_concat made history htime, lastInsert_concat, hlast]
    exact h.holds i

/-- A step on one cache. -/
theorem Simulates.put (h : Simulates made ttls history s) {c : TtlCache κ ν}
    (htime : takes st = none)
    (hother : ∀ j k last, i ≠ j → insertAfter ttls j k (shownAfter takes made history) last st = last)
    (httl : c.ttl = s.caches[i].ttl)
    (hc : c.Holds (shownAfter takes made history) fun k =>
      insertAfter ttls i k (shownAfter takes made history) (lastInsert made ttls i k history) st) :
    Simulates made ttls (history ++ [st]) (s.put i c) where
  made_eq := h.made_eq
  time := by rw [elapsed_concat, htime, ← h.time]; rfl
  ttl j := by
    rw [put_caches]
    split
    · next hij => rw [httl, h.ttl, hij]
    · exact h.ttl j
  -- the cache at `i` is the new one; the others stay, and the step does not write to them
  holds j := by
    simp only [shownAfter_concat made history htime, lastInsert_concat]
    rw [put_caches]
    split
    · next hij => rw [← hij]; exact hc
    · next hij =>
      simp only [hother j _ _ hij]
      exact h.holds j

/-- What a session shows as the time. -/
theorem Simulates.now?_eq (h : Simulates made ttls history s) :
    s.clock.now? = if Showable (shownAfter takes made history) then some
      ⟨shownAfter takes made history⟩ else none := by
  rw [Clock.now?_eq, h.made_eq, h.time, shownAfter, elapsed]

/-- What an insertion leaves, if its times fit. -/
theorem Simulates.insert_eq_some (h : Simulates made ttls history s) (key : κ) (v : ν)
    (hfits : Showable (shownAfter takes made history + ttls[i].ns)) :
    ∃ c, s.caches[i].insert? ⟨shownAfter takes made history⟩ key v = some c ∧
      (s.clock.now?.bind fun now => s.caches[i].insert? now key v) = some c := by
  rw [h.now?_eq, if_pos (hfits.of_le (Nat.le_add_right _ _)), Option.bind_some,
    TtlCache.insert?_eq, if_pos (by rwa [h.ttl i])]
  exact ⟨_, rfl, rfl⟩

/-- An insertion leaves nothing, if the later one of its times does not fit. -/
theorem Simulates.insert_eq_none (h : Simulates made ttls history s) (key : κ) (v : ν)
    (hfits : ¬Showable (shownAfter takes made history + ttls[i].ns)) :
    (s.clock.now?.bind fun now => s.caches[i].insert? now key v) = none := by
  rw [h.now?_eq]
  split
  · rw [Option.bind_some, TtlCache.insert?_eq, if_neg (by rwa [h.ttl i])]
  · rfl

variable [LawfulBEq κ]

/-- **A step.** A session that agrees with a history agrees with it after a step of both. -/
theorem Simulates.step (h : Simulates made ttls history s) (st : CacheStep n κ ν) :
    Simulates made ttls (history ++ [st]) (s.step st).1 := by
  cases st with
  | insert i key v =>
    rw [CacheSession.step]
    -- an insert fails exactly where the end of its entry cannot be shown
    by_cases hfits : Showable (shownAfter takes made history + ttls[i].ns)
    · obtain ⟨c, hins, hsome⟩ := h.insert_eq_some key v hfits
      rw [hsome]
      refine h.put rfl ?_ (TtlCache.ttl_of_insert? hins) ?_
      · intro j k last hij
        simp [insertAfter, hij]
      · simp only [insertAfter, hfits, true_and, and_true]
        exact (h.holds i).insert key v hins
    · rw [h.insert_eq_none key v hfits]
      apply h.same rfl
      intro j k last
      exact if_neg fun hinsert => hfits hinsert.2.2
  | get i key =>
    -- a look-up may drop an expired entry, which changes nothing that can be seen
    by_cases hnow : Showable (shownAfter takes made history)
    · have hget : (s.step (.get i key)).1 =
          s.put i (s.caches[i].get ⟨shownAfter takes made history⟩ key).2 := by
        rw [CacheSession.step, h.now?_eq, if_pos hnow]
        dsimp only
        split <;> next hresult => rw [hresult]
      rw [hget]
      exact h.put rfl (fun _ _ _ _ => rfl) (TtlCache.get_ttl _ _ _) ((h.holds i).get key)
    · rw [CacheSession.step, h.now?_eq, if_neg hnow]
      exact h.same rfl fun _ _ _ => rfl
  -- an invalidation writes nothing to the other caches
  | invalidate i key =>
    refine h.put rfl ?_ rfl ?_
    · intro j k last hij
      simp [insertAfter, hij]
    · simp only [insertAfter, true_and]
      exact (h.holds i).invalidate key
  | clear i =>
    refine h.put rfl ?_ rfl ?_
    · intro j k last hij
      simp [insertAfter, hij]
    · simp only [insertAfter, if_true]
      exact .clear _ _
  | purge i =>
    rw [CacheSession.step, h.now?_eq]
    by_cases hnow : Showable (shownAfter takes made history)
    · rw [if_pos hnow]
      exact h.put rfl (fun _ _ _ _ => rfl) rfl (h.holds i).purge
    · rw [if_neg hnow]
      exact h.same rfl fun _ _ _ => rfl
  | size i => exact h.same rfl fun _ _ _ => rfl
  | advance d =>
    rw [CacheSession.step, Clock.advance?_eq, h.time]
    -- a step of the clock is refused where the time elapsed could not be counted
    by_cases hfits : Countable (elapsed history + d.ns)
    · have htime : elapsed (history ++ [(CacheStep.advance d : CacheStep n κ ν)]) =
          elapsed history + d.ns := by
        rw [elapsed_concat, takes, tick, if_pos hfits]
      rw [if_pos hfits]
      refine ⟨h.made_eq, htime.symm, h.ttl, fun i => ?_⟩
      rw [shownAfter, ← elapsed, htime]
      simp only [lastInsert_concat, insertAfter]
      -- what is fresh later was fresh before
      exact (h.holds i).later (Nat.add_le_add_left (Nat.le_add_right _ _) _)
    · have htime : elapsed (history ++ [(CacheStep.advance d : CacheStep n κ ν)]) =
          elapsed history := by
        rw [elapsed_concat, takes, tick, if_neg hfits]
      rw [if_neg hfits]
      refine ⟨h.made_eq, htime ▸ h.time, h.ttl, fun i => ?_⟩
      rw [shownAfter, ← elapsed, htime]
      simp only [lastInsert_concat, insertAfter]
      exact h.holds i

omit [LawfulBEq κ] in
/-- A run takes its last step from where the steps before it lead. -/
theorem run_concat (s : CacheSession n κ ν) (history : List (CacheStep n κ ν))
    (st : CacheStep n κ ν) :
    s.run (history ++ [st]) = ((s.run history).step st).1 := by
  simp [run]

/-- **A run.** Caches that start empty agree with what was done to them. -/
theorem simulates_run (made : Moment) (ttls : Vector Duration n) (history : List (CacheStep n κ ν)) :
    Simulates made ttls history ((CacheSession.start made ttls).run history) := by
  induction history using List.reverseRecOn with
  | nil => exact .start made ttls
  | append_singleton history st ih =>
    rw [run_concat]
    exact ih.step st

/-! ### Answers -/

/-- What a cache gives out for a key after a history. -/
def given (made : Moment) (ttls : Vector Duration n) (i : Fin n) (k : κ)
    (history : List (CacheStep n κ ν)) : Option ν :=
  TtlCache.freshValue ttls[i] (shownAfter takes made history) (lastInsert made ttls i k history)

/-- What a look-up answers. -/
theorem Simulates.get_snd (h : Simulates made ttls history s) (i : Fin n) (k : κ) :
    (s.step (.get i k)).2 =
      if Showable (shownAfter takes made history) then
        (given made ttls i k history).elim .miss .hit else .overflow := by
  have hvalue : (s.caches[i].get ⟨shownAfter takes made history⟩ k).1 =
      given made ttls i k history := by
    rw [(h.holds i).get_fst k, h.ttl i, given]
  rw [CacheSession.step, h.now?_eq]
  by_cases hnow : Showable (shownAfter takes made history)
  · rw [if_pos hnow, if_pos hnow, ← hvalue]
    dsimp only
    split <;> next hresult => rw [hresult]; rfl
  · rw [if_neg hnow, if_neg hnow]

omit [LawfulBEq κ] in
/-- How many entries there are after a purge. -/
theorem Simulates.size_purge (h : Simulates made ttls history s)
    (hnow : Showable (shownAfter takes made history))
    (i : Fin n) : ((s.step (.purge i)).1.step (.size i)).2 =
      .count ((s.caches[i].purge ⟨shownAfter takes made history⟩).entries.map Prod.fst).length := by
  rw [CacheSession.step, CacheSession.step, h.now?_eq, if_pos hnow]
  dsimp only [cache]
  rw [put_caches, if_pos rfl, TtlCache.size, List.length_map]

/-- A step overflows iff a time does not fit. -/
theorem Simulates.overflow_iff (h : Simulates made ttls history s) (st : CacheStep n κ ν) :
    (s.step st).2 = .overflow ↔ Overflows made ttls history st := by
  cases st with
  | insert i key v =>
    rw [CacheSession.step, Overflows]
    by_cases hfits : Showable (shownAfter takes made history + ttls[i].ns)
    · obtain ⟨c, -, hsome⟩ := h.insert_eq_some key v hfits
      -- the present can be shown where the end of an entry can
      have hnow : Showable (shownAfter takes made history) := hfits.of_le (Nat.le_add_right _ _)
      rw [hsome]
      exact ⟨nofun, fun hnot => (hnot.elim (absurd hnow) (absurd hfits))⟩
    · rw [h.insert_eq_none key v hfits]
      exact ⟨fun _ => .inr hfits, fun _ => rfl⟩
  | get i key =>
    rw [h.get_snd, Overflows]
    by_cases hnow : Showable (shownAfter takes made history)
    · rw [if_pos hnow]
      refine ⟨?_, fun hnot => absurd hnow hnot⟩
      cases given made ttls i key history <;> nofun
    · simp [hnow]
  | purge i =>
    rw [CacheSession.step, h.now?_eq, Overflows]
    by_cases hnow : Showable (shownAfter takes made history) <;> simp [hnow]
  | advance d =>
    rw [CacheSession.step, Clock.advance?_eq, h.time, Overflows]
    by_cases hfits : Countable (elapsed history + d.ns) <;> simp [hfits]
  | invalidate | clear | size => exact ⟨nofun, nofun⟩

omit [LawfulBEq κ] in
/-- A step that overflows changes nothing. -/
theorem step_of_overflow (h : (s.step st).2 = .overflow) : (s.step st).1 = s := by
  cases st with
  | insert | advance | purge =>
    rw [CacheSession.step] at h ⊢
    split at h
    · cases h
    · rfl
  | get i key =>
    rw [CacheSession.step] at h ⊢
    split at h
    · split at h <;> cases h
    · rfl
  | invalidate | clear | size => cases h

end Simulation

/-! ### Histories and answers -/

variable [LawfulBEq κ]

/-- What is given out is what the last write of the key inserted, while it is fresh. -/
theorem given_eq_some_iff {made : Moment} {ttls : Vector Duration n} {i : Fin n} {k : κ}
    {history : List (CacheStep n κ ν)} {v : ν} : given made ttls i k history = some v ↔
      ∃ past, LastStep (Writes made ttls i k) history past (.insert i k v) ∧
        elapsed history - elapsed past < ttls[i].ns := by
  -- the last insert lies in the past
  have hpast : ∀ time, lastInsert made ttls i k history = some (v, time) →
      time ≤ shownAfter takes made history := by
    intro time hlast
    obtain ⟨past, hwrite, rfl⟩ := lastInsert_eq_some_iff.mp hlast
    exact hwrite.shownAfter_le takes made
  rw [given, TtlCache.freshValue_eq_some_iff hpast]
  constructor
  · rintro ⟨time, hlast, hfresh⟩
    obtain ⟨past, hwrite, rfl⟩ := lastInsert_eq_some_iff.mp hlast
    exact ⟨past, hwrite, shownAfter_sub_shownAfter takes made history past ▸ hfresh⟩
  · rintro ⟨past, hwrite, hfresh⟩
    refine ⟨_, lastInsert_eq_some_iff.mpr ⟨past, hwrite, rfl⟩, ?_⟩
    rwa [shownAfter_sub_shownAfter]

section Answers

variable (made : Moment) (ttls : Vector Duration n) (history : List (CacheStep n κ ν)) (i : Fin n)
  (k : κ)

/-- A look-up hits iff something is given out. -/
theorem answer_eq_hit_iff (v : ν) : answer made ttls history (.get i k) = .hit v ↔
    Showable (shownAfter takes made history) ∧ given made ttls i k history = some v := by
  rw [answer, (simulates_run made ttls history).get_snd]
  by_cases hnow : Showable (shownAfter takes made history)
  · cases given made ttls i k history <;> simp [hnow]
  · simp [hnow]

/-- It misses iff nothing is. -/
theorem answer_eq_miss_iff : answer made ttls history (.get i k) = .miss ↔
    Showable (shownAfter takes made history) ∧ given made ttls i k history = none := by
  rw [answer, (simulates_run made ttls history).get_snd]
  by_cases hnow : Showable (shownAfter takes made history)
  · cases given made ttls i k history <;> simp [hnow]
  · simp [hnow]

/-- The steps that do not matter are not observed. -/
theorem answer_filter :
    answer made ttls (history.filter (matters i k)) (.get i k) =
      answer made ttls history (.get i k) := by
  have hfollow := follow_filter made ttls i k history
  have helapsed : elapsed (history.filter (matters i k)) = elapsed history := by
    rw [← follow_fst made ttls i k, hfollow, follow_fst]
  rw [answer, answer, (simulates_run made ttls _).get_snd,
    (simulates_run made ttls history).get_snd, given,
    given, lastInsert, lastInsert, hfollow, shownAfter, shownAfter, ← elapsed,
    ← elapsed, helapsed]

/-- After a purge there are as many entries as keys that hit. -/
theorem answer_size_purge (hnow : Showable (shownAfter takes made history)) :
    ∃ keys : List κ, keys.Nodup ∧
    (∀ key, key ∈ keys ↔ ∃ v, answer made ttls (history ++ [CacheStep.purge i]) (.get i key) =
      .hit v) ∧
    answer made ttls (history ++ [CacheStep.purge i]) (.size i) = .count keys.length := by
  have hrun := simulates_run made ttls history
  refine ⟨_, (hrun.holds i).purge.keyed, fun key => ?_, ?_⟩
  · -- the purge is no write and takes no time
    have hgiven : given made ttls i key (history ++ [CacheStep.purge i]) =
        given made ttls i key history := by
      rw [given, lastInsert_concat, shownAfter_concat made history rfl, given]
      rfl
    have hshow : Showable (shownAfter takes made
        (history ++ [(CacheStep.purge i : CacheStep n κ ν)])) := by
      rwa [shownAfter_concat made history rfl]
    simp only [answer_eq_hit_iff, hgiven, hshow, true_and]
    rw [(hrun.holds i).mem_keys_purge, hrun.ttl i, given]
  · rw [answer, run_concat]
    exact hrun.size_purge hnow i

omit [LawfulBEq κ] in
/-- A step that overflows might as well not have been made. -/
theorem run_of_overflow {st : CacheStep n κ ν} (h : answer made ttls history st = .overflow)
    (later : List (CacheStep n κ ν)) : ((start made ttls).run (history ++ st :: later)) =
      ((start made ttls).run (history ++ later) : CacheSession n κ ν) := by
  have hsame := step_of_overflow h
  simp only [run, List.foldl_append, List.foldl_cons] at hsame ⊢
  rw [hsame]

end Answers

/-- **A cache and its history.** -/
theorem refines_history (made : Moment) (ttls : Vector Duration n)
    (history : List (CacheStep n κ ν)) (i : Fin n)
    (k : κ) :
    -- a look-up hits iff the last write of the key inserted the value, less than the time ago
    (∀ v, answer made ttls history (.get i k) = .hit v ↔ Showable (shownAfter takes made history) ∧
      ∃ past, LastStep (Writes made ttls i k) history past (.insert i k v) ∧
        elapsed history - elapsed past < ttls[i].ns) ∧
    -- and otherwise misses
    (answer made ttls history (.get i k) = .miss ↔ Showable (shownAfter takes made history) ∧
      ¬∃ v past, LastStep (Writes made ttls i k) history past (.insert i k v) ∧
        elapsed history - elapsed past < ttls[i].ns) ∧
    -- so no other step is observed
    answer made ttls (history.filter (matters i k)) (.get i k) = answer made ttls history (.get i k) ∧
    -- after a purge there are as many entries as keys that hit
    (Showable (shownAfter takes made history) → ∃ keys : List κ, keys.Nodup ∧
      (∀ key, key ∈ keys ↔ ∃ v, answer made ttls (history ++ [CacheStep.purge i]) (.get i key) =
        .hit v) ∧
      answer made ttls (history ++ [CacheStep.purge i]) (.size i) = .count keys.length) ∧
    -- a step overflows iff a time does not fit, and might then as well not have been made
    ∀ st, (answer made ttls history st = .overflow ↔ Overflows made ttls history st) ∧
      (answer made ttls history st = .overflow → ∀ later,
        (start made ttls).run (history ++ st :: later) =
          (start made ttls).run (history ++ later)) := by
  simp only [← given_eq_some_iff]
  refine ⟨answer_eq_hit_iff made ttls history i k, ?_, answer_filter made ttls history i k,
    answer_size_purge made ttls history i, fun st => ⟨?_, run_of_overflow made ttls history⟩⟩
  · rw [answer_eq_miss_iff, Option.eq_none_iff_forall_ne_some]
    simp only [ne_eq, not_exists]
  · exact (simulates_run made ttls history).overflow_iff st

/-- Two caches, the second of which keeps nothing. -/
def twoTtls : Vector Duration 2 := #v[.ofSeconds 10, .ofSeconds 0]

/-- A value in both of them, and half of the time of the first. -/
def halfway : List (CacheStep 2 String Nat) :=
  [.insert 0 "a" 1, .insert 1 "a" 2, .advance (.ofSeconds 5), .purge 1]

theorem halfway_hit : (∃ past, LastStep (Writes ⟨7⟩ twoTtls 0 "a") halfway past (.insert 0 "a" 1) ∧
      elapsed halfway - elapsed past < (Duration.ofSeconds 10).ns) ∧
    answer ⟨7⟩ twoTtls halfway (.get 1 "a") = .miss ∧
    ∃ keys : List String, keys.Nodup ∧
      (∀ key, key ∈ keys ↔ ∃ v, answer ⟨7⟩ twoTtls (halfway ++ [CacheStep.purge 0]) (.get 0 key) =
        .hit v) ∧
      answer ⟨7⟩ twoTtls (halfway ++ [CacheStep.purge 0]) (.size 0) = .count keys.length :=
  have hfirst := refines_history ⟨7⟩ twoTtls halfway 0 "a"
  ⟨((hfirst.1 1).mp (by decide +kernel)).2, by decide +kernel, hfirst.2.2.2.1 (by decide +kernel)⟩

end CacheSession

end QueryGate
