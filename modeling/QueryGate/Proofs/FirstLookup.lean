import Mathlib
import QueryGate.Proofs.BoundedStaleness
import QueryGate.Proofs.SettingsBounds

namespace QueryGate

/-!
# The first look-up

A cached source with the time of some settings is asked for a data source that it remembers nothing
about.  Settings bound that time by what fits 64 bits, and a clock shows only moments that fit 63:

* `CachedSource.tells_of_empty` — what a memory of nothing tells;
* `CachedSource.first_answer_iff` — the first look-up with settings from a document answers iff the
  moment at which the answer goes stale can be shown, and otherwise ends the session.
-/

/-- A clock shows the sum of the moment at which it was made and the time that it has run, which can
    be shown. -/
theorem Clock.showable_of_now? {c : Clock} {now : Moment} (h : c.now? = some now) :
    c.made.ns + c.elapsed.ns = now.ns ∧ Showable now.ns := by
  rw [now?_eq] at h
  split at h
  · next hshow =>
    cases h
    exact ⟨rfl, hshow⟩
  · cases h

/-- A moment some seconds later can be shown iff the seconds, added up, fit 63 bits. -/
theorem showable_add_iff (ns seconds : Nat) : Showable (ns + (Duration.ofSeconds seconds).ns) ↔
    ns / Duration.second + seconds < Nat.pow 2 63 := by
  have hpos : 0 < Duration.second := by decide
  have hadd : (ns + seconds * Duration.second) / Duration.second = ns / Duration.second + seconds :=
    Nat.add_mul_div_right _ _ hpos
  rw [← hadd]
  exact Iff.rfl

/-- What a session with one look-up answers: it ends if the look-up does not. -/
theorem SourceSession.play_lookup {ε : Type} (s : SourceSession ε) (name : String) :
    (s.play [.lookup name]).value =
      (s.lookup name).value.answer.map fun answer => [.answered (s.lookup name).value.asked answer] := by
  cases hanswer : (s.lookup name).value.answer <;>
    simp [play, step?, step, bind, Logged.andThen, pure, Logged.silent, hanswer]

namespace CachedSource

variable {ε : Type}

/-! ### A memory of nothing -/

/-- A memory of nothing tells what the other source answers. -/
theorem tells_of_empty (ttl : Duration) (c : Clock) (other : String → Logged (Except ε AllowList))
    (name : String) : SourceSession.tells ((CachedSource.empty ttl).lookup c other name) =
      SourceSession.told ttl (c.made.ns + c.elapsed.ns) name (other name) none :=
  (SourceSession.lookup_spec ⟨c, other, .empty ttl⟩ rfl (TtlCache.Holds.empty ttl _) name).1

variable {c : Clock} {now : Moment} {other : String → Logged (Except ε AllowList)}
variable {name : String} {a : AllowList}

/-- With the time of some settings the other source is asked, and there is an answer if the moment at
    which it goes stale can be shown. -/
theorem answer_of_empty (s : CacheSettings) (hnow : c.now? = some now)
    (hanswer : (other name).value = .ok a) :
    ((ofSettings s).lookup c other name).value.asked = true ∧
    ((ofSettings s).lookup c other name).value.answer =
      if now.ns / Duration.second + s.ttlSeconds < Nat.pow 2 63 then some (.ok a) else none := by
  obtain ⟨hsum, hshow⟩ := Clock.showable_of_now? hnow
  have htells := tells_of_empty (.ofSeconds s.ttlSeconds) c other name
  rw [hsum, SourceSession.told, if_pos hshow, hanswer] at htells
  simp only [TtlCache.freshValue, showable_add_iff] at htells
  exact ⟨congrArg Prod.fst htells, congrArg (fun told => told.2.1) htells⟩

/-- **The first look-up.** With settings that a document spells, and on a clock that shows a moment,
    the answer of the other source is the answer iff the seconds of the moment and of the settings
    together fit 63 bits.  Otherwise there is no answer, and a session ends with the look-up.  All
    that the check of the settings says of their time is that it fits 64 bits. -/
theorem first_answer_iff {text : String} {s : Settings} (hread : Settings.read text = .ok s)
    (hnow : c.now? = some now) (hanswer : (other name).value = .ok a) :
    s.cache.ttlSeconds < Nat.pow 2 64 ∧
    (((ofSettings s.cache).lookup c other name).value.answer = some (.ok a) ↔
      now.ns / Duration.second + s.cache.ttlSeconds < Nat.pow 2 63) ∧
    (((ofSettings s.cache).lookup c other name).value.answer = none ↔
      Nat.pow 2 63 ≤ now.ns / Duration.second + s.cache.ttlSeconds) ∧
    ((SourceSession.mk c other (ofSettings s.cache)).play [.lookup name]).value =
      if now.ns / Duration.second + s.cache.ttlSeconds < Nat.pow 2 63
      then some [.answered true (.ok a)] else none := by
  obtain ⟨hasked, hlookup⟩ := answer_of_empty s.cache hnow hanswer
  rw [hlookup]
  refine ⟨(Settings.fits_of_read hread).ttlSeconds, by simp, by simp, ?_⟩
  rw [SourceSession.play_lookup, SourceSession.lookup, hasked, hlookup]
  split <;> rfl

/-! ### A time that does not fit -/

/-- A document with the least time that the clock cannot reach. -/
def longText : String := "schema_cache:\n  ttl_seconds: 9223372036854775808"

/-- The settings that `longText` spells. -/
def longSettings : Settings := { Settings.default with cache := ⟨9223372036854775808⟩ }

/-- The settings accept a time to live that the clock cannot show. -/
private theorem read_longText : Settings.read longText = .ok longSettings := by
  have hnode : Yaml.read? longText.toList = some (.node (.mapping [(.plain "schema_cache",
      .mapping [(.plain "ttl_seconds", .plain "9223372036854775808")])])) := by cbv
  have hblank : (Text.trim longText.toList).isEmpty = false := by decide
  refine Settings.read_eq_ok_iff.mpr ⟨?_, rfl⟩
  rw [Settings.parse?, hblank, hnode]
  rfl

/-- A source behind that knows one data source. -/
def staffList (name : String) : Logged (Except UnknownSource AllowList) :=
  .silent ((FixedSource.empty.put "staff" ⟨[⟨["t"]⟩], none⟩).allowedTables name)

/-- A clock that was made a second after the first moment. -/
def freshClock : Clock := .start ⟨Duration.second⟩

/-- The default settings have a look-up answered. -/
theorem default_first_answer : Settings.read "" = .ok .default ∧
    freshClock.now? = some ⟨Duration.second⟩ ∧
    (staffList "staff").value = .ok ⟨[⟨["t"]⟩], none⟩ ∧
    ((ofSettings Settings.default.cache).lookup freshClock staffList "staff").value.answer =
      some (.ok ⟨[⟨["t"]⟩], none⟩) := by
  have hread : Settings.read "" = .ok .default := rfl
  have hnow : freshClock.now? = some ⟨Duration.second⟩ := by decide
  have hanswer : (staffList "staff").value = .ok ⟨[⟨["t"]⟩], none⟩ := rfl
  exact ⟨hread, hnow, hanswer, (first_answer_iff hread hnow hanswer).2.1.mpr (by decide)⟩

/-- Settings that pass the check end a session with its first look-up, although the source behind has
    an answer. -/
theorem longText_first_unanswered : Settings.read longText = .ok longSettings ∧
    (staffList "staff").value = .ok ⟨[⟨["t"]⟩], none⟩ ∧
    ((ofSettings longSettings.cache).lookup freshClock staffList "staff").value.answer = none ∧
    ((SourceSession.mk freshClock staffList (ofSettings longSettings.cache)).play
      [.lookup "staff"]).value = none := by
  have hnow : freshClock.now? = some ⟨Duration.second⟩ := by decide
  have hanswer : (staffList "staff").value = .ok ⟨[⟨["t"]⟩], none⟩ := rfl
  have hlate : ¬Duration.second / Duration.second + longSettings.cache.ttlSeconds < Nat.pow 2 63 := by
    decide
  have hnone : ((ofSettings longSettings.cache).lookup freshClock staffList "staff").value.answer =
      none := by
    rw [(answer_of_empty longSettings.cache hnow hanswer).2, if_neg hlate]
  refine ⟨read_longText, hanswer, hnone, ?_⟩
  rw [SourceSession.play_lookup, SourceSession.lookup, hnone, Option.map_none]

end CachedSource

end QueryGate
