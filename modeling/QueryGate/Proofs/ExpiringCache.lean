import Mathlib.Data.List.Nodup
import QueryGate.Proofs.History
import QueryGate.TtlCache

namespace QueryGate

/-!
# What a cache holds

Entries go away when they are looked up too late or purged, so what is stored depends on more than
what was inserted.  What is given out does not:

* `TtlCache.Holds` — a cache stores for each key what was inserted last or nothing, and nothing only
  once that is stale;
* `Holds.get_fst` — such a cache gives out what was inserted last while it is fresh;
* `Holds.get` / `Holds.insert` / `Holds.invalidate` / `Holds.clear` / `Holds.purge` /
  `Holds.later` — what each operation, and the time, do to what was inserted last;
* `Holds.mem_keys_purge` — after a purge the keys of the entries are those that are given out.
-/

namespace TtlCache

variable {κ ν : Type} {c : TtlCache κ ν} {key k : κ} {e : CacheEntry ν} {now : Nat}

/-! ### Entries -/

/-- Purging drops what has expired and nothing else. -/
theorem mem_purge : (k, e) ∈ (c.purge ⟨now⟩).entries ↔ (k, e) ∈ c.entries ∧ now < e.expires.ns := by
  simp [purge, CacheEntry.isFresh, Moment.isBefore]

/-- Each key has one entry at most. -/
def Keyed (c : TtlCache κ ν) : Prop := (c.entries.map Prod.fst).Nodup

/-- Purging leaves at most one entry under a key. -/
theorem Keyed.purge (h : c.Keyed) (now : Moment) : (c.purge now).Keyed :=
  h.sublist (List.filter_sublist.map Prod.fst)

/-! ### What was inserted last -/

/-- A value that was inserted at some time, while it is fresh. -/
def freshValue (ttl : Duration) (now : Nat) : Option (ν × Nat) → Option ν
  | some (v, time) => if now < time + ttl.ns then some v else none
  | none => none

/-- What was inserted by now is fresh iff that is less than the time ago. -/
theorem freshValue_eq_some_iff {ttl : Duration} {last : Option (ν × Nat)} {v : ν}
    (hpast : ∀ time, last = some (v, time) → time ≤ now) :
    freshValue ttl now last = some v ↔ ∃ time, last = some (v, time) ∧ now - time < ttl.ns := by
  constructor
  · intro h
    cases hlast : last with
    | none =>
      rw [hlast] at h
      cases h
    | some inserted =>
      obtain ⟨v', time⟩ := inserted
      rw [hlast, freshValue] at h
      split at h
      · next hfresh =>
        cases h
        -- the insert lies in the past, so the difference is the age
        have hle := hpast time hlast
        exact ⟨time, rfl, by omega⟩
      · cases h
  · rintro ⟨time, rfl, hfresh⟩
    have hle := hpast time rfl
    rw [freshValue, if_pos (by omega)]

/-- A cache holds for each key what was inserted for it last and when, if it stores nothing else and
    lacks it only when it is stale. -/
structure Holds (c : TtlCache κ ν) (now : Nat) (last : κ → Option (ν × Nat)) : Prop where
  keyed : c.Keyed
  sound : ∀ k e, (k, e) ∈ c.entries → ∃ time, last k = some (e.value, time) ∧
    e.expires.ns = time + c.ttl.ns
  complete : ∀ k v time, last k = some (v, time) → now < time + c.ttl.ns →
    ∃ e, (k, e) ∈ c.entries

namespace Holds

variable {last : κ → Option (ν × Nat)}

/-- The empty cache holds nothing at any time. -/
theorem empty (ttl : Duration) (now : Nat) : (TtlCache.empty ttl : TtlCache κ ν).Holds now fun _ => none where
  keyed := List.nodup_nil
  sound := nofun
  complete := nofun

/-- As time goes by, more may be stale. -/
theorem later {now' : Nat} (h : c.Holds now last) (hle : now ≤ now') : c.Holds now' last where
  keyed := h.keyed
  sound := h.sound
  complete k v time hlast hfresh := h.complete k v time hlast (Nat.lt_of_le_of_lt hle hfresh)

/-- An entry is fresh iff what was inserted last is. -/
theorem freshValue_of_mem (h : c.Holds now last) (hmem : (k, e) ∈ c.entries) :
    freshValue c.ttl now (last k) = if now < e.expires.ns then some e.value else none := by
  obtain ⟨time, hlast, hexpires⟩ := h.sound k e hmem
  rw [hlast, freshValue, hexpires]

/-- Without an entry nothing fresh was inserted last. -/
theorem freshValue_of_not_mem (h : c.Holds now last) (hnot : ∀ e, (k, e) ∉ c.entries) :
    freshValue c.ttl now (last k) = none := by
  cases hlast : last k with
  | none => rfl
  | some inserted =>
    obtain ⟨v, time⟩ := inserted
    rw [freshValue, if_neg]
    intro hfresh
    obtain ⟨e, hmem⟩ := h.complete k v time hlast hfresh
    exact hnot e hmem

/-- After all keys are dropped nothing was inserted. -/
theorem clear (c : TtlCache κ ν) (now : Nat) : c.clear.Holds now fun _ => none where
  keyed := List.nodup_nil
  sound := nofun
  complete := nofun

/-- A purge does not change what was inserted last. -/
theorem purge (h : c.Holds now last) : (c.purge ⟨now⟩).Holds now last where
  keyed := h.keyed.purge _
  sound k e hmem := h.sound k e (mem_purge.mp hmem).1
  complete k v time hlast hfresh := by
    obtain ⟨e, hmem⟩ := h.complete k v time hlast hfresh
    refine ⟨e, mem_purge.mpr ⟨hmem, ?_⟩⟩
    obtain ⟨time', hlast', hexpires⟩ := h.sound k e hmem
    rw [hlast, Option.some.injEq, Prod.mk.injEq] at hlast'
    rw [hexpires, ← hlast'.2]
    exact hfresh

/-- After a purge the keys of the entries are those that something fresh was inserted for last. -/
theorem mem_keys_purge (h : c.Holds now last) (k : κ) :
    k ∈ (c.purge ⟨now⟩).entries.map Prod.fst ↔ ∃ v, freshValue c.ttl now (last k) = some v := by
  constructor
  · intro hk
    obtain ⟨⟨k, e⟩, hmem, rfl⟩ := List.mem_map.mp hk
    obtain ⟨hmem, hfresh⟩ := mem_purge.mp hmem
    exact ⟨e.value, by rw [h.freshValue_of_mem hmem, if_pos hfresh]⟩
  · rintro ⟨v, hv⟩
    by_contra hk
    have hnot : ∀ e, (k, e) ∉ (c.purge ⟨now⟩).entries := by
      intro e hmem
      exact hk (List.mem_map.mpr ⟨_, hmem, rfl⟩)
    have hnone := h.purge.freshValue_of_not_mem hnot
    rw [show (c.purge ⟨now⟩).ttl = c.ttl from rfl, hv] at hnone
    cases hnone

end Holds

/-! ### Single keys -/

variable [BEq κ]

theorem Keyed.erase (h : c.Keyed) (key : κ) : (c.erase key).Keyed :=
  h.sublist (List.filter_sublist.map Prod.fst)

/-- What an insertion does, if there is a moment at which the value goes stale. -/
theorem insert?_eq (key : κ) (v : ν) : c.insert? ⟨now⟩ key v =
    if Showable (now + c.ttl.ns) then
      some ⟨c.ttl, (key, ⟨v, ⟨now + c.ttl.ns⟩⟩) :: (c.erase key).entries⟩
    else none := by
  simp only [insert?, Moment.after?, Moment.fits_iff]
  split <;> rfl

/-- The time to live belongs to the cache and is not changed by an insert. -/
theorem ttl_of_insert? {c' : TtlCache κ ν} {v : ν} (h : c.insert? ⟨now⟩ key v = some c') :
    c'.ttl = c.ttl := by
  rw [insert?_eq] at h
  split at h
  · cases h
    rfl
  · cases h

/-- The time to live is not changed by a look-up either. -/
theorem get_ttl (c : TtlCache κ ν) (now : Moment) (key : κ) : (c.get now key).2.ttl = c.ttl := by
  rw [get]
  split
  · split <;> rfl
  · rfl

variable [LawfulBEq κ]

/-- Erasing a key drops its entries and nothing else. -/
theorem mem_erase : (k, e) ∈ (c.erase key).entries ↔ (k, e) ∈ c.entries ∧ k ≠ key := by
  simp [TtlCache.erase]

/-- An entry that is found is in the cache. -/
theorem mem_of_lookup (h : c.entry? k = some e) : (k, e) ∈ c.entries := by
  obtain ⟨before, after, hsplit, -⟩ := List.lookup_eq_some_iff.mp h
  rw [hsplit]
  exact List.mem_append_right _ List.mem_cons_self

/-- Where nothing is found under a key, nothing is there. -/
theorem not_mem_of_lookup (h : c.entry? k = none) : (k, e) ∉ c.entries := by
  intro hmem
  simpa using List.lookup_eq_none_iff.mp h _ hmem

namespace Holds

variable {last : κ → Option (ν × Nat)}

/-- **Looking up.** What is given out is what was inserted last, while it is fresh. -/
theorem get_fst (h : c.Holds now last) (k : κ) :
    (c.get ⟨now⟩ k).1 = freshValue c.ttl now (last k) := by
  rw [TtlCache.get]
  cases hentry : c.entry? k with
  | none => exact (h.freshValue_of_not_mem fun e => not_mem_of_lookup hentry).symm
  | some e =>
    rw [h.freshValue_of_mem (mem_of_lookup hentry)]
    by_cases hfresh : now < e.expires.ns <;> simp [CacheEntry.isFresh, Moment.isBefore, hfresh]

/-- An entry that is dropped because it is stale is not missed. -/
theorem erase_stale (h : c.Holds now last) (hmem : (key, e) ∈ c.entries)
    (hstale : ¬now < e.expires.ns) : (c.erase key).Holds now last where
  keyed := h.keyed.erase key
  sound k e he := h.sound k e (mem_erase.mp he).1
  complete k v time hlast hfresh := by
    obtain ⟨e', he'⟩ := h.complete k v time hlast hfresh
    refine ⟨e', mem_erase.mpr ⟨he', ?_⟩⟩
    rintro rfl
    obtain ⟨time', hlast', hexpires⟩ := h.sound k e hmem
    rw [hlast, Option.some.injEq, Prod.mk.injEq] at hlast'
    rw [hexpires, ← hlast'.2] at hstale
    exact hstale hfresh

/-- A look-up does not change what was inserted last. -/
theorem get (h : c.Holds now last) (k : κ) : (c.get ⟨now⟩ k).2.Holds now last := by
  rw [TtlCache.get]
  cases hentry : c.entry? k with
  | none => exact h
  | some e =>
    by_cases hfresh : e.isFresh ⟨now⟩ = true
    · simpa [hfresh] using h
    · have hstale : ¬now < e.expires.ns := by
        simpa [CacheEntry.isFresh, Moment.isBefore] using hfresh
      simpa [hfresh] using h.erase_stale (mem_of_lookup hentry) hstale

/-- After an insertion that is what was inserted last. -/
theorem insert {c' : TtlCache κ ν} (h : c.Holds now last) (key : κ) (v : ν)
    (hc : c.insert? ⟨now⟩ key v = some c') :
    c'.Holds now fun k => if key == k then some (v, now) else last k := by
  rw [insert?_eq] at hc
  split at hc
  · cases hc
    refine ⟨?_, ?_, ?_⟩
    -- the old entries of the key were erased before
    · refine List.nodup_cons.mpr ⟨?_, h.keyed.erase key⟩
      simp [TtlCache.erase]
    · intro k e hmem
      obtain heq | hmem := List.mem_cons.mp hmem
      -- the new entry, or one that was there under another key
      · cases heq
        exact ⟨now, by simp, rfl⟩
      · obtain ⟨hmem, hne⟩ := mem_erase.mp hmem
        obtain ⟨time, hlast, hexpires⟩ := h.sound k e hmem
        exact ⟨time, by simpa [hne.symm] using hlast, hexpires⟩
    · intro k v' time hlast hfresh
      -- what is fresh under another key is not touched
      by_cases hk : key = k
      · exact ⟨_, by rw [hk]; exact List.mem_cons_self⟩
      · obtain ⟨e, hmem⟩ := h.complete k v' time (by simpa [hk] using hlast) hfresh
        exact ⟨e, List.mem_cons_of_mem _ (mem_erase.mpr ⟨hmem, Ne.symm hk⟩)⟩
  · cases hc

/-- After a key is dropped nothing was inserted for it. -/
theorem invalidate (h : c.Holds now last) (key : κ) :
    (c.invalidate key).2.Holds now fun k => if key == k then none else last k where
  keyed := h.keyed.erase key
  sound k e hmem := by
    obtain ⟨hmem, hne⟩ := mem_erase.mp hmem
    obtain ⟨time, hlast, hexpires⟩ := h.sound k e hmem
    exact ⟨time, by simpa [hne.symm] using hlast, hexpires⟩
  complete k v time hlast hfresh := by
    have hk : key ≠ k := by
      rintro rfl
      simp at hlast
    obtain ⟨e, hmem⟩ := h.complete k v time (by simpa [hk] using hlast) hfresh
    exact ⟨e, mem_erase.mpr ⟨hmem, hk.symm⟩⟩

end Holds

end TtlCache

end QueryGate
