import QueryGate.Proofs.Outcome
import QueryGate.Settings.Document

namespace QueryGate

/-!
# Numbers in settings

Every number that a document spells has a bound, and so have the defaults:

* `Settings.read_eq_ok_iff` — what is read is what the text spells and passes the check;
* `Settings.fits_of_read` — the numbers of all settings that are read fit their fields.
-/

/-! ### Counts in documents -/

/-- What holds of a default, and of all that is read from a value, holds of a field. -/
theorem field_forall {entries : List (String × Yaml.Node)} {name : String} {otherwise a : α}
    {read : Yaml.Node → Option α} {p : α → Prop} (hotherwise : p otherwise)
    (hread : ∀ n, read n = some a → p a) (h : field entries name read otherwise = some a) : p a := by
  rw [field] at h
  split at h
  · cases h
    exact hotherwise
  · exact hread _ h
  · cases h

/-- A count that a text spells is below the bound. -/
theorem countText?_lt {bound count : Nat} {text : String} (h : countText? bound text = some count) :
    count < bound := by
  have hchecked : ∀ digits : Option Nat,
      (digits.bind fun n => if n < bound then some n else none) = some count → count < bound := by
    intro digits h
    obtain ⟨n, -, h⟩ := Option.bind_eq_some_iff.mp h
    split at h
    · next hlt =>
      cases h
      exact hlt
    · cases h
  simp only [countText?, Option.bind_eq_bind] at h
  -- the bound is tried behind the digits of every base
  split at h <;> exact hchecked _ h

/-- A count in a document is below the bound. -/
theorem readCount?_lt {bound count : Nat} {n : Yaml.Node} (h : readCount? bound n = some count) :
    count < bound := by
  simp only [readCount?, Option.bind_eq_bind, Option.bind_eq_some_iff] at h
  obtain ⟨text, -, h⟩ := h
  exact countText?_lt h

/-- A count is below the bound, also where it is left out. -/
theorem field_count_lt {entries : List (String × Yaml.Node)} {name : String}
    {bound otherwise count : Nat} (hotherwise : otherwise < bound)
    (h : field entries name (readCount? bound) otherwise = some count) : count < bound :=
  field_forall (p := (· < bound)) hotherwise (fun _ => readCount?_lt) h

/-! ### Numbers of all settings -/

/-- Settings whose numbers fit their fields. -/
structure Settings.Fits (s : Settings) : Prop where
  maxRows : s.gate.maxRows < bound64
  port : s.connection.port < Nat.pow 2 16
  ttlSeconds : s.cache.ttlSeconds < bound64
  timeoutMs : s.execution.timeoutMs < bound64
  maxConnections : s.execution.maxConnections < Nat.pow 2 32

/-- The defaults are within the bounds. -/
theorem Settings.fits_default : Settings.default.Fits :=
  ⟨by decide, by decide, by decide, by decide, by decide⟩

/-- What is read from a document fits in 64 bits. -/
theorem GateSettings.maxRows_lt_of_node {g : GateSettings} {n : Yaml.Node}
    (h : GateSettings.ofNode? n = some g) : g.maxRows < bound64 := by
  simp only [ofNode?, Option.bind_eq_bind, Option.bind_eq_some_iff] at h
  obtain ⟨_, -, _, -, _, hmaxRows, _, -, _, -, _, -, _, -, h⟩ := h
  cases h
  exact field_count_lt Settings.fits_default.maxRows hmaxRows

/-- A port that is read fits in 16 bits. -/
theorem ConnectionSettings.port_lt_of_node {c : ConnectionSettings} {n : Yaml.Node}
    (h : ConnectionSettings.ofNode? n = some c) : c.port < Nat.pow 2 16 := by
  simp only [ofNode?, Option.bind_eq_bind, Option.bind_eq_some_iff] at h
  obtain ⟨_, -, _, -, _, hport, _, -, _, -, _, -, _, -, h⟩ := h
  cases h
  exact field_count_lt Settings.fits_default.port hport

/-- A time to live that is read fits in 64 bits. -/
theorem CacheSettings.ttlSeconds_lt_of_node {c : CacheSettings} {n : Yaml.Node}
    (h : CacheSettings.ofNode? n = some c) : c.ttlSeconds < bound64 := by
  simp only [ofNode?, Option.bind_eq_bind, Option.bind_eq_some_iff] at h
  obtain ⟨_, -, _, httl, h⟩ := h
  cases h
  exact field_count_lt Settings.fits_default.ttlSeconds httl

/-- A time-out that is read fits in 64 bits, a number of connections in 32. -/
theorem ExecutionSettings.counts_lt_of_node {e : ExecutionSettings} {n : Yaml.Node}
    (h : ExecutionSettings.ofNode? n = some e) :
    e.timeoutMs < bound64 ∧ e.maxConnections < Nat.pow 2 32 := by
  simp only [ofNode?, Option.bind_eq_bind, Option.bind_eq_some_iff] at h
  obtain ⟨_, -, _, htimeout, _, hconnections, _, -, h⟩ := h
  cases h
  exact ⟨field_count_lt Settings.fits_default.timeoutMs htimeout,
    field_count_lt Settings.fits_default.maxConnections hconnections⟩

/-- The numbers that a document spells fit their fields. -/
theorem Settings.fits_of_node {s : Settings} {n : Yaml.Node} (h : Settings.ofNode? n = some s) :
    s.Fits := by
  simp only [ofNode?, Option.bind_eq_bind, Option.bind_eq_some_iff] at h
  obtain ⟨_, -, _, -, _, hgate, _, hconnection, _, hcache, _, hexecution, h⟩ := h
  cases h
  have hcounts := field_forall (p := fun e => e.timeoutMs < bound64 ∧ e.maxConnections < Nat.pow 2 32)
    ⟨fits_default.timeoutMs, fits_default.maxConnections⟩
    (fun _ => ExecutionSettings.counts_lt_of_node) hexecution
  exact {
    maxRows := field_forall (p := fun g => g.maxRows < bound64) fits_default.maxRows
      (fun _ => GateSettings.maxRows_lt_of_node) hgate
    port := field_forall (p := fun c => c.port < Nat.pow 2 16) fits_default.port
      (fun _ => ConnectionSettings.port_lt_of_node) hconnection
    ttlSeconds := field_forall (p := fun c => c.ttlSeconds < bound64) fits_default.ttlSeconds
      (fun _ => CacheSettings.ttlSeconds_lt_of_node) hcache
    timeoutMs := hcounts.1
    maxConnections := hcounts.2 }

/-- Settings are read iff the text spells them and they pass the check. -/
theorem Settings.read_eq_ok_iff {text : String} {s : Settings} :
    Settings.read text = .ok s ↔ Settings.parse? text = some s ∧ s.check = .ok () := by
  rw [Settings.read]
  cases hparse : Settings.parse? text with
  | none => exact ⟨nofun, nofun⟩
  | some parsed =>
    rw [bind_eq_ok_iff]
    refine ⟨fun ⟨_, hcheck, hs⟩ => ?_, fun ⟨hs, hcheck⟩ => ?_⟩
    · cases hs
      exact ⟨rfl, hcheck⟩
    · cases hs
      exact ⟨(), hcheck, rfl⟩

/-- **Numbers in settings.** The numbers of settings that are read fit their fields. -/
theorem Settings.fits_of_read {text : String} {s : Settings} (h : Settings.read text = .ok s) :
    s.Fits := by
  have hparse := (read_eq_ok_iff.mp h).1
  rw [Settings.parse?] at hparse
  split at hparse
  · cases hparse
    exact fits_default
  · split at hparse
    · exact fits_of_node hparse
    · cases hparse
      exact fits_default
    · cases hparse

end QueryGate
