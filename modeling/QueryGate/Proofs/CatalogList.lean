import Mathlib
import QueryGate.Catalog
import QueryGate.Proofs.TableSpelling

namespace QueryGate

open Text

/-!
# The allow-list of a catalog

A catalog gives names as they are, while the default schema of an allow-list is read as
configuration text: blanks at its ends and quotes around it are cut. The two agree on a schema that
has neither.

* `Text.length_lowerChars` — lower case makes a text longer by its dotted capital I's alone;
* `TableName.schemaPart_eq_lower_iff` — a schema keeps its name as configuration text iff nothing is
  cut from it;
* `Catalog.allowList_grants` — what resolves in the allow-list of a catalog, and when that is all of
  the schema's tables with and without the schema.
-/

/-! ### The length of a text in lower case -/

namespace Text

/-- Only the capital I with a dot has more than one character in lower case. -/
theorem length_lowerChar (c : Char) :
    (lowerChar c).length = if c.toNat = 0x130 then 2 else 1 := by
  rw [lowerChar]
  by_cases hascii : c.toNat < 128
  · rw [if_pos hascii, if_neg (by omega), List.length_singleton]
  · rw [if_neg hascii]
    by_cases hdotted : c.toNat = 0x130
    · rw [if_pos hdotted, if_pos hdotted]
      rfl
    · rw [if_neg hdotted, if_neg hdotted]
      cases CaseRun.image? lowerRuns c.toNat <;> rfl

/-- Lower case keeps the number of characters, but for the capital I with a dot, which
    becomes two. -/
theorem length_lowerAfter (before cs : List Char) :
    (lowerAfter before cs).length = cs.length + cs.countP fun c => c.toNat = 0x130 := by
  induction cs generalizing before with
  | nil => rfl
  | cons c cs ih =>
    have hhead : (if c = 'Σ' then [lowerSigma before cs] else lowerChar c).length =
        1 + if c.toNat = 0x130 then 1 else 0 := by
      by_cases hsigma : c = 'Σ'
      · rw [if_pos hsigma, hsigma]
        rfl
      · rw [if_neg hsigma, length_lowerChar]
        split <;> rfl
    rw [lowerAfter, List.length_append, hhead, ih, List.length_cons, List.countP_cons]
    simp only [decide_eq_true_eq]
    omega

/-- Lower case makes a text longer by its dotted capital I's alone. -/
theorem length_lowerChars (cs : List Char) :
    (lowerChars cs).length = cs.length + cs.countP fun c => c.toNat = 0x130 :=
  length_lowerAfter [] cs

/-- A text has no other lower case than a text that is cut from it, unless nothing is cut. -/
theorem eq_of_lowerChars_eq {part cs : List Char} (hpart : part.Sublist cs)
    (h : lowerChars part = lowerChars cs) : part = cs := by
  have hlength := congrArg List.length h
  have hcount : part.countP (fun c => c.toNat = 0x130) ≤ cs.countP fun c => c.toNat = 0x130 :=
    hpart.countP_le
  rw [length_lowerChars, length_lowerChars] at hlength
  exact hpart.eq_of_length_le (by omega)

/-- Lower case makes no text empty. -/
theorem lower_ne_empty {s : String} (h : s ≠ "") : lower s ≠ "" := by
  intro hlower
  have hlength := length_lowerChars s.toList
  rw [String.ofList_eq_empty_iff.mp hlower] at hlength
  exact h (String.toList_eq_nil_iff.mp (List.length_eq_zero_iff.mp (by simp at hlength; omega)))

theorem trim_sublist (cs : List Char) : (trim cs).Sublist cs := by
  have hend : (trim cs).reverse.Sublist (trimStart cs).reverse := by
    rw [trim, trimEnd, List.reverse_reverse]
    exact List.dropWhile_sublist _
  exact (List.reverse_sublist.mp hend).trans (List.dropWhile_sublist _)

end Text

/-! ### Schemas as configuration text -/

theorem unquoted_sublist (cs : List Char) : (unquoted cs).Sublist cs := by
  unfold unquoted
  split
  · split
    · split
      · exact (List.dropLast_sublist _).cons _
      · exact List.Sublist.refl _
    · exact List.Sublist.refl _
  · exact List.Sublist.refl _

namespace TableName

/-- A schema keeps its name as configuration text iff nothing is cut from it. -/
theorem schemaPart_eq_lower_iff (schema : String) :
    schemaPart schema = lower schema ↔ unquoted (trim schema.toList) = schema.toList := by
  have hcut : (unquoted (trim schema.toList)).Sublist schema.toList :=
    (unquoted_sublist _).trans (trim_sublist _)
  rw [schemaPart, lower, String.ofList_inj]
  exact ⟨eq_of_lowerChars_eq hcut, fun h => by rw [h]⟩

end TableName

/-! ### Lookups -/

namespace Catalog

open TableName

/-- An entry with its schema in front, in the list of a catalog. -/
theorem qualifiedWith_ofParts {schema name : String} (hname : name ≠ "") :
    (ofParts [schema, name]).qualifiedWith (some schema) = ⟨[lower schema, lower name]⟩ := by
  have hpart : (lower name).isEmpty = false := by simp [lower_ne_empty hname]
  by_cases hschema : schema = ""
  · -- the empty schema is left out of the entry and comes back with the default schema
    have hentry : ofParts [schema, name] = ⟨[lower name]⟩ := by
      have hempty : (lower "").isEmpty = true := rfl
      simp only [ofParts, hschema, List.map_cons, List.map_nil, List.filter_cons, List.filter_nil,
        hempty, hpart, Bool.not_true, Bool.not_false, Bool.false_eq_true, if_true, if_false]
    rw [hentry, hschema]
    rfl
  · have hentry : ofParts [schema, name] = ⟨[lower schema, lower name]⟩ := by
      have hfirst : (lower schema).isEmpty = false := by simp [lower_ne_empty hschema]
      simp only [ofParts, List.map_cons, List.map_nil, List.filter_cons, List.filter_nil, hfirst,
        hpart, Bool.not_false, if_true]
    rw [hentry]
    rfl

/-- A reference is an entry once both are qualified, if it names the entry with its schema, or
    without it where the schema in force is read as the entry's. -/
theorem qualifiedWith_eq_entry_iff {schema name : String} (hname : name ≠ "") (n : TableName) :
    n.qualifiedWith (some schema) = ⟨[lower schema, lower name]⟩ ↔
      n.parts = [lower schema, lower name] ∨
        n.parts = [lower name] ∧ schemaPart schema = lower schema := by
  obtain ⟨parts⟩ := n
  rcases parts with _ | ⟨part, _ | ⟨second, rest⟩⟩
  · simp [qualifiedWith, isQualified, table, (lower_ne_empty hname).symm]
  · simp [qualifiedWith, isQualified, table, and_comm]
  · simp [qualifiedWith, isQualified]

/-- What resolves in the allow-list of a catalog. -/
theorem resolves_allowList {schema : String} {names : List String}
    (hnames : ∀ name ∈ names, name ≠ "") (n : TableName) (fallback : Option String) :
    (allowList schema names).resolves n fallback = true ↔
      ∃ name ∈ names, n.parts = [lower schema, lower name] ∨
        n.parts = [lower name] ∧ schemaPart schema = lower schema := by
  have hname : ∀ name ∈ names, ((ofParts [schema, name]).qualifiedWith (some schema)
      = n.qualifiedWith (some schema) ↔ n.parts = [lower schema, lower name] ∨
        n.parts = [lower name] ∧ schemaPart schema = lower schema) := by
    intro name hmem
    rw [qualifiedWith_ofParts (hnames name hmem), eq_comm,
      qualifiedWith_eq_entry_iff (hnames name hmem)]
  rw [allowList, AllowList.resolves_ofNames]
  simp only [List.mem_map, exists_exists_and_eq_and]
  exact exists_congr fun name => and_congr_right fun hmem => hname name hmem

/-- **Catalog lists.** A reference resolves in the allow-list of a schema iff it is the lower case
    of a listed name behind the lower case of the schema, or that name alone where nothing is cut
    from the schema as configuration text. So the listed tables are what resolves, each with and
    without its schema, iff nothing is listed or nothing is cut. -/
theorem allowList_grants (schema : String) (names : List String)
    (hnames : ∀ name ∈ names, name ≠ "") :
    (∀ (n : TableName) (fallback : Option String),
      (allowList schema names).resolves n fallback = true ↔
        ∃ name ∈ names, n.parts = [lower schema, lower name] ∨
          n.parts = [lower name] ∧ unquoted (trim schema.toList) = schema.toList) ∧
    ((∀ (n : TableName) (fallback : Option String),
      (allowList schema names).resolves n fallback = true ↔
        ∃ name ∈ names, n.parts = [lower schema, lower name] ∨ n.parts = [lower name]) ↔
      names = [] ∨ unquoted (trim schema.toList) = schema.toList) := by
  have hresolves : ∀ (n : TableName) (fallback : Option String),
      (allowList schema names).resolves n fallback = true ↔
        ∃ name ∈ names, n.parts = [lower schema, lower name] ∨
          n.parts = [lower name] ∧ unquoted (trim schema.toList) = schema.toList := by
    intro n fallback
    rw [resolves_allowList hnames, schemaPart_eq_lower_iff]
  refine ⟨hresolves, fun hall => ?_, ?_⟩
  · refine or_iff_not_imp_left.mpr fun hlisted => ?_
    obtain ⟨name, hmem⟩ := List.exists_mem_of_ne_nil names hlisted
    -- a listed table without its schema
    have hbare := (hall ⟨[lower name]⟩ none).mpr ⟨name, hmem, .inr rfl⟩
    obtain ⟨other, -, hqualified | ⟨-, hkept⟩⟩ := (hresolves _ _).mp hbare
    · exact absurd hqualified (by simp)
    · exact hkept
  · rintro (rfl | hkept) n fallback
    · simp [hresolves]
    · simp only [hresolves, hkept, and_true]

/-- The tables of an ordinary schema. -/
theorem sales_grants :
    (allowList "Sales" ["Orders", "odd.name"]).resolves ⟨["odd.name"]⟩ none = true :=
  ((allowList_grants "Sales" ["Orders", "odd.name"] (by decide)).1 ⟨["odd.name"]⟩ none).mpr
    ⟨"odd.name", by decide, .inr ⟨by decide, by decide⟩⟩

/-- In a schema with quotes around its name a listed table does not resolve without the schema. -/
theorem quotedSchema_unreached :
    "orders" ∈ ["orders"] ∧
      (allowList "\"sales\"" ["orders"]).resolves ⟨[lower "orders"]⟩ none = false := by
  decide

end Catalog

end QueryGate
