import Mathlib
import QueryGate.Sql.Parser

namespace QueryGate.Sql.Parser

/-!
# Literals as instances

The grammar names its keywords and symbols by string literals.  What a proof has to know of them —
that one is not another, or that it is one of a list — is found by instance resolution here, so
that a parser's text alone decides which lemmas apply to it.
-/

/-- Two terms that unify. -/
class Unifies {α : Type} (a : α) (b : outParam α) : Prop where
  eq : a = b

instance {α : Type} {a : α} : Unifies a a := ⟨rfl⟩

/-! ### Literals that differ -/

/-- The characters of a literal. -/
class Spelt (s : String) (cs : outParam (List Char)) : Prop where
  eq : s = String.ofList cs

instance : Spelt "" [] := ⟨rfl⟩

instance {s : String} {c : Char} {cs : List Char} [h : Unifies s (String.ofList (c :: cs))] :
    Spelt s (c :: cs) := ⟨h.eq⟩

/-- Two characters that differ. -/
class CharDiffer (c d : Char) : Prop where
  ne : c ≠ d

/-- ASCII characters differ if their code points do. -/
instance {m n : Nat} [h : Unifies (Nat.beq m n) false] [hm : Unifies (Nat.ble m 127) true]
    [hn : Unifies (Nat.ble n 127) true] : CharDiffer (Char.ofNat m) (Char.ofNat n) := by
  refine ⟨fun hchar => ?_⟩
  have hvalid {k : Nat} (hk : Nat.ble k 127 = true) : (Char.ofNat k).toNat = k := by
    have := Nat.le_of_ble_eq_true hk
    rw [Char.toNat_ofNat, if_pos (.inl (by omega))]
  have heq : m = n := by
    rw [← hvalid hm.eq, ← hvalid hn.eq, hchar]
  exact Nat.ne_of_beq_eq_false h.eq heq

/-- Two lists of characters that differ. -/
class Apart (cs ds : List Char) : Prop where
  ne : cs ≠ ds

instance {c : Char} {cs : List Char} : Apart (c :: cs) [] := ⟨nofun⟩

instance {c : Char} {cs : List Char} : Apart [] (c :: cs) := ⟨nofun⟩

instance {c d : Char} {cs ds : List Char} [h : Apart cs ds] : Apart (c :: cs) (d :: ds) :=
  ⟨fun heq => h.ne (List.cons.inj heq).2⟩

instance {c d : Char} {cs ds : List Char} [h : CharDiffer c d] : Apart (c :: cs) (d :: ds) :=
  ⟨fun heq => h.ne (List.cons.inj heq).1⟩

/-- Two strings that differ. -/
class Differ (s t : String) : Prop where
  ne : s ≠ t

instance {s t : String} {cs ds : List Char} [hs : Spelt s cs] [ht : Spelt t ds]
    [h : Apart cs ds] : Differ s t :=
  ⟨fun heq => h.ne (String.ofList_injective (hs.eq.symm.trans (heq.trans ht.eq)))⟩

/-- A string that differs from all in a list. -/
class DifferAll (ss : List String) (t : String) : Prop where
  ne : ∀ s ∈ ss, s ≠ t

instance {t : String} : DifferAll [] t := ⟨nofun⟩

instance {s t : String} {ss : List String} [h : Differ s t] [hs : DifferAll ss t] :
    DifferAll (s :: ss) t :=
  ⟨List.forall_mem_cons.mpr ⟨h.ne, hs.ne⟩⟩

/-! ### Literals of a list -/

/-- A string of a list. -/
class Among (s : String) (ss : List String) : Prop where
  mem : s ∈ ss

instance {s : String} {ss : List String} : Among s (s :: ss) := ⟨List.mem_cons_self ..⟩

instance {s t : String} {ss : List String} [h : Among s ss] : Among s (t :: ss) :=
  ⟨List.mem_cons_of_mem _ h.mem⟩

/-- Strings that are all of a list. -/
class AllAmong (ss ts : List String) : Prop where
  subset : ∀ s ∈ ss, s ∈ ts

instance {ts : List String} : AllAmong [] ts := ⟨nofun⟩

instance {s : String} {ss ts : List String} [h : Among s ts] [hs : AllAmong ss ts] :
    AllAmong (s :: ss) ts :=
  ⟨List.forall_mem_cons.mpr ⟨h.mem, hs.subset⟩⟩

end QueryGate.Sql.Parser
