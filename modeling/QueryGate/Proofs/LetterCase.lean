import Mathlib.Data.List.Forall2
import QueryGate.Text.Blank
import QueryGate.Text.Case

namespace QueryGate.Text

/-!
# ASCII and letter case

* `forall_ascii` — what holds of all codes below 128 holds of all ASCII characters;
* `lower_of_ascii` / `upper_of_ascii` — in ASCII, upper and lower case change single letters;
* `lowerChars_map_toLower` — the lower case of a text does not depend on its ASCII case;
* `trim_map_toLower` — nor does what is a blank.
-/

/-- What holds of all codes below 128 holds of all ASCII characters. -/
theorem forall_ascii {p : Char → Prop} (h : ∀ n < 128, p (Char.ofNat n)) (c : Char)
    (hc : c.toNat < 128) : p c := by
  have hcode := h c.toNat hc
  rwa [Char.ofNat_toNat] at hcode

/-! ### ASCII texts -/

/-- In ASCII, upper and lower case change single letters. -/
theorem upper_of_ascii {s : String} (h : ∀ c ∈ s.toList, c.toNat < 128) :
    upper s = String.ofList (s.toList.map Char.toUpper) := by
  refine congrArg String.ofList ?_
  rw [upperChars, List.map_eq_flatMap]
  exact List.flatMap_congr fun c hc => if_pos (h c hc)

/-- On ASCII text the full lower case is the one letter by letter. -/
theorem lower_of_ascii {s : String} (h : ∀ c ∈ s.toList, c.toNat < 128) :
    lower s = String.ofList (s.toList.map Char.toLower) := by
  have hafter : ∀ (before cs : List Char), (∀ c ∈ cs, c.toNat < 128) →
      lowerAfter before cs = cs.map Char.toLower := by
    intro before cs hcs
    induction cs generalizing before with
    | nil => rfl
    | cons c cs ih =>
      have hc : c.toNat < 128 := hcs c (List.mem_cons_self ..)
      have hsigma : c ≠ 'Σ' := by
        rintro rfl
        exact absurd hc (by decide)
      rw [lowerAfter, if_neg hsigma, lowerChar, if_pos hc,
        ih _ fun x hx => hcs x (List.mem_cons_of_mem c hx)]
      rfl
  exact congrArg String.ofList (hafter [] s.toList h)

/-- ASCII words with the same upper case have the same lower case. -/
theorem lower_eq_of_upper_eq {s t : String} (hs : ∀ c ∈ s.toList, c.toNat < 128)
    (ht : ∀ c ∈ t.toList, c.toNat < 128) (h : upper s = upper t) : lower s = lower t := by
  have hchar : ∀ c : Char, c.toNat < 128 → c.toUpper.toLower = c.toLower := by
    have hcodes : ∀ n < 128, (Char.ofNat n).toUpper.toLower = (Char.ofNat n).toLower := by decide
    exact forall_ascii hcodes
  have hmap : ∀ {u : String}, (∀ c ∈ u.toList, c.toNat < 128) →
      lower u = String.ofList ((u.toList.map Char.toUpper).map Char.toLower) := by
    intro u hu
    rw [lower_of_ascii hu, List.map_map]
    exact congrArg String.ofList (List.map_congr_left fun c hc => (hchar c (hu c hc)).symm)
  rw [upper_of_ascii hs, upper_of_ascii ht] at h
  rw [hmap hs, hmap ht, String.ofList_inj.mp h]

/-! ### Texts up to ASCII case -/

/-- What tells no letter from its other case is the same for both. -/
theorem toLower_congr [DecidableEq β] (f : Char → β)
    (h : ∀ n < 128, f (Char.ofNat n).toLower = f (Char.ofNat n)) (c : Char) : f c.toLower = f c := by
  by_cases hc : c.toNat < 128
  · exact forall_ascii (p := fun c => f c.toLower = f c) h c hc
  · -- beyond ASCII there is nothing to change
    have hsame : c.toLower = c := by
      have hval : c.val.toNat = c.toNat := rfl
      unfold Char.toLower
      rw [dif_neg]
      simp only [ge_iff_le, UInt32.le_iff_toNat_le, not_and, Nat.not_le, hval]
      intro _
      have hz : 'Z'.val.toNat = 90 := rfl
      omega
    rw [hsame]

@[simp] theorem toLower_beq_dot (c : Char) : (c.toLower == '.') = (c == '.') :=
  toLower_congr (· == '.') (by decide) c

@[simp] theorem isBlank_toLower (c : Char) : isBlank c.toLower = isBlank c :=
  toLower_congr isBlank (by decide) c

/-- A letter and its lower case are treated alike around a sigma. -/
theorem isCaseIgnorable_toLower (c : Char) : isCaseIgnorable c.toLower = isCaseIgnorable c :=
  toLower_congr isCaseIgnorable (by decide) c

/-- A letter and its lower case both have case. -/
theorem isCased_toLower (c : Char) : isCased c.toLower = isCased c :=
  toLower_congr isCased (by decide) c

/-- The lower case of a letter does not depend on how it was written. -/
theorem lowerChar_toLower (c : Char) : lowerChar c.toLower = lowerChar c :=
  toLower_congr lowerChar (by decide) c

theorem toLower_beq_sigma (c : Char) : (c.toLower == 'Σ') = (c == 'Σ') :=
  toLower_congr (· == 'Σ') (by decide) c

/-- The neighbours of a letter have a case in both cases. -/
theorem nextIsCased_map_toLower (cs : List Char) :
    nextIsCased (cs.map Char.toLower) = nextIsCased cs := by
  have hignorable : isCaseIgnorable ∘ Char.toLower = isCaseIgnorable :=
    funext isCaseIgnorable_toLower
  rw [nextIsCased, nextIsCased, List.dropWhile_map, hignorable]
  cases cs.dropWhile isCaseIgnorable with
  | nil => rfl
  | cons c _ => exact isCased_toLower c

/-- Lower case in context does not depend on the case of ASCII letters. -/
theorem lowerAfter_map_toLower (before cs : List Char) :
    lowerAfter (before.map Char.toLower) (cs.map Char.toLower) = lowerAfter before cs := by
  induction cs generalizing before with
  | nil => rfl
  | cons c cs ih =>
    have hrest := ih (c :: before)
    have hsigma : c.toLower = 'Σ' ↔ c = 'Σ' := by
      rw [← beq_iff_eq, toLower_beq_sigma, beq_iff_eq]
    rw [List.map_cons] at hrest
    rw [List.map_cons, lowerAfter, lowerAfter, hrest, lowerSigma, lowerSigma,
      nextIsCased_map_toLower, nextIsCased_map_toLower, lowerChar_toLower]
    simp only [hsigma]

/-- The lower case of a text does not depend on the case of its ASCII letters. -/
theorem lowerChars_map_toLower (cs : List Char) : lowerChars (cs.map Char.toLower) = lowerChars cs :=
  lowerAfter_map_toLower [] cs

theorem trimStart_map_toLower (cs : List Char) :
    trimStart (cs.map Char.toLower) = (trimStart cs).map Char.toLower := by
  have hblank : isBlank ∘ Char.toLower = isBlank := funext isBlank_toLower
  rw [trimStart, trimStart, List.dropWhile_map, hblank]

theorem trimEnd_map_toLower (cs : List Char) :
    trimEnd (cs.map Char.toLower) = (trimEnd cs).map Char.toLower := by
  have hblank : isBlank ∘ Char.toLower = isBlank := funext isBlank_toLower
  rw [trimEnd, trimEnd, ← List.map_reverse, List.dropWhile_map, hblank, List.map_reverse]

/-- Trimming sees no letters. -/
theorem trim_map_toLower (cs : List Char) : trim (cs.map Char.toLower) = (trim cs).map Char.toLower := by
  rw [trim, trimStart_map_toLower, trimEnd_map_toLower, ← trim]

end QueryGate.Text
