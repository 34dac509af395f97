import QueryGate.Proofs.RowCap

namespace QueryGate

open Sql

/-!
# Positions, places and bytes

A token stands at a line and a column, a rewrite cuts at bytes, and a reader counts characters.
The three go together for every text, whatever its characters take in UTF-8:

* `Sql.placeAt` — the line and the column in front of the character at a position;
* `Sql.byteOffset?_placeAt` — a place leads back to the bytes in front of its position;
* `Sql.Delimits` — a span that leads to the bytes between two positions, and to no part of a
  character; `Sql.delimits_placeAt`, that the span between their places does;
* `Sql.span_of_scan` — the tokens of a text stand between such places;
* `RowLimit.enforce_clamp_cuts` — the rewrite that clamps a count cuts at the ends of its token;
* `RowLimit.places_lead_back` — all of it.
-/

/-! ### Bytes -/

namespace Sql

/-- The length in bytes is that of the text in UTF-8. -/
theorem utf8ByteSize_ofList (cs : List Char) :
    (String.ofList cs).utf8ByteSize = byteLength cs := by
  induction cs with
  | nil => rfl
  | cons c cs ih =>
    rw [← List.singleton_append, String.ofList_append, String.utf8ByteSize_append, ih,
      byteLength_append]
    simp

/-- The bytes in the middle of a text are those of the text in the middle. -/
theorem extract_middle (a b c : List Char) :
    (String.ofList (a ++ b ++ c)).toByteArray.extract (byteLength a) (byteLength (a ++ b)) =
      (String.ofList b).toByteArray := by
  have hbehind := ByteArray.extract_append_size_add (a := (String.ofList a).toByteArray)
    (b := (String.ofList b).toByteArray ++ (String.ofList c).toByteArray) (i := 0)
    (j := (String.ofList b).toByteArray.size)
  rw [Nat.add_zero, ByteArray.extract_append_eq_left rfl] at hbehind
  rw [byteLength_append, ← utf8ByteSize_ofList, ← utf8ByteSize_ofList, ← String.size_toByteArray,
    ← String.size_toByteArray, String.ofList_append, String.ofList_append, String.toByteArray_append,
    String.toByteArray_append, ByteArray.append_assoc, hbehind]

/-! ### Positions -/

/-- The place in front of the character at a position, or behind the text. -/
def placeAt (cs : List Char) (p : Nat) : Location := Location.origin.after (cs.take p)

variable {cs : List Char} {p q : Nat}

/-- **Offsets.** A place leads back to the bytes in front of its position. -/
theorem byteOffset?_placeAt (cs : List Char) (p : Nat) :
    byteOffset? cs (placeAt cs p) = some (byteLength (cs.take p)) := by
  have hback := byteOffset?_after (cs.take p) (cs.drop p)
  rwa [List.take_append_drop] at hback

/-- A text in three parts, from its start, between two positions and from there on. -/
theorem take_middle_drop (cs : List Char) (h : p ≤ q) :
    cs = cs.take p ++ (cs.take q).drop p ++ cs.drop q ∧
      cs.take p ++ (cs.take q).drop p = cs.take q := by
  have hfront : cs.take p ++ (cs.take q).drop p = cs.take q := by
    have htake : (cs.take q).take p = cs.take p := by rw [List.take_take, Nat.min_eq_left h]
    rw [← htake, List.take_append_drop]
  exact ⟨by rw [hfront, List.take_append_drop], hfront⟩

/-- A span leads to the bytes of the characters between two positions, and both of its ends are
    borders between characters. -/
structure Delimits (cs : List Char) (s : Span) (p q : Nat) : Prop where
  range : byteRange? cs s =
    some ((String.ofList (cs.take p)).utf8ByteSize, (String.ofList (cs.take q)).utf8ByteSize)
  bytes : (String.ofList cs).toByteArray.extract (String.ofList (cs.take p)).utf8ByteSize
    (String.ofList (cs.take q)).utf8ByteSize = (String.ofList ((cs.take q).drop p)).toByteArray
  start : String.Pos.Raw.IsValid (String.ofList cs) ⟨(String.ofList (cs.take p)).utf8ByteSize⟩
  stop : String.Pos.Raw.IsValid (String.ofList cs) ⟨(String.ofList (cs.take q)).utf8ByteSize⟩

/-- **Spans.** The span between the places of two positions leads to the bytes between them. -/
theorem delimits_placeAt (cs : List Char) (h : p ≤ q) :
    Delimits cs ⟨placeAt cs p, placeAt cs q⟩ p q := by
  obtain ⟨hsplit, hfront⟩ := take_middle_drop cs h
  refine ⟨?_, ?_, String.Pos.Raw.isValid_ofList.mpr ⟨p, rfl⟩,
    String.Pos.Raw.isValid_ofList.mpr ⟨q, rfl⟩⟩
  · have hle : byteLength (cs.take p) ≤ byteLength (cs.take q) := by
      rw [← hfront, byteLength_append]
      exact Nat.le_add_right _ _
    rw [byteRange?, byteOffset?_placeAt, byteOffset?_placeAt, utf8ByteSize_ofList,
      utf8ByteSize_ofList]
    exact if_pos hle
  · have hmiddle := extract_middle (cs.take p) ((cs.take q).drop p) (cs.drop q)
    rwa [← hsplit, hfront, ← utf8ByteSize_ofList, ← utf8ByteSize_ofList] at hmiddle

/-- The place behind a start of a text. -/
theorem placeAt_length (a b : List Char) : placeAt (a ++ b) a.length = Location.origin.after a := by
  rw [placeAt, List.take_left]

/-- **Tokens.** Every token of a text stands between the places of two positions. -/
theorem span_of_scan {d : Dialect} {placed : List Placed} (h : scan d cs = .ok placed)
    {t : Placed} (ht : t ∈ placed) :
    ∃ p q, p ≤ q ∧ q ≤ cs.length ∧ t.span = ⟨placeAt cs p, placeAt cs q⟩ := by
  obtain ⟨before, behind, rfl⟩ := List.append_of_mem ht
  obtain ⟨a, _, c, w, b, _, rfl, hspan, -, -, -⟩ := scanFrom_split (Nat.le_refl _) h
  have hstop : placeAt (a ++ (c :: w ++ b)) (a ++ c :: w).length =
      Location.origin.after (a ++ c :: w) := by
    rw [← List.append_assoc, placeAt_length]
  refine ⟨a.length, (a ++ c :: w).length, ?_, ?_, ?_⟩
  · rw [List.length_append]
    exact Nat.le_add_right _ _
  · rw [← List.append_assoc]
    exact (List.prefix_append _ b).length_le
  · rw [placeAt_length, hstop, hspan]

end Sql

/-! ### The cut -/

namespace RowLimit

open Lexer (written)

variable {cs : List Char}

/-- A span between the places of two positions is cut out if it spells the number, and left alone
    otherwise. -/
theorem replaceNumber?_placeAt {p q : Nat} (hpq : p ≤ q) (number : String) (m : Nat) :
    replaceNumber? cs ⟨placeAt cs p, placeAt cs q⟩ number m =
      if (cs.take q).drop p = number.toList then some (cs.take p ++ digits m ++ cs.drop q)
      else none := by
  -- the text is cut at `p` and at `q`
  obtain ⟨hsplit, hfront⟩ := take_middle_drop cs hpq
  have hstart : splitAtByte? (byteLength (cs.take p)) cs =
      some (cs.take p, (cs.take q).drop p ++ cs.drop q) :=
    (splitAtByte?_eq_some_iff _ _ _ _).mpr ⟨by rw [← List.append_assoc, ← hsplit], rfl⟩
  -- the bytes between the places are those of the characters between
  have hlength : byteLength (cs.take q) - byteLength (cs.take p) =
      byteLength ((cs.take q).drop p) := by
    rw [← hfront, byteLength_append, Nat.add_sub_cancel_left, hfront]
  have hstop : splitAtByte? (byteLength ((cs.take q).drop p)) ((cs.take q).drop p ++ cs.drop q) =
      some ((cs.take q).drop p, cs.drop q) :=
    (splitAtByte?_eq_some_iff _ _ _ _).mpr ⟨rfl, rfl⟩
  have hrange := (delimits_placeAt cs hpq).range
  rw [utf8ByteSize_ofList, utf8ByteSize_ofList] at hrange
  simp only [replaceNumber?, hrange, Option.bind_eq_bind, Option.bind_some, hstart, hlength, hstop]
  rfl

/-- What is reported of a count that gives way to the maximum. -/
def clampedEvent (requested maxRows : Nat) : Event :=
  ⟨.debug, "Clamping explicit row limit",
    [("requested", .count requested), ("max_rows", .count maxRows)]⟩

variable {d : Dialect} {m n i : Nat} {placed : List Placed}

/-- Where a count above the maximum is clamped, the digits of the maximum take the place of its
    token, and nothing else happens. -/
theorem enforce_clamp_eq (hscan : scan d (withoutTrailingSemicolons cs) = .ok placed)
    (hcap : findCap d (placed.map Placed.token) = .rows n (some i)) (hn : max 1 m < n) :
    ∃ a number b, withoutTrailingSemicolons cs = a ++ number ++ b ∧
      placed[i]?.map Placed.span =
        some ⟨Location.origin.after a, Location.origin.after (a ++ number)⟩ ∧
      enforce d .clamp m cs = ⟨a ++ digits (max 1 m) ++ b, [clampedEvent n (max 1 m)]⟩ := by
  obtain ⟨before, text, long, behind, hsplit, rfl, hread, -, hfollow, -⟩ := findCap_replace hcap
  obtain ⟨a, b, hst, hplaced, -⟩ := tokens_replace (m := max 1 m) hscan hsplit hread hfollow
    (by omega)
  -- the token is spelled by what its span covers
  have hnumber : numberAt? placed before.length = some (Token.numberText text long,
      ⟨Location.origin.after a, Location.origin.after (a ++ written text long)⟩) := by
    rw [numberAt?, hplaced]
  -- so the number is found there and replaced
  have hcut : replaceNumber? (withoutTrailingSemicolons cs)
      ⟨Location.origin.after a, Location.origin.after (a ++ written text long)⟩
      (Token.numberText text long) (max 1 m) = some (a ++ digits (max 1 m) ++ b) := by
    rw [hst]
    exact replaceNumber?_after a b (Token.numberText text long) (max 1 m)
  refine ⟨a, written text long, b, hst, by rw [hplaced]; rfl, ?_⟩
  simp only [enforce, hscan, hcap, hnumber, Option.bind_eq_bind, Option.bind_some, hcut, gt_iff_lt,
    hn, and_self, if_true]
  rfl

/-- **Clamping.** Where a count above the maximum is clamped, its token stands between two positions
    of the statement, and the digits of the maximum take the place of the characters between
    them. -/
theorem enforce_clamp_cuts (hscan : scan d (withoutTrailingSemicolons cs) = .ok placed)
    (hcap : findCap d (placed.map Placed.token) = .rows n (some i)) (hn : max 1 m < n) :
    ∃ p q, p ≤ q ∧ q ≤ (withoutTrailingSemicolons cs).length ∧
      placed[i]?.map Placed.span = some ⟨placeAt (withoutTrailingSemicolons cs) p,
        placeAt (withoutTrailingSemicolons cs) q⟩ ∧
      (enforce d .clamp m cs).value = (withoutTrailingSemicolons cs).take p ++ digits (max 1 m) ++
        (withoutTrailingSemicolons cs).drop q := by
  obtain ⟨a, number, b, hst, hspan, hvalue⟩ := enforce_clamp_eq hscan hcap hn
  rw [hvalue, hspan, hst]
  -- the places are the lengths of what is before and of what ends with the number
  refine ⟨a.length, (a ++ number).length, ?_, ?_, ?_, ?_⟩
  · rw [List.length_append]
    exact Nat.le_add_right _ _
  · exact (List.prefix_append _ b).length_le
  · have hstart := placeAt_length a (number ++ b)
    rw [← List.append_assoc] at hstart
    rw [hstart, placeAt_length]
  · rw [List.drop_left, List.append_assoc a number, List.take_left]

/-- **Places lead back.** The line and the column at a position of a text lead back to the bytes of
    the characters in front of it.  The span from a position to a later one leads to the bytes
    between them and to no part of a character, so that a number is cut out or left alone.  The
    tokens of a text have such spans, and where a count is clamped, its token is cut out. -/
theorem places_lead_back (cs : List Char) :
    (∀ p ≤ cs.length,
      byteOffset? cs (placeAt cs p) = some (String.ofList (cs.take p)).utf8ByteSize) ∧
    (∀ p q, p ≤ q → q ≤ cs.length →
      Delimits cs ⟨placeAt cs p, placeAt cs q⟩ p q ∧
      ∀ number m, replaceNumber? cs ⟨placeAt cs p, placeAt cs q⟩ number m =
        if (cs.take q).drop p = number.toList then some (cs.take p ++ digits m ++ cs.drop q)
        else none) ∧
    ∀ d placed, scan d (withoutTrailingSemicolons cs) = .ok placed →
      (∀ t ∈ placed, ∃ p q, p ≤ q ∧ q ≤ (withoutTrailingSemicolons cs).length ∧
        t.span = ⟨placeAt (withoutTrailingSemicolons cs) p,
          placeAt (withoutTrailingSemicolons cs) q⟩) ∧
      ∀ m n i, findCap d (placed.map Placed.token) = .rows n (some i) → max 1 m < n →
        ∃ p q, p ≤ q ∧ q ≤ (withoutTrailingSemicolons cs).length ∧
          placed[i]?.map Placed.span = some ⟨placeAt (withoutTrailingSemicolons cs) p,
            placeAt (withoutTrailingSemicolons cs) q⟩ ∧
          (enforce d .clamp m cs).value = (withoutTrailingSemicolons cs).take p ++
            digits (max 1 m) ++ (withoutTrailingSemicolons cs).drop q := by
  refine ⟨fun p _ => ?_, fun p q hpq _ => ⟨delimits_placeAt cs hpq, replaceNumber?_placeAt hpq⟩,
    fun d placed hscan => ⟨fun t ht => span_of_scan hscan ht, fun m n i hcap hn =>
      enforce_clamp_cuts hscan hcap hn⟩⟩
  rw [byteOffset?_placeAt, utf8ByteSize_ofList]

/-! ### A count behind a letter of two bytes -/

/-- A statement of two lines with a letter outside ASCII on the first one. -/
def accentText : List Char := "select 'é'\n limit 9".toList

/-- The tokens of `accentText` and their places. -/
def accentTokens : List Placed :=
  [⟨.word "select" none, ⟨⟨1, 1⟩, ⟨1, 7⟩⟩⟩, ⟨.blank .space, ⟨⟨1, 7⟩, ⟨1, 8⟩⟩⟩,
    ⟨.literal .single "é", ⟨⟨1, 8⟩, ⟨1, 11⟩⟩⟩, ⟨.blank .newline, ⟨⟨1, 11⟩, ⟨2, 1⟩⟩⟩,
    ⟨.blank .space, ⟨⟨2, 1⟩, ⟨2, 2⟩⟩⟩, ⟨.word "limit" none, ⟨⟨2, 2⟩, ⟨2, 7⟩⟩⟩,
    ⟨.blank .space, ⟨⟨2, 7⟩, ⟨2, 8⟩⟩⟩, ⟨.number "9" false, ⟨⟨2, 8⟩, ⟨2, 9⟩⟩⟩]

/-- The column of the count leads to the byte behind the letter's two, and the count is cut out
    where it is clamped. -/
theorem accentText_places :
    scan .postgresql (withoutTrailingSemicolons accentText) = .ok accentTokens ∧
    findCap .postgresql (accentTokens.map Placed.token) = .rows 9 (some 7) ∧
    byteOffset? accentText ⟨2, 8⟩ = some 19 ∧ Delimits accentText ⟨⟨2, 8⟩, ⟨2, 9⟩⟩ 18 19 ∧
    ∃ p q, p ≤ q ∧ q ≤ (withoutTrailingSemicolons accentText).length ∧
      accentTokens[7]?.map Placed.span = some ⟨placeAt (withoutTrailingSemicolons accentText) p,
        placeAt (withoutTrailingSemicolons accentText) q⟩ ∧
      (enforce .postgresql .clamp 5 accentText).value =
        (withoutTrailingSemicolons accentText).take p ++ digits (max 1 5) ++
          (withoutTrailingSemicolons accentText).drop q := by
  obtain ⟨hoffset, hspan, hclamp⟩ := places_lead_back accentText
  have hscan : scan .postgresql (withoutTrailingSemicolons accentText) = .ok accentTokens := by cbv
  have hcap : findCap .postgresql (accentTokens.map Placed.token) = .rows 9 (some 7) := by decide
  have hplace : byteOffset? accentText ⟨2, 8⟩ = some 19 := by
    -- one character before the place takes two bytes
    have hbytes : (String.ofList (accentText.take 18)).utf8ByteSize = 19 := by
      rw [utf8ByteSize_ofList]
      decide
    rw [← hbytes]
    exact hoffset 18 (by decide)
  exact ⟨hscan, hcap, hplace, (hspan 18 19 (by decide) (by decide)).1,
    (hclamp .postgresql accentTokens hscan).2 5 9 7 hcap (by decide)⟩

end RowLimit

end QueryGate
