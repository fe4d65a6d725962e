import Mathlib.Order.Bounds.Defs
import SqlClause.Event

/-!
Texts cut at the last place that keeps their characters whole.

The search for that place goes down from the limit one byte at a time.  A byte that it passes over
is no place for a cut, and so the greatest place below it stays the greatest
(`isGreatest_succ_of_not_isValid`).  What comes before the place where the search stops is the
longest front of the text that fits (`longestFront_of_part?`).  A character has at most four bytes,
so that front falls short of the limit by three at most (`LongestFront.limit_le`).
`Event.shown_cut_at_boundary` puts this together for the clauses that events tell of.
-/

namespace SqlClause

namespace Text

/-- The places at or before byte `limit` where the text can be cut. -/
def boundaries (text : String) (limit : Nat) : Set Nat :=
  {n | n ≤ limit ∧ String.Pos.Raw.IsValid text ⟨n⟩}

/-- The longest text of whole characters that `text` begins with and that has at most `limit`
bytes. -/
structure LongestFront (text : String) (limit : Nat) (front : String) : Prop where
  begins : ∃ rest, text = front ++ rest
  fits : front.utf8ByteSize ≤ limit
  longest : ∀ other rest, text = other ++ rest → other.utf8ByteSize ≤ limit →
    other.utf8ByteSize ≤ front.utf8ByteSize

variable {text front : String} {limit n : Nat}

/-! ## The search -/

theorem isGreatest_of_isValid (h : String.Pos.Raw.IsValid text ⟨n⟩) :
    IsGreatest (boundaries text n) n :=
  ⟨⟨Nat.le_refl n, h⟩, fun _ hm => hm.1⟩

/-- One step of the search, from a byte that is no place for a cut. -/
theorem isGreatest_succ_of_not_isValid {m : Nat} (h : ¬String.Pos.Raw.IsValid text ⟨n + 1⟩)
    (hm : IsGreatest (boundaries text n) m) : IsGreatest (boundaries text (n + 1)) m := by
  obtain ⟨⟨hle, hvalid⟩, hgreatest⟩ := hm
  refine ⟨⟨Nat.le_succ_of_le hle, hvalid⟩, fun k hk => hgreatest ⟨?_, hk.2⟩⟩
  have hne : k ≠ n + 1 := by
    rintro rfl
    exact h hk.2
  exact Nat.le_of_lt_succ (Nat.lt_of_le_of_ne hk.1 hne)

theorem isGreatest_lastBoundary (text : String) (limit : Nat) :
    IsGreatest (boundaries text limit) (lastBoundary text limit) := by
  induction limit with
  | zero => exact isGreatest_of_isValid String.Pos.Raw.isValid_zero
  | succ n ih =>
    by_cases h : String.Pos.Raw.IsValid text ⟨n + 1⟩
    · rw [lastBoundary, if_pos h]
      exact isGreatest_of_isValid h
    · rw [lastBoundary, if_neg h]
      exact isGreatest_succ_of_not_isValid h ih

/-! ## What comes before the place found -/

/-- The text before the last place for a cut is the longest, as every other front ends in such a
place too. -/
theorem longestFront_of_part? (h : part? text (lastBoundary text limit) = some front) :
    LongestFront text limit front := by
  obtain ⟨⟨hle, -⟩, hgreatest⟩ := isGreatest_lastBoundary text limit
  obtain ⟨rest, htext, hsize⟩ := part?_eq_some_iff.mp h
  refine ⟨⟨rest, htext⟩, hsize ▸ hle, fun other others hother hfits => ?_⟩
  have hvalid : String.Pos.Raw.IsValid text ⟨other.utf8ByteSize⟩ :=
    String.Pos.Raw.isValid_iff_exists_append.mpr ⟨other, others, hother, rfl⟩
  exact hsize ▸ hgreatest ⟨hfits, hvalid⟩

theorem exists_longestFront (text : String) (limit : Nat) :
    ∃ front, part? text (lastBoundary text limit) = some front ∧ LongestFront text limit front := by
  have hsome : (part? text (lastBoundary text limit)).isSome :=
    isSome_part?_iff.mpr (isValid_lastBoundary text limit)
  obtain ⟨front, hpart⟩ := Option.isSome_iff_exists.mp hsome
  exact ⟨front, hpart, longestFront_of_part? hpart⟩

namespace LongestFront

theorem unique {other : String} (h : LongestFront text limit front)
    (hother : LongestFront text limit other) : front = other := by
  obtain ⟨rest, htext⟩ := h.begins
  obtain ⟨others, hothers⟩ := hother.begins
  have hsize : front.utf8ByteSize = other.utf8ByteSize :=
    Nat.le_antisymm (hother.longest front rest htext h.fits)
      (h.longest other others hothers hother.fits)
  have hfront : part? text front.utf8ByteSize = some front :=
    part?_eq_some_iff.mpr ⟨rest, htext, rfl⟩
  rw [part?_eq_some_iff.mpr ⟨others, hothers, hsize.symm⟩] at hfront
  exact (Option.some.inj hfront).symm

/-- A text that fits is its own longest front. -/
theorem self (h : text.utf8ByteSize ≤ limit) : LongestFront text limit text where
  begins := ⟨"", String.append_empty.symm⟩
  fits := h
  longest := by
    rintro other rest rfl -
    rw [String.utf8ByteSize_append]
    exact Nat.le_add_right _ _

/-- The next character of a text that is too long did not fit, and it has four bytes at most. -/
theorem limit_le (h : LongestFront text limit front) (hlong : limit < text.utf8ByteSize) :
    limit ≤ front.utf8ByteSize + 3 := by
  obtain ⟨rest, htext⟩ := h.begins
  have hrest : rest ≠ "" := by
    rintro rfl
    rw [htext, String.append_empty] at hlong
    exact Nat.not_lt.mpr h.fits hlong
  obtain ⟨c, tail, rfl⟩ : ∃ c tail, rest = String.singleton c ++ tail :=
    ⟨_, String.eq_singleton_append (String.startPos_ne_endPos_iff.mpr hrest)⟩
  have hnext : limit < (front ++ String.singleton c).utf8ByteSize := by
    refine Nat.lt_of_not_le fun hfits => ?_
    have hle := h.longest (front ++ String.singleton c) tail
      (by rw [htext, String.append_assoc]) hfits
    rw [String.utf8ByteSize_append, String.utf8ByteSize_singleton] at hle
    have hpos := c.utf8Size_pos
    omega
  rw [String.utf8ByteSize_append, String.utf8ByteSize_singleton] at hnext
  have hfour := c.utf8Size_le_four
  omega

end LongestFront

/-- The test whether the text fits saves the search and changes nothing else. -/
theorem truncate?_eq (text : String) (limit : Nat) :
    truncate? text limit = part? text (lastBoundary text limit) := by
  by_cases h : text.utf8ByteSize ≤ limit
  · obtain ⟨front, hpart, hlongest⟩ := exists_longestFront text limit
    rw [truncate?, if_pos h, hpart, hlongest.unique (.self h)]
  · rw [truncate?, if_neg h]

theorem longestFront_truncate (text : String) (limit : Nat) :
    LongestFront text limit (truncate text limit) := by
  have h : truncate? text limit = some (truncate text limit) := (Option.some_get _).symm
  rw [truncate?_eq] at h
  exact longestFront_of_part? h

example : truncate "名前 = ?" 4 = "名" := by decide

end Text

namespace Event

open Text

/-- Going back from any limit ends at the last place for a cut that there is, the cut there gives a
text, and no longer front of whole characters fits.  A clause of more than two hundred bytes is
shown as that front and three dots, any other as it is. -/
theorem shown_cut_at_boundary (clause : String) :
    (∀ limit, IsGreatest (boundaries clause limit) (lastBoundary clause limit) ∧
        ∃ front, part? clause (lastBoundary clause limit) = some front ∧
          truncate? clause limit = some front ∧ LongestFront clause limit front) ∧
      (clause.utf8ByteSize ≤ 200 → shown clause = clause) ∧
      (200 < clause.utf8ByteSize → ∃ front, LongestFront clause 200 front ∧
        shown clause = front ++ "..." ∧ 197 ≤ front.utf8ByteSize ∧
          (shown clause).utf8ByteSize ≤ 203) := by
  refine ⟨fun limit => ⟨isGreatest_lastBoundary clause limit, ?_⟩, fun h => if_pos h, fun h => ?_⟩
  · obtain ⟨front, hpart, hlongest⟩ := exists_longestFront clause limit
    exact ⟨front, hpart, (truncate?_eq clause limit).trans hpart, hlongest⟩
  · have hlongest := longestFront_truncate clause 200
    have hshown : shown clause = truncate clause 200 ++ "..." := if_neg (Nat.not_le.mpr h)
    have hshort : 200 ≤ (truncate clause 200).utf8ByteSize + 3 := hlongest.limit_le h
    have hdots : "...".utf8ByteSize = 3 := by decide
    refine ⟨_, hlongest, hshown, by omega, ?_⟩
    rw [hshown, String.utf8ByteSize_append, hdots]
    exact Nat.add_le_add_right hlongest.fits 3

/-- After 198 bytes a character of two still fits.  One of three does not and is left out. -/
theorem shown_cut_at_boundary_wideCharacters :
    let front := String.ofList (List.replicate 198 'a')
    (front ++ "é").utf8ByteSize ≤ 200 ∧ shown (front ++ "é") = front ++ "é" ∧
      200 < (front ++ "名前").utf8ByteSize ∧ LongestFront (front ++ "名前") 200 front ∧
        shown (front ++ "名前") = front ++ "..." := by
  intro front
  have hwhole : (front ++ "é").utf8ByteSize ≤ 200 := by decide +kernel
  have hlong : 200 < (front ++ "名前").utf8ByteSize := by decide +kernel
  have hplace : lastBoundary (front ++ "名前") 200 = 198 := by decide +kernel
  have hpart : part? (front ++ "名前") 198 = some front :=
    part?_eq_some_iff.mpr ⟨"名前", rfl, by decide +kernel⟩
  obtain ⟨hsearch, -, hcut⟩ := shown_cut_at_boundary (front ++ "名前")
  obtain ⟨-, part, hfound, -, hpartLongest⟩ := hsearch 200
  rw [hplace, hpart] at hfound
  obtain rfl := Option.some.inj hfound
  obtain ⟨longest, hlongest, hshown, -⟩ := hcut hlong
  rw [← hpartLongest.unique hlongest] at hshown
  exact ⟨hwhole, (shown_cut_at_boundary (front ++ "é")).2.1 hwhole, hlong, hpartLongest, hshown⟩

end Event
end SqlClause
