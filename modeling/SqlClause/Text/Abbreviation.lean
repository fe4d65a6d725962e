/-!
A text cut to a number of UTF-8 bytes.  A cut falls between two characters, so a limit inside a
character moves back to the place before it.  `part?` cuts at an exact byte, which not every byte
allows.  `lastBoundary` looks for the last byte at or before a limit that does, and `abbreviate`
marks a text that lost something.
-/

namespace SqlClause
namespace Text

/-- The first `n` bytes of the text.  There is no such text when byte `n` falls inside a character
or after the end. -/
def part? (text : String) (n : Nat) : Option String :=
  if h : String.Pos.Raw.IsValid text ⟨n⟩ then some (text.sliceTo (text.pos ⟨n⟩ h)).copy else none

theorem isSome_part?_iff {text : String} {n : Nat} :
    (part? text n).isSome ↔ String.Pos.Raw.IsValid text ⟨n⟩ := by
  by_cases h : String.Pos.Raw.IsValid text ⟨n⟩
  · rw [part?, dif_pos h]
    exact iff_of_true rfl h
  · rw [part?, dif_neg h]
    exact iff_of_false Bool.false_ne_true h

/-- A part ends where two texts of whole characters meet. -/
theorem part?_eq_some_iff {text front : String} {n : Nat} :
    part? text n = some front ↔ ∃ rest, text = front ++ rest ∧ front.utf8ByteSize = n := by
  constructor
  · intro hpart
    rw [part?] at hpart
    split at hpart
    · rename_i h
      obtain rfl := Option.some.inj hpart
      have hsplits := (text.pos ⟨n⟩ h).splits
      have hend := hsplits.offset_eq_rawEndPos
      rw [String.offset_pos] at hend
      exact ⟨_, hsplits.eq_append, (congrArg String.Pos.Raw.byteIdx hend).symm⟩
    · cases hpart
  · rintro ⟨rest, rfl, rfl⟩
    have h : String.Pos.Raw.IsValid (front ++ rest) ⟨front.utf8ByteSize⟩ :=
      String.Pos.Raw.isValid_iff_exists_append.mpr ⟨front, rest, rfl, rfl⟩
    have hsplits : ((front ++ rest).pos ⟨front.utf8ByteSize⟩ h).Splits front rest :=
      ⟨rfl, String.offset_pos⟩
    rw [part?, dif_pos h, hsplits.copy_sliceTo_eq]

/-- The last place at or before byte `limit` where the text can be cut.  Byte 0 always is one. -/
def lastBoundary (text : String) : Nat → Nat
  | 0 => 0
  | n + 1 => if String.Pos.Raw.IsValid text ⟨n + 1⟩ then n + 1 else lastBoundary text n

theorem isValid_lastBoundary (text : String) (limit : Nat) :
    String.Pos.Raw.IsValid text ⟨lastBoundary text limit⟩ := by
  induction limit with
  | zero => exact String.Pos.Raw.isValid_zero
  | succ n ih =>
    by_cases h : String.Pos.Raw.IsValid text ⟨n + 1⟩
    · rwa [lastBoundary, if_pos h]
    · rwa [lastBoundary, if_neg h]

/-- The text itself when it fits in `limit` bytes, else its part up to the last place for a cut. -/
def truncate? (text : String) (limit : Nat) : Option String :=
  if text.utf8ByteSize ≤ limit then some text else part? text (lastBoundary text limit)

theorem isSome_truncate? (text : String) (limit : Nat) : (truncate? text limit).isSome := by
  by_cases h : text.utf8ByteSize ≤ limit
  · rw [truncate?, if_pos h]
    rfl
  · rw [truncate?, if_neg h, isSome_part?_iff]
    exact isValid_lastBoundary text limit

def truncate (text : String) (limit : Nat) : String :=
  (truncate? text limit).get (isSome_truncate? text limit)

/-- A text of more than `limit` bytes is cut and ends in three dots, which do not count. -/
def abbreviate (text : String) (limit : Nat) : String :=
  if text.utf8ByteSize ≤ limit then text else truncate text limit ++ "..."

end Text
end SqlClause
