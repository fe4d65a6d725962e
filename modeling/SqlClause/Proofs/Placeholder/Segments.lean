import SqlClause.Proofs.Placeholder.Scan

/-!
Clauses cut at their placeholders.

`cut` goes by the definition of a placeholder, a question mark behind an even number of quotes, and
keeps all that it has read to count them.  What it gives is the text before the first placeholder
and the texts behind each of them.  They hold no placeholders, all but the last of them end outside
literals, and together they are the clause (`cut_segmented`, `joined_cut`), which is all that a scan
of the clause has to know.
-/

namespace SqlClause
namespace Placeholder

/-- Cuts a text at its placeholders, given what stands before it. -/
def cutFrom (before : List Char) : List Char → List Char × List (List Char)
  | [] => ([], [])
  | c :: rest =>
    let tail := cutFrom (before ++ [c]) rest
    if c = mark ∧ Even (before.count quote) then ([], tail.1 :: tail.2)
    else (c :: tail.1, tail.2)

def cut (sql : String) : List Char × List (List Char) := cutFrom [] sql.toList

/-- Segments, each with the placeholder before it. -/
def joined (segments : List (List Char)) : List Char := segments.flatMap (mark :: ·)

/-- The first segment starts inside or outside a literal, the others outside. -/
def Segmented : Bool → List Char → List (List Char) → Prop
  | inLiteral, s, [] => countFrom inLiteral s = 0
  | inLiteral, s, t :: others =>
    countFrom inLiteral s = 0 ∧ literalAfter inLiteral s = false ∧ Segmented false t others

theorem joined_cons (s : List Char) (others : List (List Char)) :
    joined (s :: others) = mark :: (s ++ joined others) := rfl

theorem Segmented.count_head {inLiteral : Bool} {s : List Char} {others : List (List Char)}
    (h : Segmented inLiteral s others) : countFrom inLiteral s = 0 := by
  cases others with
  | nil => exact h
  | cons t others => exact h.1

theorem Segmented.append {inLiteral : Bool} {a s : List Char} {others : List (List Char)}
    (ha : countFrom inLiteral a = 0) (h : Segmented (literalAfter inLiteral a) s others) :
    Segmented inLiteral (a ++ s) others := by
  have hn : countFrom inLiteral (a ++ s) = countFrom (literalAfter inLiteral a) s := by
    rw [countFrom_append, ha, Nat.zero_add]
  cases others with
  | nil => exact hn.trans h
  | cons t others =>
    refine ⟨hn.trans h.1, ?_, h.2.2⟩
    rw [literalAfter_append]
    exact h.2.1

theorem Segmented.cons {inLiteral : Bool} {c : Char} {s : List Char} {others : List (List Char)}
    (hc : ¬(c = mark ∧ inLiteral = false))
    (h : Segmented (if c = quote then !inLiteral else inLiteral) s others) :
    Segmented inLiteral (c :: s) others :=
  Segmented.append (countFrom_singleton hc) h

theorem Segmented.of_bracket {s : List Char} {others : List (List Char)}
    (h : Segmented false (')' :: s) others) : Segmented false s others := by
  cases others with
  | nil => exact h
  | cons t others => exact h

theorem joined_cutFrom (before text : List Char) :
    (cutFrom before text).1 ++ joined (cutFrom before text).2 = text := by
  induction text generalizing before with
  | nil => rfl
  | cons c text ih =>
    rw [cutFrom]
    by_cases hc : c = mark ∧ Even (before.count quote)
    · rw [if_pos hc, joined_cons, ih, hc.1]
      rfl
    · rw [if_neg hc]
      exact congrArg (c :: ·) (ih _)

theorem cutFrom_segmented (before text : List Char) :
    Segmented (literalAfter false before) (cutFrom before text).1 (cutFrom before text).2 := by
  induction text generalizing before with
  | nil => rfl
  | cons c text ih =>
    have hrest := ih (before ++ [c])
    rw [literalAfter_append] at hrest
    rw [cutFrom]
    by_cases hc : c = mark ∧ Even (before.count quote)
    · have hout := (literalAfter_eq_false_iff before).mpr hc.2
      rw [hout, hc.1] at hrest
      rw [if_pos hc, hout]
      exact ⟨rfl, rfl, hc.1 ▸ hrest⟩
    · rw [if_neg hc]
      refine Segmented.cons (fun h => hc ⟨h.1, ?_⟩) hrest
      exact (literalAfter_eq_false_iff before).mp h.2

theorem joined_cut (sql : String) : (cut sql).1 ++ joined (cut sql).2 = sql.toList :=
  joined_cutFrom [] sql.toList

theorem cut_segmented (sql : String) : Segmented false (cut sql).1 (cut sql).2 :=
  cutFrom_segmented [] sql.toList

theorem countFrom_joined {inLiteral : Bool} {s : List Char} {others : List (List Char)}
    (h : Segmented inLiteral s others) :
    countFrom inLiteral (s ++ joined others) = others.length := by
  induction others generalizing inLiteral s with
  | nil => rw [joined, List.flatMap_nil, List.append_nil, h, List.length_nil]
  | cons t others ih =>
    obtain ⟨hs, hout, ht⟩ := h
    have hm : countFrom false (mark :: (t ++ joined others))
        = countFrom false (t ++ joined others) + 1 := rfl
    rw [countFrom_append, hs, hout, joined_cons, hm, ih ht, List.length_cons, Nat.zero_add]

/-- The scan that counts placeholders sees those that the clause is cut at. -/
theorem count_eq_length_cut (sql : String) : count sql = (cut sql).2.length := by
  rw [count, ← joined_cut, countFrom_joined (cut_segmented sql)]

end Placeholder
end SqlClause
