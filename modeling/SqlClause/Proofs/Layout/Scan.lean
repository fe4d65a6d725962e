import Mathlib.Algebra.Ring.Nat
import SqlClause.Proofs.Layout.Clause
import SqlClause.Proofs.Placeholder.Lookback
import SqlClause.Proofs.Predicate

/-!
The scan of a whole clause, piece by piece.

Brackets, blanks and connectives hold neither quotes nor question marks, so if every column has an
even number of quotes then the scan comes to each piece outside literals.  The clause then has one
placeholder for each predicate beside those of the columns (`count_clause`).  If the columns have
none, each predicate takes the value that it binds (`scan_layout`).
-/

namespace SqlClause

open Placeholder

namespace Piece

theorem eq_predicate {a : Piece} {p : Predicate} (h : a.predicate? = some p) :
    a = predicate p := by
  cases a with
  | predicate q => cases h; rfl
  | _ => cases h

theorem values_of_none {a : Piece} (h : a.predicate? = none) (r : Rendering) :
    a.values r = [] := by
  cases a with
  | predicate p => cases h
  | _ => rfl

/-- Only predicates are written in a way of their own. -/
theorem text_of_none {a : Piece} (h : a.predicate? = none) (r s : Rendering) (m n : Nat) :
    a.text r m = a.text s n := by
  cases a with
  | predicate p => cases h
  | _ => rfl

theorem quote_not_mem_text {a : Piece} (h : a.predicate? = none) (r : Rendering) (bound : Nat) :
    quote ∉ a.text r bound := by
  cases a with
  | word w => cases w <;> show quote ∉ String.toList _ <;> decide
  | predicate p => cases h
  | _ => show quote ∉ [_]; decide

theorem mark_not_mem_text {a : Piece} (h : a.predicate? = none) (r : Rendering) (bound : Nat) :
    mark ∉ a.text r bound := by
  cases a with
  | word w => cases w <;> show mark ∉ String.toList _ <;> decide
  | predicate p => cases h
  | _ => show mark ∉ [_]; decide

theorem literalAfter_text {a : Piece} (h : a.predicate? = none) (r : Rendering) (bound : Nat)
    (inLiteral : Bool) : literalAfter inLiteral (a.text r bound) = inLiteral :=
  literalAfter_of_not_mem (quote_not_mem_text h r bound) inLiteral

theorem countFrom_text {a : Piece} (h : a.predicate? = none) (r : Rendering) (bound : Nat)
    (inLiteral : Bool) : countFrom inLiteral (a.text r bound) = 0 :=
  countFrom_of_not_mem (mark_not_mem_text h r bound) inLiteral

end Piece

namespace Layout

theorem predicates_cons_none {a : Piece} (h : a.predicate? = none) (l : List Piece) :
    predicates (a :: l) = predicates l := List.filterMap_cons_none h

/-- In a marked clause the number of a predicate does not show. -/
theorem text_marked_cons (bound : Nat) (a : Piece) (l : List Piece) :
    text .marked bound (a :: l)
      = a.text .marked 0 ++ text .marked (bound + (a.values .marked).length) l := by
  cases a <;> rfl

theorem literalAfter_text {l : List Piece} (h : ∀ p ∈ predicates l, p.column.EvenQuotes)
    (bound : Nat) : literalAfter false (text .marked bound l) = false := by
  induction l generalizing bound with
  | nil => rfl
  | cons a l ih =>
    rw [text, literalAfter_append]
    cases ha : a.predicate? with
    | none =>
      rw [Piece.literalAfter_text ha]
      exact ih (predicates_cons_none ha l ▸ h) _
    | some p =>
      rw [Piece.eq_predicate ha] at h ⊢
      show literalAfter (literalAfter false p.text.toList) _ = false
      rw [Predicate.literalAfter_text (h p List.mem_cons_self)]
      exact ih (fun q hq => h q (List.mem_cons_of_mem p hq)) _

theorem countFrom_text {l : List Piece} (h : ∀ p ∈ predicates l, p.column.EvenQuotes)
    (bound : Nat) :
    countFrom false (text .marked bound l)
      = (predicates l).length + ((predicates l).map fun p => count p.column.text).sum := by
  induction l generalizing bound with
  | nil => rfl
  | cons a l ih =>
    rw [text, countFrom_append]
    cases ha : a.predicate? with
    | none =>
      rw [predicates_cons_none ha] at h ⊢
      rw [Piece.countFrom_text ha, Piece.literalAfter_text ha, ih h, Nat.zero_add]
    | some p =>
      rw [Piece.eq_predicate ha] at h ⊢
      have hp : p.column.EvenQuotes := h p List.mem_cons_self
      have hl := ih (fun q hq => h q (List.mem_cons_of_mem p hq)) (bound + 1)
      have hcons : predicates (.predicate p :: l) = p :: predicates l := rfl
      show countFrom false p.text.toList
        + countFrom (literalAfter false p.text.toList) (text .marked (bound + 1) l) = _
      rw [Predicate.literalAfter_text hp, Predicate.countFrom_text hp, hl, hcons, List.length_cons,
        List.map_cons, List.sum_cons]
      omega

end Layout

/-! ## Runs -/

theorem shows_applyAll (operations : List Operation) :
    Query.Shows .marked (Query.empty.applyAll operations) (layout operations) := by
  rw [← Query.applyAllIn_marked]
  exact Query.shows_applyAllIn .marked operations

theorem values_applyAll (operations : List Operation) :
    (Query.empty.applyAll operations).values
      = (operations.flatMap Operation.predicates).map Predicate.bound := by
  rw [(shows_applyAll operations).values_eq, Layout.values_eq_flatMap_predicates,
    predicates_layout]
  exact List.map_eq_flatMap.symm

theorem count_clause {operations : List Operation}
    (h : ∀ p ∈ operations.flatMap Operation.predicates, p.column.EvenQuotes) :
    count (Query.empty.applyAll operations).clause
      = (Query.empty.applyAll operations).values.length
        + ((operations.flatMap Operation.predicates).map fun p => count p.column.text).sum := by
  rw [← predicates_layout] at h
  rw [count, (shows_applyAll operations).clause_eq, Layout.countFrom_text h, values_applyAll,
    List.length_map, predicates_layout]

/-! ## Values -/

namespace Placeholder

def Draft.addPiece (d : Draft) : Piece → Draft
  | .predicate p => d.addPredicate p
  | a => d.write (a.text .marked 0)

theorem Draft.addPiece_of_none {a : Piece} (h : a.predicate? = none) (d : Draft) :
    d.addPiece a = d.write (a.text .marked 0) := by
  cases a with
  | predicate p => cases h
  | _ => rfl

theorem scan_layout {l : List Piece} (heven : ∀ p ∈ Layout.predicates l, p.column.EvenQuotes)
    (hmark : ∀ p ∈ Layout.predicates l, count p.column.text = 0) (bound : Nat) (d : Draft) :
    scan false d (Layout.values .marked l) (Layout.text .marked bound l)
      = l.foldl Draft.addPiece d := by
  induction l generalizing bound d with
  | nil => rfl
  | cons a l ih =>
    rw [Layout.text_marked_cons, List.foldl_cons]
    cases ha : a.predicate? with
    | none =>
      rw [Layout.predicates_cons_none ha] at heven hmark
      have hv : Layout.values .marked (a :: l) = Layout.values .marked l := by
        show a.values .marked ++ _ = _
        rw [Piece.values_of_none ha]
        rfl
      rw [hv, scan_plain (Piece.countFrom_text ha _ _ _), Piece.literalAfter_text ha,
        Draft.addPiece_of_none ha]
      exact ih heven hmark _ _
    | some p =>
      rw [Piece.eq_predicate ha] at heven hmark ⊢
      have hp := scan_predicate (heven p List.mem_cons_self) (hmark p List.mem_cons_self) d
      refine (hp _ _).trans ?_
      exact ih (fun q hq => heven q (List.mem_cons_of_mem p hq))
        (fun q hq => hmark q (List.mem_cons_of_mem p hq)) _ _

end Placeholder

/-- A run whose columns are well behaved can be numbered. -/
theorem numbered_applyAll {operations : List Operation}
    (heven : ∀ p ∈ operations.flatMap Operation.predicates, p.column.EvenQuotes)
    (hmark : ∀ p ∈ operations.flatMap Operation.predicates, count p.column.text = 0) :
    (Query.empty.applyAll operations).numbered
      = .ok ⟨String.ofList ((layout operations).foldl Draft.addPiece ⟨[], [], 1⟩).written.reverse,
          ((layout operations).foldl Draft.addPiece ⟨[], [], 1⟩).params.reverse⟩ := by
  have hshows := shows_applyAll operations
  have hsum : ((operations.flatMap Operation.predicates).map fun p => count p.column.text).sum
      = 0 :=
    List.sum_eq_zero_iff_forall_eq_nat.mpr (List.forall_mem_map.mpr hmark)
  have hcount := count_clause heven
  rw [hsum, Nat.add_zero] at hcount
  rw [← predicates_layout] at heven hmark
  rw [Query.numbered, number_eq_scan hcount, hshows.clause_eq, hshows.values_eq,
    scan_layout heven hmark]

end SqlClause
