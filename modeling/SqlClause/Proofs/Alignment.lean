import SqlClause.Proofs.Layout.Scan
import SqlClause.Proofs.Placeholder.Replacement

/-!
The values of a run stand in the order of its placeholders.

A run may hold any chains, ended or given up, and any regroupings.  If the columns of its ended
chains have even numbers of quotes, then its clause has one placeholder for each value and those of
the columns besides, and numbering fails exactly if there are any of these.  If there are none, the
placeholder that has `i` others before it is the question mark of predicate `i`: whatever texts are
put in the places of the placeholders, they come to stand where the predicates of the run would have
written them (`values_aligned`).
-/

namespace SqlClause

open Placeholder

/-- Predicates with a text of their own in place of the question mark. -/
def Rendering.standing (t : Nat → List Char) : Rendering where
  text bound p := String.ofList (p.front ++ t bound ++ p.operator.trail)
  values p := [p.bound]

theorem Layout.replaceFrom_text {l : List Piece}
    (heven : ∀ p ∈ predicates l, p.column.EvenQuotes)
    (hmark : ∀ p ∈ predicates l, count p.column.text = 0) (t : Nat → List Char) (bound : Nat) :
    replaceFrom t false bound (text .marked bound l) = text (.standing t) bound l := by
  induction l generalizing bound with
  | nil => rfl
  | cons a l ih =>
    cases ha : a.predicate? with
    | none =>
      rw [predicates_cons_none ha] at heven hmark
      rw [text, text, replaceFrom_plain t (Piece.countFrom_text ha _ _ _),
        Piece.literalAfter_text ha, Piece.text_of_none ha (.standing t) .marked bound bound,
        Piece.values_of_none ha,
        Piece.values_of_none ha, List.length_nil, Nat.add_zero, ih heven hmark]
    | some p =>
      rw [Piece.eq_predicate ha] at heven hmark ⊢
      have hp : p.column.EvenQuotes := heven p List.mem_cons_self
      have hfront : countFrom false p.front = 0 :=
        (Predicate.countFrom_front hp).trans (hmark p List.mem_cons_self)
      have htrail := countFrom_of_not_mem p.operator.mark_not_mem_trail false
      have hrest := ih (fun q hq => heven q (List.mem_cons_of_mem p hq))
        (fun q hq => hmark q (List.mem_cons_of_mem p hq)) (bound + 1)
      show replaceFrom t false bound (p.text.toList ++ text .marked (bound + 1) l)
        = (String.ofList (p.front ++ t bound ++ p.operator.trail)).toList
          ++ text (.standing t) (bound + 1) l
      rw [p.toList_text, List.append_assoc, replaceFrom_plain t hfront,
        Predicate.literalAfter_front hp, List.cons_append, replaceFrom_mark,
        replaceFrom_plain t htrail, literalAfter_of_not_mem p.operator.quote_not_mem_trail, hrest,
        String.toList_ofList]
      simp only [List.append_assoc]

theorem replace_clause {operations : List Operation}
    (heven : ∀ p ∈ operations.flatMap Operation.predicates, p.column.EvenQuotes)
    (hmark : ∀ p ∈ operations.flatMap Operation.predicates, count p.column.text = 0)
    (t : Nat → List Char) :
    replace t (Query.empty.applyAll operations).clause
      = (Query.empty.applyAllIn (.standing t) operations).clause := by
  have hstanding := Query.shows_applyAllIn (.standing t) operations
  rw [← predicates_layout] at heven hmark
  rw [← replaceFrom_cut, (shows_applyAll operations).clause_eq,
    Layout.replaceFrom_text heven hmark, ← hstanding.clause_eq, String.ofList_toList]

theorem numbered_of_stray {operations : List Operation}
    (h : ∀ p ∈ operations.flatMap Operation.predicates, p.column.EvenQuotes) {p : Predicate}
    (hp : p ∈ operations.flatMap Operation.predicates) (hne : count p.column.text ≠ 0) :
    let q := Query.empty.applyAll operations
    let stray := ((operations.flatMap Operation.predicates).map fun p => count p.column.text).sum
    q.numbered = .error (.paramMismatch (q.values.length + stray) q.values.length) := by
  intro q stray
  have hstray : stray ≠ 0 := by
    intro hs
    have hall := List.forall_mem_map.mp (List.sum_eq_zero_iff_forall_eq_nat.mp hs)
    exact hne (hall p hp)
  have hcount : count q.clause = q.values.length + stray := count_clause h
  rw [Query.numbered, number, hcount, if_neg (by omega)]

theorem values_aligned (operations : List Operation)
    (h : ∀ p ∈ operations.flatMap Operation.predicates, p.column.EvenQuotes) :
    let q := Query.empty.applyAll operations
    let ps := operations.flatMap Operation.predicates
    let stray := (ps.map fun p => count p.column.text).sum
    q.values = ps.map Predicate.bound ∧
      count q.clause = q.values.length + stray ∧
      ((∃ e, q.numbered = .error e) ↔ ∃ p ∈ ps, count p.column.text ≠ 0) ∧
      (∀ e, q.numbered = .error e →
        e = .paramMismatch (q.values.length + stray) q.values.length) ∧
      ((∀ p ∈ ps, count p.column.text = 0) →
        ∀ t, replace t q.clause = (Query.empty.applyAllIn (.standing t) operations).clause) := by
  intro q ps stray
  have hfails : ∀ e, q.numbered = .error e → ∃ p ∈ ps, count p.column.text ≠ 0 := by
    intro e he
    by_contra hnone
    have hmark : ∀ p ∈ ps, count p.column.text = 0 := by simpa using hnone
    rw [numbered_applyAll h hmark] at he
    cases he
  refine ⟨values_applyAll operations, count_clause h, ⟨?_, ?_⟩, ?_,
    fun hmark => replace_clause h hmark⟩
  · rintro ⟨e, he⟩
    exact hfails e he
  · rintro ⟨p, hp, hne⟩
    exact ⟨_, numbered_of_stray h hp hne⟩
  · intro e he
    obtain ⟨p, hp, hne⟩ := hfails e he
    exact Except.error.inj (he.symm.trans (numbered_of_stray h hp hne))

/-- The chain that is given up has a column with an odd quote. -/
def abandonedRun (column : Column) : List Operation :=
  [.chain .bare
      (.closeBracket (.predicate (.openBracket .start) ⟨column, .startsWith, .text "50?"⟩)) .plain,
    .limit 20,
    .abandoned (.regrouped .or) (.predicate .start ⟨⟨"it's"⟩, .eq, .null⟩),
    .chain (.joined .and) (.predicate .start ⟨⟨"d"⟩, .isIn, .list [.bool true, .null]⟩) .bracketed]

theorem values_aligned_abandonedRun :
    (∀ p ∈ (abandonedRun ⟨"a ? '?'"⟩).flatMap Operation.predicates, p.column.EvenQuotes) ∧
      (Query.empty.applyAll (abandonedRun ⟨"a ? '?'"⟩)).numbered
        = .error (.paramMismatch 3 2) ∧
      replace (fun i => ['#', Nat.digitChar i])
          (Query.empty.applyAll (abandonedRun ⟨"concat_ws('?', a)"⟩)).clause
        = "((concat_ws('?', a) LIKE #0)) OR AND (d IN (#1))" := by
  have hstray : ∀ p ∈ (abandonedRun ⟨"a ? '?'"⟩).flatMap Operation.predicates,
      p.column.EvenQuotes := by
    decide
  have hplain : ∀ p ∈ (abandonedRun ⟨"concat_ws('?', a)"⟩).flatMap Operation.predicates,
      p.column.EvenQuotes ∧ count p.column.text = 0 := by
    decide
  refine ⟨hstray, ?_, ?_⟩
  · obtain ⟨-, -, hfails, herror, -⟩ := values_aligned _ hstray
    obtain ⟨e, he⟩ := hfails.mpr (by decide)
    rw [he, herror e he]
    rfl
  · obtain ⟨-, -, -, -, hplaces⟩ := values_aligned _ (fun p hp => (hplain p hp).1)
    exact hplaces (fun p hp => (hplain p hp).2) _

end SqlClause
