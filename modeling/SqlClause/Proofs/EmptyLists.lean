import SqlClause.Proofs.DirectNumbering

/-!
Membership of a list with no items in a numbered clause.

`IN` is numbered as a test that never holds, `NOT IN` as one that always does, and the scan tells
them apart by the letters before the bracket.  If a column ends in `NOT`, these may be letters of
the column: a clause `KNOT IN (?)` is numbered as `K<> ALL('{}')` and holds of every row
(`knotRun_misread`).  `Rendering.scanned` writes what numbering leaves of each predicate, wherever
it stands.  It differs from what was asked for at these columns only (`emptyLists_kept_iff`).
-/

namespace SqlClause

open Placeholder

theorem Value.isEmptyList_iff (v : Value) :
    v.asList?.any List.isEmpty = true ↔ v = .list [] := by
  cases v <;> simp [asList?]

instance (v : Value) : Decidable (v = .list []) := decidable_of_iff _ v.isEmptyList_iff

namespace Predicate

/-- The text is that of a test with `NOT IN`, but the `NOT` is the end of the column. -/
structure Misread (p : Predicate) : Prop where
  isIn : p.operator = .isIn
  empty : p.operand = .list []
  negated : ['N', 'O', 'T'] <:+ p.column.text.toList

theorem misread_iff (p : Predicate) : p.Misread ↔
    p.operator = .isIn ∧ p.operand = .list [] ∧ ['N', 'O', 'T'] <:+ p.column.text.toList :=
  ⟨fun h => ⟨h.isIn, h.empty, h.negated⟩, fun ⟨hop, h, hcol⟩ => ⟨hop, h, hcol⟩⟩

instance (p : Predicate) : Decidable p.Misread := decidable_of_iff' _ p.misread_iff

/-- The predicate as numbering leaves it, `bound` params being bound before. -/
def scannedText (bound : Nat) (p : Predicate) : String :=
  if p.Misread then
    String.ofList (p.column.text.toList.take (p.column.text.toList.length - 3))
      ++ "<> ALL('\x7b\x7d')"
  else p.numberedText bound

variable {p : Predicate}

theorem params_of_empty (hm : p.operator.isMembership = true) (h : p.operand = .list []) :
    p.params = [] := by
  rw [params, hm, h]

theorem numberedText_of_notIn (hop : p.operator = .notIn) (h : p.operand = .list [])
    (bound : Nat) : p.numberedText bound = p.column.text ++ " <> ALL('\x7b\x7d')" := by
  rw [numberedText, h, hop]
  rfl

theorem numberedText_of_isIn (hop : p.operator = .isIn) (h : p.operand = .list [])
    (bound : Nat) : p.numberedText bound = p.column.text ++ " IN (NULL)" := by
  rw [numberedText, h, hop]
  show p.column.text ++ " " ++ p.operator.sign
    ++ (if p.operator.isMembership then _ else _ : String) = _
  rw [hop, String.append_assoc, String.append_assoc]
  rfl

theorem scannedText_of_misread (hop : p.operator = .isIn) (h : p.operand = .list [])
    {front : String} (hcol : p.column.text = front ++ "NOT") (bound : Nat) :
    p.scannedText bound = front ++ "<> ALL('\x7b\x7d')" := by
  have hlist : p.column.text.toList = front.toList ++ ['N', 'O', 'T'] := by
    rw [hcol, String.toList_append]
    rfl
  have hmisread : p.Misread := ⟨hop, h, hlist ▸ List.suffix_append _ _⟩
  have htake : p.column.text.toList.take (p.column.text.toList.length - 3) = front.toList := by
    rw [hlist]
    exact List.take_left' (by simp)
  rw [scannedText, if_pos hmisread, htake, String.ofList_toList]

theorem scannedText_of_not_misread (h : ¬p.Misread) (bound : Nat) :
    p.scannedText bound = p.numberedText bound := if_neg h

theorem Misread.isMembership (h : p.Misread) : p.operator.isMembership = true :=
  p.operator.isMembership_iff.mpr (.inl h.isIn)

theorem Misread.exists_front (h : p.Misread) : ∃ front, p.column.text = front ++ "NOT" := by
  obtain ⟨front, hfront⟩ := h.negated
  refine ⟨String.ofList front, String.toList_injective ?_⟩
  rw [String.toList_append, String.toList_ofList, ← hfront]
  rfl

/-- A test that is misread comes out one character short. -/
theorem Misread.length_numberedText (h : p.Misread) (bound : Nat) :
    (p.numberedText bound).toList.length = (p.scannedText bound).toList.length + 1 := by
  obtain ⟨front, hfront⟩ := h.exists_front
  rw [numberedText_of_isIn h.isIn h.empty, scannedText_of_misread h.isIn h.empty hfront, hfront]
  simp

end Predicate

/-- Each predicate as numbering leaves it. -/
def Rendering.scanned : Rendering where
  text := Predicate.scannedText
  values := Predicate.params

/-! ## The scan -/

namespace Placeholder.Draft

/-- What is taken back for a `NOT IN` begins inside the column. -/
theorem addPredicate_of_misread {p : Predicate} (h : p.Misread) (d : Draft) (bound : Nat) :
    d.addPredicate p = d.append (p.scannedText bound).toList [] := by
  obtain ⟨front, hcol⟩ := h.exists_front
  have hfront : p.front = front.toList ++ notIn := by
    rw [Predicate.front, hcol, h.isIn, String.toList_append, List.append_assoc]
    rfl
  have hsuffix : notIn <:+ (d.write p.front).written.reverse := by
    rw [d.reverse_written_write, hfront, ← List.append_assoc]
    exact List.suffix_append _ _
  have hfill : filling (d.write p.front).written.reverse p.operator.trail p.bound = .always := by
    rw [filling_of_operand h.isMembership, h.empty]
    exact if_pos hsuffix
  rw [addPredicate_of_always hfill, hfront, settle_always,
    Predicate.scannedText_of_misread h.isIn h.empty hcol, String.toList_append]
  rfl

theorem leaves_scanned (p : Predicate) : Leaves .scanned p := by
  intro d bound hopen hnext
  show _ = d.append (p.scannedText bound).toList p.params
  by_cases h : p.Misread
  · rw [addPredicate_of_misread h d bound, Predicate.params_of_empty h.isMembership h.empty]
  · rw [Predicate.scannedText_of_not_misread h]
    exact leaves_numbered (fun hop ho hcol => h ⟨hop, ho, hcol⟩) d bound hopen hnext

end Placeholder.Draft

/-- A column may end in any letters as long as it opens no literal and has no placeholder. -/
theorem numbered_eq_scanned (operations : List Operation)
    (heven : ∀ p ∈ operations.flatMap Operation.predicates, p.column.EvenQuotes)
    (hmark : ∀ p ∈ operations.flatMap Operation.predicates, count p.column.text = 0) :
    (Query.empty.applyAll operations).numbered
      = .ok ⟨(Query.empty.applyAllIn .scanned operations).clause,
          (Query.empty.applyAllIn .scanned operations).values⟩ := by
  have hshows := Query.shows_applyAllIn .scanned operations
  have hopen : (⟨[], [], 0 + 1⟩ : Draft).Opens := fun c hc => by cases hc
  have hscan := Draft.foldl_addPiece_of_leaves (separated_layout operations)
    (fun p _ => Draft.leaves_scanned p) (fun _ _ _ => hopen) rfl
  rw [numbered_applyAll heven hmark, hscan, ← hshows.clause_eq, ← hshows.values_eq]
  simp [Draft.append]

/-! ## What was asked for -/

namespace Piece

theorem values_scanned (a : Piece) : a.values .scanned = a.values .numbered := by
  cases a <;> rfl

theorem text_scanned {a : Piece} (h : ∀ p ∈ a.predicate?, ¬p.Misread) (bound : Nat) :
    a.text .scanned bound = a.text .numbered bound := by
  cases a with
  | predicate p =>
    exact congrArg String.toList (Predicate.scannedText_of_not_misread (h p rfl) bound)
  | _ => rfl

end Piece

namespace Layout

theorem text_scanned_of_not_misread {l : List Piece} (h : ∀ p ∈ predicates l, ¬p.Misread)
    (bound : Nat) : text .scanned bound l = text .numbered bound l := by
  induction l generalizing bound with
  | nil => rfl
  | cons a l ih =>
    obtain ⟨hfirst, hrest⟩ := forall_predicates_cons.mp h
    rw [text, text, Piece.text_scanned hfirst, a.values_scanned, ih hrest]

/-- The clause comes out short by one character for each test that is misread. -/
theorem length_text_scanned (bound : Nat) (l : List Piece) :
    (text .numbered bound l).length
      = (text .scanned bound l).length + (predicates l).countP (·.Misread) := by
  induction l generalizing bound with
  | nil => rfl
  | cons a l ih =>
    rw [text, text, a.values_scanned, List.length_append, List.length_append, ih]
    cases ha : a.predicate? with
    | none =>
      rw [predicates_cons_none ha, Piece.text_of_none ha .numbered .scanned bound bound]
      omega
    | some p =>
      rw [Piece.eq_predicate ha]
      show (p.numberedText bound).toList.length + _
        = (p.scannedText bound).toList.length + _ + (p :: predicates l).countP (·.Misread)
      rw [List.countP_cons]
      by_cases h : p.Misread
      · rw [h.length_numberedText, if_pos (decide_eq_true h)]
        omega
      · rw [Predicate.scannedText_of_not_misread h, if_neg (by simpa using h)]
        omega

theorem text_scanned_eq_iff (bound : Nat) (l : List Piece) :
    text .scanned bound l = text .numbered bound l ↔ ∀ p ∈ predicates l, ¬p.Misread := by
  refine ⟨fun h => ?_, fun h => text_scanned_of_not_misread h bound⟩
  have hlength := length_text_scanned bound l
  rw [h] at hlength
  have hcount : (predicates l).countP (·.Misread) = 0 := by omega
  simpa using hcount

end Layout

theorem values_scanned (operations : List Operation) :
    (Query.empty.applyAllIn .scanned operations).values
      = (Query.empty.applyAllIn .numbered operations).values := by
  rw [(Query.shows_applyAllIn .scanned operations).values_eq,
    (Query.shows_applyAllIn .numbered operations).values_eq]
  exact List.flatMap_congr fun a _ => a.values_scanned

theorem clause_scanned_eq_iff (operations : List Operation) :
    (Query.empty.applyAllIn .scanned operations).clause
        = (Query.empty.applyAllIn .numbered operations).clause ↔
      ∀ p ∈ operations.flatMap Operation.predicates, ¬p.Misread := by
  rw [← predicates_layout, ← Layout.text_scanned_eq_iff 0,
    ← (Query.shows_applyAllIn .scanned operations).clause_eq,
    ← (Query.shows_applyAllIn .numbered operations).clause_eq]
  exact String.toList_inj.symm

/-- Each test for membership of an empty list is numbered in its own place, as it was asked for
unless it is an `IN` behind a column that ends in `NOT`.  Without such columns the whole clause is
the one that is asked for. -/
theorem emptyLists_kept_iff (operations : List Operation)
    (h : ∀ p ∈ operations.flatMap Operation.predicates,
      p.column.EvenQuotes ∧ count p.column.text = 0) :
    let numbered := (Query.empty.applyAll operations).numbered
    let scanned := Query.empty.applyAllIn .scanned operations
    let asked := Query.empty.applyAllIn .numbered operations
    numbered = .ok ⟨scanned.clause, scanned.values⟩ ∧
      (∀ (p : Predicate) (bound : Nat), p.operand = .list [] →
        (p.operator = .notIn → p.scannedText bound = p.column.text ++ " <> ALL('\x7b\x7d')") ∧
        (p.operator = .isIn → ¬['N', 'O', 'T'] <:+ p.column.text.toList →
          p.scannedText bound = p.column.text ++ " IN (NULL)") ∧
        (p.operator = .isIn → ∀ front, p.column.text = front ++ "NOT" →
          p.scannedText bound = front ++ "<> ALL('\x7b\x7d')")) ∧
      (numbered = .ok ⟨asked.clause, asked.values⟩ ↔
        ∀ p ∈ operations.flatMap Operation.predicates, ¬p.Misread) := by
  intro numbered scanned asked
  have hnumbered : numbered = .ok ⟨scanned.clause, scanned.values⟩ :=
    numbered_eq_scanned operations (fun p hp => (h p hp).1) (fun p hp => (h p hp).2)
  refine ⟨hnumbered, fun p bound hempty => ⟨fun hop => ?_, fun hop hcol => ?_, ?_⟩, ?_⟩
  · have hnot : ¬p.Misread := fun hp => by cases hop.symm.trans hp.isIn
    rw [Predicate.scannedText_of_not_misread hnot, Predicate.numberedText_of_notIn hop hempty]
  · have hnot : ¬p.Misread := fun hp => hcol hp.negated
    rw [Predicate.scannedText_of_not_misread hnot, Predicate.numberedText_of_isIn hop hempty]
  · exact fun hop front hcol => Predicate.scannedText_of_misread hop hempty hcol bound
  · rw [hnumbered, ← clause_scanned_eq_iff, Except.ok.injEq, Numbered.mk.injEq]
    exact and_iff_left (values_scanned operations)

def emptyListsRun : List Operation :=
  [.chain .bare (.closeBracket (.predicate (.openBracket .start) ⟨⟨"a"⟩, .isIn, .list []⟩)) .plain,
    .chain (.joined .and)
      (.predicate (.join (.predicate .start ⟨⟨"KNOT"⟩, .isIn, .list []⟩) .or)
        ⟨⟨"KNOT"⟩, .notIn, .list []⟩) .bracketed,
    .chain (.joined .or) (.predicate .start ⟨⟨"concat_ws('?', b)"⟩, .eq, .null⟩) .plain]

theorem emptyLists_kept_iff_emptyListsRun :
    (∀ p ∈ emptyListsRun.flatMap Operation.predicates,
        p.column.EvenQuotes ∧ count p.column.text = 0) ∧
      (Query.empty.applyAll emptyListsRun).numbered
        = .ok ⟨"(a IN (NULL)) AND (K<> ALL('\x7b\x7d') OR KNOT <> ALL('\x7b\x7d')) "
            ++ "OR concat_ws('?', b) = $1", [.null]⟩ := by
  have h : ∀ p ∈ emptyListsRun.flatMap Operation.predicates,
      p.column.EvenQuotes ∧ count p.column.text = 0 := by
    decide
  have hclause : (Query.empty.applyAllIn .scanned emptyListsRun).clause
      = "(a IN (NULL)) AND (K<> ALL('\x7b\x7d') OR KNOT <> ALL('\x7b\x7d')) "
        ++ "OR concat_ws('?', b) = $1" := by
    decide
  obtain ⟨hnumbered, -⟩ := emptyLists_kept_iff emptyListsRun h
  rw [hclause] at hnumbered
  exact ⟨h, hnumbered⟩

def knotRun : List Operation :=
  [.chain .bare (.predicate .start ⟨⟨"KNOT"⟩, .isIn, .list []⟩) .plain]

/-- A test that no row passes turns into one that every row passes. -/
theorem knotRun_misread :
    let q := Query.empty.applyAll knotRun
    q.clause = "KNOT IN (?)" ∧ q.values = [.list []] ∧
      q.numbered = .ok ⟨"K<> ALL('\x7b\x7d')", []⟩ ∧
      q.numbered ≠ .ok ⟨"KNOT IN (NULL)", []⟩ := by
  have hclause : (Query.empty.applyAllIn .scanned knotRun).clause = "K<> ALL('\x7b\x7d')" := by
    decide
  have hnumbered := numbered_eq_scanned knotRun (by decide) (by decide)
  rw [hclause] at hnumbered
  refine ⟨by decide, rfl, hnumbered, ?_⟩
  rw [hnumbered]
  simp

end SqlClause
