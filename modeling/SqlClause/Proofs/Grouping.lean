import SqlClause.Proofs.Layout.Symbols
import SqlClause.Proofs.Nesting

/-!
The condition that a clause stands for.

A run is well formed if its columns are plain, its chains are properly nested and ended, and none
but the first group comes without a word.  The clause of such a run can be read
(`readable_layout`).  A reader comes through a properly nested chain wherever an operand is
expected, and the brackets around what is there make one operand of it without a change to what it
stands for (`clause_means`).
-/

namespace SqlClause

open Condition

/-! ## Well-formed runs -/

/-- Whether an operation keeps a run well formed. -/
def Operation.Fits (q : Query) : Operation → Prop
  | .chain .bare steps _ => q.isEmpty ∧ steps.Nested
  | .chain _ steps _ => steps.Nested
  | .abandoned .. => False
  | .regroup | .sort _ | .limit _ => True

def Query.Fits : Query → List Operation → Prop
  | _, [] => True
  | q, op :: rest => op.Fits q ∧ (q.apply op).Fits rest

structure WellFormed (operations : List Operation) : Prop where
  plain : ∀ p ∈ operations.flatMap Operation.predicates, p.column.Plain
  fits : Query.empty.Fits operations

theorem Query.fits_append (q : Query) (a b : List Operation) :
    q.Fits (a ++ b) ↔ q.Fits a ∧ (q.applyAll a).Fits b := by
  induction a generalizing q with
  | nil => exact (iff_of_eq (true_and _)).symm
  | cons op a ih =>
    show op.Fits q ∧ (q.apply op).Fits (a ++ b) ↔ (op.Fits q ∧ (q.apply op).Fits a) ∧ _
    rw [ih, and_assoc]
    rfl

/-! ## Readers -/

namespace Reader

/-- The place in a chain that a reader is ready for, with the brackets that are open. -/
inductive At : Place → List Waiting → Reader → Prop
  | before (here : Waiting) (outer : List Waiting) :
      At .beforePredicate outer (.beforeOperand here outer)
  | after (alternatives : Option Condition) (conjunction : Condition) (outer : List Waiting) :
      At .afterPredicate outer (.afterOperand alternatives conjunction outer)

variable {r : Reader} {outer : List Waiting}

theorem At.step_openBracket (h : r.At .beforePredicate outer) :
    ∃ here next, r.step .openBracket = some next ∧ next.At .beforePredicate (here :: outer) := by
  obtain ⟨here, outer⟩ := h
  exact ⟨here, _, rfl, .before _ _⟩

theorem At.step_test (h : r.At .beforePredicate outer) (t : Test) :
    ∃ next, r.step (.test t) = some next ∧ next.At .afterPredicate outer := by
  obtain ⟨here, outer⟩ := h
  exact ⟨_, rfl, .after _ _ _⟩

theorem At.step_connective (h : r.At .afterPredicate outer) (word : Connective) :
    ∃ next, r.step (.connective word) = some next ∧ next.At .beforePredicate outer := by
  cases h with
  | after alternatives conjunction outer =>
    cases word with
    | and => exact ⟨_, rfl, .before _ _⟩
    | or => exact ⟨_, rfl, .before _ _⟩

theorem At.step_closeBracket {here : Waiting} (h : r.At .afterPredicate (here :: outer)) :
    ∃ next, r.step .closeBracket = some next ∧ next.At .afterPredicate outer := by
  cases h with
  | after alternatives conjunction outer => exact ⟨_, rfl, .after _ _ _⟩

end Reader

theorem Condition.exists_read?_iff {s : List Symbol} :
    (∃ c, read? s = some c) ↔ ∃ r, Reader.start.run s = some r ∧ r.At .afterPredicate [] := by
  constructor
  · rintro ⟨c, hc⟩
    obtain ⟨r, hrun, hfinish⟩ := Option.bind_eq_some_iff.mp hc
    refine ⟨r, hrun, ?_⟩
    unfold Reader.finish at hfinish
    split at hfinish
    · exact .after _ _ _
    · cases hfinish
  · rintro ⟨r, hrun, hat⟩
    cases hat with
    | after alternatives conjunction _ =>
      refine ⟨joinTo .or alternatives conjunction, ?_⟩
      rw [read?, hrun]
      rfl

/-! ## Chains -/

namespace Chain

variable {r : Reader} {outer : List Waiting}

/-- A reader that expects an operand comes through a chain in which each closing bracket has one to
close.  It has the open brackets of the chain in front of those that it had before. -/
theorem run_symbols {place : Place} {c : Chain place} {n : Nat} (h : c.stillOpen? = some n)
    (hr : r.At .beforePredicate outer) :
    ∃ next inner, r.run (Layout.symbols c.layout) = some next ∧ next.At place (inner ++ outer) ∧
      inner.length = n := by
  induction c generalizing n with
  | start =>
    cases h
    exact ⟨r, [], rfl, hr, rfl⟩
  | openBracket c ih =>
    obtain ⟨m, hm, rfl⟩ := stillOpen?_openBracket h
    obtain ⟨between, inner, hrun, hat, rfl⟩ := ih hm
    obtain ⟨here, next, hstep, hnext⟩ := hat.step_openBracket
    refine ⟨next, here :: inner, ?_, hnext, rfl⟩
    rw [layout, Layout.symbols_append]
    exact Reader.run_snoc hrun hstep
  | predicate c p ih =>
    obtain ⟨between, inner, hrun, hat, hlength⟩ := ih h
    obtain ⟨next, hstep, hnext⟩ := hat.step_test p.test
    refine ⟨next, inner, ?_, hnext, hlength⟩
    rw [layout, Layout.symbols_append]
    exact Reader.run_snoc hrun hstep
  | join c word ih =>
    obtain ⟨between, inner, hrun, hat, hlength⟩ := ih h
    obtain ⟨next, hstep, hnext⟩ := hat.step_connective word
    refine ⟨next, inner, ?_, hnext, hlength⟩
    rw [layout, Layout.symbols_append]
    exact Reader.run_snoc hrun hstep
  | closeBracket c ih =>
    obtain ⟨between, inner, hrun, hat, hlength⟩ := ih (stillOpen?_closeBracket h)
    obtain ⟨here, inner, rfl⟩ := List.exists_cons_of_length_eq_add_one hlength
    obtain ⟨next, hstep, hnext⟩ := hat.step_closeBracket
    refine ⟨next, inner, ?_, hnext, Nat.succ.inj hlength⟩
    rw [layout, Layout.symbols_append]
    exact Reader.run_snoc hrun hstep

theorem run_nested {c : Chain .afterPredicate} (h : c.Nested)
    (hr : r.At .beforePredicate outer) :
    ∃ next, r.run (Layout.symbols c.layout) = some next ∧ next.At .afterPredicate outer := by
  obtain ⟨next, inner, hrun, hat, hlength⟩ := run_symbols h hr
  obtain rfl := List.eq_nil_of_length_eq_zero hlength
  exact ⟨next, hrun, hat⟩

theorem run_wrap {c : Chain .afterPredicate} (h : c.Nested) (closing : Closing)
    (hr : r.At .beforePredicate outer) :
    ∃ next, r.run (Layout.symbols (Layout.wrap c.layout closing)) = some next ∧
      next.At .afterPredicate outer := by
  cases closing with
  | plain => exact run_nested h hr
  | bracketed =>
    obtain ⟨here, opened, hopen, hat⟩ := hr.step_openBracket
    obtain ⟨through, hrun, hat⟩ := run_nested h hat
    obtain ⟨next, hclose, hnext⟩ := hat.step_closeBracket
    refine ⟨next, ?_, hnext⟩
    show Reader.run _ (Layout.symbols (Layout.bracketed c.layout)) = _
    rw [Layout.symbols_bracketed, Reader.run_cons_of_step hopen]
    exact Reader.run_snoc hrun hclose

end Chain

/-! ## Layouts -/

namespace Layout

/-- There is nothing to read, or it can be read. -/
def Readable (l : List Piece) : Prop := l = [] ∨ ∃ c, read? (symbols l) = some c

theorem readable_wrap {c : Chain .afterPredicate} (h : c.Nested) (closing : Closing) :
    Readable (wrap c.layout closing) :=
  .inr (exists_read?_iff.mpr (c.run_wrap h closing (.before _ _)))

/-- Brackets around a whole layout do not change what it stands for. -/
theorem derives_bracketed {l : List Piece} {c : Condition} (h : read? (symbols l) = some c) :
    Derives .operand (symbols (bracketed l)) c := by
  rw [symbols_bracketed]
  exact .bracketed (derives_of_read? h)

theorem read?_bracketed {l : List Piece} {c : Condition} (h : read? (symbols l) = some c) :
    read? (symbols (bracketed l)) = some c :=
  read?_eq_some_iff.mpr (.conjunction (.operand (derives_bracketed h)))

theorem Readable.read?_regroup {l : List Piece} (h : Readable l) :
    read? (symbols (Layout.regroup l)) = read? (symbols l) := by
  rcases h with rfl | ⟨c, hc⟩
  · rfl
  · cases l with
    | nil => rfl
    | cons a l => exact (read?_bracketed hc).trans hc.symm

theorem Readable.regroup {l : List Piece} (h : Readable l) : Readable (Layout.regroup l) := by
  rcases h with rfl | ⟨c, hc⟩
  · exact .inl rfl
  · exact .inr ⟨c, (Readable.read?_regroup (.inr ⟨c, hc⟩)).trans hc⟩

theorem symbols_joined {l : List Piece} (h : l ≠ []) (word : Connective) (group : List Piece) :
    symbols (flush (pushWord l word) group) = symbols l ++ .connective word :: symbols group := by
  cases l with
  | nil => exact absurd rfl h
  | cons a l =>
    show symbols (((a :: l) ++ [.blank, .word word]) ++ .blank :: group) = _
    rw [symbols_append, symbols_append, List.append_assoc]
    rfl

/-- With brackets on both sides of the word, both are operands as a whole. -/
theorem read?_regrouped {l : List Piece} {a b : Condition}
    (ha : read? (symbols l) = some a) {group : List Piece} (hb : read? (symbols group) = some b)
    (hne : l ≠ []) (word : Connective) :
    read? (symbols (flush (pushWord (regroup l) word) (bracketed group)))
      = some (.join word a b) := by
  cases l with
  | nil => exact absurd rfl hne
  | cons p l =>
    have hbracketed : bracketed (p :: l) ≠ [] := List.cons_ne_nil _ _
    show read? (symbols (flush (pushWord (bracketed (p :: l)) word) _)) = _
    rw [symbols_joined hbracketed, read?_eq_some_iff]
    have hleft := derives_bracketed ha
    have hright := derives_bracketed hb
    cases word with
    | and => exact .conjunction (.and (.operand hleft) hright)
    | or => exact .or (.conjunction (.operand hleft)) (.operand hright)

theorem Readable.joined {l : List Piece} (hl : Readable l) {c : Chain .afterPredicate}
    (hc : c.Nested) (word : Connective) (closing : Closing) :
    Readable (flush (pushWord l word) (wrap c.layout closing)) := by
  by_cases hnil : l = []
  · subst hnil
    exact readable_wrap hc closing
  · obtain ⟨r, hrun, hr⟩ := exists_read?_iff.mp (hl.resolve_left hnil)
    obtain ⟨between, hword, hbetween⟩ := hr.step_connective word
    obtain ⟨next, hwrap, hnext⟩ := c.run_wrap hc closing hbetween
    refine .inr (exists_read?_iff.mpr ⟨next, ?_, hnext⟩)
    rw [symbols_joined hnil, Reader.run_append_of_run hrun, Reader.run_cons_of_step hword, hwrap]

/-- One operation.  A group without a word comes first, and others are joined to what can be
read. -/
theorem Readable.apply {l : List Piece} (hl : Readable l) {q : Query} (hq : q.isEmpty = l.isEmpty)
    {op : Operation} (h : op.Fits q) : Readable (Layout.apply l op) := by
  cases op with
  | chain opening steps closing =>
    cases opening with
    | bare =>
      obtain ⟨hempty, hnested⟩ := h
      obtain rfl : l = [] := List.isEmpty_iff.mp (hq ▸ hempty)
      exact readable_wrap hnested closing
    | joined word => exact hl.joined h word closing
    | regrouped word => exact hl.regroup.joined h word closing
  | abandoned opening steps => exact h.elim
  | regroup => exact hl.regroup
  | sort key => exact hl
  | limit n => exact hl

end Layout

/-! ## Runs -/

theorem readable_layout {operations : List Operation} (h : Query.empty.Fits operations) :
    Layout.Readable (layout operations) := by
  induction operations using List.reverseRecOn with
  | nil => exact .inl rfl
  | append_singleton front op ih =>
    obtain ⟨hfront, hop, -⟩ := (Query.fits_append _ _ _).mp h
    rw [layout, List.foldl_append]
    exact (ih hfront).apply (shows_applyAll front).isEmpty_eq hop

theorem parse?_clause {operations : List Operation}
    (h : ∀ p ∈ operations.flatMap Operation.predicates, p.column.Plain) :
    parse? (Query.empty.applyAll operations).clause = read? (Layout.symbols (layout operations)) :=
  Layout.parse?_text (separated_layout operations) (by rwa [predicates_layout])
    (shows_applyAll operations).clause_eq

theorem parse?_apply {operations : List Operation}
    (h : ∀ p ∈ operations.flatMap Operation.predicates, p.column.Plain) (op : Operation)
    (hop : ∀ p ∈ op.predicates, p.column.Plain) :
    parse? ((Query.empty.applyAll operations).apply op).clause
      = read? (Layout.symbols (Layout.apply (layout operations) op)) := by
  have hplain : ∀ p ∈ (operations ++ [op]).flatMap Operation.predicates, p.column.Plain := by
    intro p hp
    rw [List.flatMap_append, List.flatMap_singleton, List.mem_append] at hp
    exact hp.elim (h p) (hop p)
  have hparse := parse?_clause hplain
  rwa [Query.applyAll, layout, List.foldl_append, List.foldl_append] at hparse

theorem layout_eq_nil_iff (operations : List Operation) :
    layout operations = [] ↔ (Query.empty.applyAll operations).isEmpty := by
  rw [(shows_applyAll operations).isEmpty_eq, List.isEmpty_iff]

theorem parse?_group {c : Chain .afterPredicate} (h : ∀ p ∈ c.predicates, p.column.Plain) :
    parse? c.group.text = read? (Layout.symbols c.layout) :=
  Layout.parse?_text (Layout.separated_chain c) (by rwa [Layout.predicates_chain])
    c.toList_text_group

/-- The clause of a well-formed run stands for one condition, which has the tests of the
predicates in the order of the calls.  Brackets around the clause leave the condition as it is, and
a chain that is joined with brackets on both sides is joined to it as a whole. -/
theorem clause_means (operations : List Operation) (h : WellFormed operations) :
    let q := Query.empty.applyAll operations
    let ps := operations.flatMap Operation.predicates
    (q.clause ≠ "" → ∃ c, parse? q.clause = some c ∧ c.tests = ps.map Predicate.test ∧
        q.values = ps.map Predicate.bound) ∧
      parse? q.regroup.clause = parse? q.clause ∧
      ∀ (word : Connective) (steps : Chain .afterPredicate), steps.Nested →
        (∀ p ∈ steps.predicates, p.column.Plain) →
        let after := q.apply (.chain (.regrouped word) steps .bracketed)
        ∃ chain, parse? steps.group.text = some chain ∧
          (q.isEmpty → parse? after.clause = some chain) ∧
          (¬q.isEmpty → ∃ before, parse? q.clause = some before ∧
            parse? after.clause = some (.join word before chain)) := by
  intro q ps
  have hreadable := readable_layout h.fits
  have hclause : parse? q.clause = read? (Layout.symbols (layout operations)) :=
    parse?_clause h.plain
  refine ⟨fun hne => ?_, ?_, fun word steps hnested hplain => ?_⟩
  · have hlayout : layout operations ≠ [] :=
      mt (layout_eq_nil_iff operations).mp (mt Query.clause_of_isEmpty hne)
    obtain ⟨c, hc⟩ := hreadable.resolve_left hlayout
    refine ⟨c, hclause.trans hc, ?_, values_applyAll operations⟩
    rw [(derives_of_read? hc).tests_eq, Layout.tests_symbols, predicates_layout]
  · rw [hclause, ← hreadable.read?_regroup]
    exact parse?_apply h.plain .regroup (fun p hp => by cases hp)
  · intro after
    obtain ⟨chain, hchain⟩ : ∃ chain, read? (Layout.symbols steps.layout) = some chain :=
      (Layout.readable_wrap hnested .plain).resolve_left steps.layout_ne_nil
    have hafter := parse?_apply h.plain (.chain (.regrouped word) steps .bracketed) hplain
    refine ⟨chain, (parse?_group hplain).trans hchain, fun hempty => ?_, fun hempty => ?_⟩
    · rw [(layout_eq_nil_iff operations).mpr hempty] at hafter
      exact hafter.trans (Layout.read?_bracketed hchain)
    · have hne : layout operations ≠ [] := mt (layout_eq_nil_iff operations).mp hempty
      obtain ⟨before, hbefore⟩ := hreadable.resolve_left hne
      exact ⟨before, hclause.trans hbefore,
        hafter.trans (Layout.read?_regrouped hbefore hchain hne word)⟩

def nestedRun : List Operation :=
  [.chain (.joined .or)
      (.predicate (.join (.closeBracket (.predicate (.join (.predicate (.openBracket .start)
        ⟨⟨"a.id"⟩, .isIn, .list []⟩) .or) ⟨⟨"b"⟩, .eq, .null⟩)) .and)
        ⟨⟨"and"⟩, .startsWith, .text "AND ("⟩) .plain,
    .sort ⟨⟨"b"⟩, .descending⟩,
    .chain (.joined .or) (.predicate .start ⟨⟨"c_1"⟩, .notIn, .list [.null]⟩) .plain]

theorem clause_means_nestedRun :
    WellFormed nestedRun ∧
      let q := Query.empty.applyAll nestedRun
      q.clause = "(a.id IN (?) OR b = ?) AND and LIKE ? OR c_1 NOT IN (?)" ∧
        (∃ c, parse? q.clause = some c ∧ c.tests = [⟨⟨"a.id"⟩, .isIn⟩, ⟨⟨"b"⟩, .sign .eq⟩,
          ⟨⟨"and"⟩, .sign .like⟩, ⟨⟨"c_1"⟩, .notIn⟩]) ∧
        ∃ before, parse? q.clause = some before ∧
          parse? (q.apply (.chain (.regrouped .and)
              (.predicate .start ⟨⟨"d"⟩, .lt, .null⟩) .bracketed)).clause
            = some (.join .and before (.test ⟨⟨"d"⟩, .sign .lt⟩)) := by
  have h : WellFormed nestedRun := ⟨by decide, ⟨rfl, trivial, rfl, trivial⟩⟩
  obtain ⟨hparse, -, hjoined⟩ := clause_means nestedRun h
  obtain ⟨c, hc, htests, -⟩ := hparse (by decide)
  obtain ⟨chain, hchain, -, hafter⟩ :=
    hjoined .and (.predicate .start ⟨⟨"d"⟩, .lt, .null⟩) rfl (by decide)
  obtain ⟨before, hbefore, hafter⟩ := hafter (by decide)
  obtain rfl : .test ⟨⟨"d"⟩, .sign .lt⟩ = chain := Option.some.inj hchain
  exact ⟨h, by decide, ⟨c, hc, htests⟩, before, hbefore, hafter⟩

end SqlClause
