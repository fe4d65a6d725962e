import SqlClause.Proofs.Layout.Map
import SqlClause.Proofs.Layout.Scan

/-!
Operands stay out of the text.

Two runs are of one form if they make the same calls and only the operands of their predicates
differ.  Such runs agree in all that is shown of a query except for the values themselves, and in
all that an observer is told.  Numbering looks at values, but only at which of those that are
tested for membership are lists, and at how long these are (`operands_hidden`).
-/

namespace SqlClause

open Placeholder

/-- The predicate without its operand. -/
def Predicate.form (p : Predicate) : Predicate := { p with operand := .null }

theorem Predicate.form_eq_iff {p q : Predicate} :
    p.form = q.form ↔ p.column = q.column ∧ p.operator = q.operator := by
  simp [form]

def Operation.form : Operation → Operation := Operation.map Predicate.form

/-! ## Building -/

/-- The groups differ in their values alone. -/
structure Group.Alike (g h : Group) : Prop where
  fragments_eq : g.fragments = h.fragments
  length_eq : g.values.length = h.values.length
  pendingOpen_eq : g.pendingOpen = h.pendingOpen
  depth_eq : g.depth = h.depth

theorem Chain.alike_form {place : Place} (c : Chain place) :
    c.group.Alike (c.map Predicate.form).group := by
  induction c with
  | start => exact ⟨rfl, rfl, rfl, rfl⟩
  | openBracket c ih =>
    exact ⟨ih.fragments_eq, ih.length_eq, congrArg (· + 1) ih.pendingOpen_eq, ih.depth_eq⟩
  | predicate c p ih =>
    refine ⟨?_, ?_, rfl, ?_⟩
    · show c.group.fragments ++ [Group.openBrackets c.group.pendingOpen ++ p.text] = _
      rw [ih.fragments_eq, ih.pendingOpen_eq]
      rfl
    · show (c.group.values ++ [p.bound]).length = (_ ++ [_]).length
      rw [List.length_append, List.length_append, ih.length_eq]
      rfl
    · show c.group.depth + c.group.pendingOpen = _
      rw [ih.depth_eq, ih.pendingOpen_eq]
      rfl
  | join c word ih =>
    exact ⟨congrArg (· ++ [word.text]) ih.fragments_eq, ih.length_eq, ih.pendingOpen_eq,
      ih.depth_eq⟩
  | closeBracket c ih =>
    exact ⟨congrArg Group.closeLast ih.fragments_eq, ih.length_eq, ih.pendingOpen_eq,
      congrArg (· - 1) ih.depth_eq⟩

theorem Group.Alike.text_eq {g h : Group} (hg : g.Alike h) : g.text = h.text :=
  congrArg (" ".intercalate ·) hg.fragments_eq

theorem Group.Alike.flushEvents_eq {g h : Group} (hg : g.Alike h) (closing : Closing) :
    Query.flushEvents g closing = Query.flushEvents h closing := by
  unfold Query.flushEvents
  rw [hg.text_eq, hg.depth_eq, hg.length_eq]

namespace Query

/-- The queries differ in their values alone. -/
structure Alike (q r : Query) : Prop where
  fragments_eq : q.fragments = r.fragments
  length_eq : q.values.length = r.values.length
  sortKeys_eq : q.sortKeys = r.sortKeys
  limit_eq : q.limit = r.limit

namespace Alike

variable {q r s : Query}

theorem refl (q : Query) : q.Alike q := ⟨rfl, rfl, rfl, rfl⟩

theorem symm (h : q.Alike r) : r.Alike q :=
  ⟨h.fragments_eq.symm, h.length_eq.symm, h.sortKeys_eq.symm, h.limit_eq.symm⟩

theorem trans (h : q.Alike r) (k : r.Alike s) : q.Alike s :=
  ⟨h.fragments_eq.trans k.fragments_eq, h.length_eq.trans k.length_eq,
    h.sortKeys_eq.trans k.sortKeys_eq, h.limit_eq.trans k.limit_eq⟩

theorem isEmpty_eq (h : q.Alike r) : q.isEmpty = r.isEmpty :=
  congrArg List.isEmpty h.fragments_eq

theorem clause_eq (h : q.Alike r) : q.clause = r.clause := by
  rw [clause, clause, h.fragments_eq]

theorem order_eq (h : q.Alike r) : q.order = r.order := by
  rw [order, order, h.sortKeys_eq]

theorem regroup (h : q.Alike r) : q.regroup.Alike r.regroup := by
  unfold Query.regroup
  rw [h.isEmpty_eq, h.clause_eq]
  by_cases he : r.isEmpty
  · rw [if_pos he, if_pos he]
    exact h
  · rw [if_neg he, if_neg he]
    exact ⟨rfl, h.length_eq, h.sortKeys_eq, h.limit_eq⟩

theorem pushWord (h : q.Alike r) (word : Connective) :
    (q.pushWord word).Alike (r.pushWord word) := by
  unfold Query.pushWord
  rw [h.isEmpty_eq]
  by_cases he : r.isEmpty
  · rw [if_pos he, if_pos he]
    exact h
  · rw [if_neg he, if_neg he]
    exact ⟨congrArg (· ++ [.word word]) h.fragments_eq, h.length_eq, h.sortKeys_eq, h.limit_eq⟩

theorem begin (h : q.Alike r) (opening : Opening) : (q.begin opening).Alike (r.begin opening) := by
  cases opening with
  | bare => exact h
  | joined word => exact h.pushWord word
  | regrouped word => exact h.regroup.pushWord word

theorem flush (h : q.Alike r) {g k : Group} (hg : g.Alike k) (closing : Closing) :
    (q.flush g closing).Alike (r.flush k closing) := by
  refine ⟨?_, ?_, h.sortKeys_eq, h.limit_eq⟩
  · show q.fragments ++ [.group (closing.wrap g.text)] = _
    rw [h.fragments_eq, hg.text_eq]
    rfl
  · show (q.values ++ g.values).length = (r.values ++ k.values).length
    rw [List.length_append, List.length_append, h.length_eq, hg.length_eq]

theorem regroupEvents_eq (h : q.Alike r) : q.regroupEvents = r.regroupEvents := by
  unfold regroupEvents
  rw [h.isEmpty_eq, h.clause_eq, h.fragments_eq]

theorem beginEvents_eq (h : q.Alike r) (opening : Opening) :
    q.beginEvents opening = r.beginEvents opening := by
  cases opening with
  | regrouped word => exact h.regroupEvents_eq
  | _ => rfl

/-- An operation and its form do the same to queries that differ in their values alone. -/
theorem apply_form (h : q.Alike r) (op : Operation) : (q.apply op).Alike (r.apply op.form) := by
  cases op with
  | chain opening steps closing => exact (h.begin opening).flush steps.alike_form closing
  | abandoned opening steps => exact h.begin opening
  | regroup => exact h.regroup
  | sort key =>
    exact ⟨h.fragments_eq, h.length_eq, congrArg (· ++ [key]) h.sortKeys_eq, h.limit_eq⟩
  | limit n => exact ⟨h.fragments_eq, h.length_eq, h.sortKeys_eq, rfl⟩

theorem events_form (h : q.Alike r) (op : Operation) : q.events op = r.events op.form := by
  cases op with
  | chain opening steps closing =>
    show q.beginEvents opening ++ flushEvents steps.group closing = _
    rw [h.beginEvents_eq, steps.alike_form.flushEvents_eq]
    rfl
  | abandoned opening steps => exact h.beginEvents_eq opening
  | regroup => exact h.regroupEvents_eq
  | sort key => rfl
  | limit n => rfl

theorem applyAll_form (h : q.Alike r) (operations : List Operation) :
    (q.applyAll operations).Alike (r.applyAll (operations.map Operation.form)) := by
  induction operations generalizing q r with
  | nil => exact h
  | cons op rest ih => exact ih (h.apply_form op)

theorem log_form (h : q.Alike r) (operations : List Operation) :
    q.log operations = r.log (operations.map Operation.form) := by
  induction operations generalizing q r with
  | nil => rfl
  | cons op rest ih =>
    rw [log, List.map_cons, log, h.events_form op, ih (h.apply_form op)]

end Alike
end Query

/-! ## Numbering -/

theorem Value.isList_of_asList? {v : Value} (h : v.asList? = none) : v.isList = false := by
  cases v with
  | list items => cases h
  | _ => rfl

theorem Value.eq_list_of_asList? {v : Value} {items : List Value} (h : v.asList? = some items) :
    v = .list items := by
  cases v with
  | list items => cases h; rfl
  | _ => cases h

/-- The length of the list that is tested for membership. -/
def Predicate.listLength? (p : Predicate) : Option Nat :=
  if p.operator.isMembership then p.operand.asList?.map List.length else none

namespace Placeholder

/-- The slots are rendered alike and take as many params. -/
def Filling.Alike : Filling → Filling → Prop
  | .slots s, .slots t =>
    (∀ next, Slot.render next s = Slot.render next t) ∧
      (Slot.params s).length = (Slot.params t).length
  | .always, .always => True
  | _, _ => False

/-- The drafts differ in their params alone. -/
structure Draft.Alike (d e : Draft) : Prop where
  written_eq : d.written = e.written
  length_eq : d.params.length = e.params.length
  next_eq : d.next = e.next

theorem Filling.alike_param (v w : Value) : (slots [.param v]).Alike (slots [.param w]) :=
  ⟨fun next => (Slot.render_param next v).trans (Slot.render_param next w).symm, rfl⟩

theorem Filling.alike_refl (f : Filling) : f.Alike f := by
  cases f with
  | slots s => exact ⟨fun _ => rfl, rfl⟩
  | always => trivial

theorem alike_filling_of_lists {xs ys : List Value} (h : xs.length = ys.length)
    (before after : List Char) :
    (filling before after (.list xs)).Alike (filling before after (.list ys)) := by
  unfold filling
  by_cases hb : before.getLast? = some '(' ∧ after.head? = some ')'
  · rw [if_pos hb, if_pos hb]
    cases xs with
    | nil =>
      cases ys with
      | nil => exact Filling.alike_refl _
      | cons y ys => cases h
    | cons x xs =>
      cases ys with
      | nil => cases h
      | cons y ys =>
        refine ⟨fun next => ?_, ?_⟩
        · rw [Slot.render_items, Slot.render_items, h]
        · rw [Slot.params_items, Slot.params_items, h]
  · rw [if_neg hb, if_neg hb]
    exact Filling.alike_param _ _

theorem alike_filling {v w : Value}
    (h : v.asList?.map List.length = w.asList?.map List.length) (before after : List Char) :
    (filling before after v).Alike (filling before after w) := by
  cases hv : v.asList? with
  | none =>
    have hw : w.asList? = none := by rwa [hv, Option.map_none, eq_comm, Option.map_eq_none_iff] at h
    rw [filling_of_not_list (Value.isList_of_asList? hv),
      filling_of_not_list (Value.isList_of_asList? hw)]
    exact Filling.alike_param v w
  | some xs =>
    obtain ⟨ys, hw, hlen⟩ : ∃ ys, w.asList? = some ys ∧ ys.length = xs.length := by
      rwa [hv, Option.map_some, eq_comm, Option.map_eq_some_iff] at h
    rw [Value.eq_list_of_asList? hv, Value.eq_list_of_asList? hw]
    exact alike_filling_of_lists hlen.symm before after

/-- What is bound by a comparison does not matter at all. -/
theorem alike_filling_of_predicate {p q : Predicate} (hop : p.operator = q.operator)
    (hlen : p.listLength? = q.listLength?) (before : List Char) :
    (filling (before ++ p.operator.lead) p.operator.trail p.bound).Alike
      (filling (before ++ q.operator.lead) q.operator.trail q.bound) := by
  unfold Predicate.listLength? at hlen
  rw [← hop] at hlen ⊢
  cases hm : p.operator.isMembership with
  | false =>
    rw [Predicate.filling_of_comparison hm, Predicate.filling_of_comparison hm]
    exact Filling.alike_param _ _
  | true =>
    rw [if_pos hm, if_pos hm] at hlen
    have hp : p.bound = p.operand := Operator.bind_of_isMembership hm p.operand
    have hq : q.bound = q.operand := Operator.bind_of_isMembership (hop ▸ hm) q.operand
    rw [hp, hq]
    exact alike_filling hlen _ _

namespace Draft.Alike

variable {d e : Draft}

theorem write (h : d.Alike e) (text : List Char) : (d.write text).Alike (e.write text) :=
  ⟨congrArg (text.reverse ++ ·) h.written_eq, h.length_eq, h.next_eq⟩

theorem put (h : d.Alike e) {s t : List Slot} (hst : (Filling.slots s).Alike (.slots t)) :
    (d.put s).Alike (e.put t) := by
  rw [put_eq_append, put_eq_append]
  refine ⟨?_, ?_, ?_⟩
  · show (Slot.render d.next s).reverse ++ d.written = _
    rw [hst.1, h.next_eq, h.written_eq]
    rfl
  · show ((Slot.params s).reverse ++ d.params).length = ((Slot.params t).reverse ++ e.params).length
    rw [List.length_append, List.length_append, List.length_reverse, List.length_reverse, hst.2,
      h.length_eq]
  · show d.next + (Slot.params s).length = e.next + (Slot.params t).length
    rw [hst.2, h.next_eq]

theorem settle_always (h : d.Alike e) : (d.settle .always).Alike (e.settle .always) := by
  refine ⟨?_, h.length_eq, h.next_eq⟩
  show always.reverse ++ d.written.drop notIn.length = _
  rw [h.written_eq]
  rfl

theorem addPredicate (h : d.Alike e) {p q : Predicate} (hform : p.form = q.form)
    (hlen : p.listLength? = q.listLength?) : (d.addPredicate p).Alike (e.addPredicate q) := by
  obtain ⟨hcolumn, hop⟩ := Predicate.form_eq_iff.mp hform
  have hready : (d.write p.front).Alike (e.write q.front) := by
    rw [Predicate.front, Predicate.front, hcolumn, hop]
    exact h.write _
  have hfilling : (filling (d.write p.front).written.reverse p.operator.trail p.bound).Alike
      (filling (e.write q.front).written.reverse q.operator.trail q.bound) := by
    rw [reverse_written_front, reverse_written_front, h.written_eq, hcolumn]
    exact alike_filling_of_predicate hop hlen _
  cases hf : filling (d.write p.front).written.reverse p.operator.trail p.bound with
  | slots s =>
    cases hg : filling (e.write q.front).written.reverse q.operator.trail q.bound with
    | slots t =>
      rw [hf, hg] at hfilling
      rw [addPredicate_of_slots hf, addPredicate_of_slots hg, hop]
      exact (hready.put hfilling).write _
    | always =>
      rw [hf, hg] at hfilling
      exact hfilling.elim
  | always =>
    cases hg : filling (e.write q.front).written.reverse q.operator.trail q.bound with
    | slots t =>
      rw [hf, hg] at hfilling
      exact hfilling.elim
    | always =>
      rw [addPredicate_of_always hf, addPredicate_of_always hg]
      exact hready.settle_always

/-- Pieces of one form leave drafts that differ in their params alone.  The induction takes both
layouts piece by piece. -/
theorem foldl_addPiece {l m : List Piece}
    (hform : l.map (Piece.map Predicate.form) = m.map (Piece.map Predicate.form))
    (hlen : (Layout.predicates l).map Predicate.listLength?
      = (Layout.predicates m).map Predicate.listLength?)
    (h : d.Alike e) : (l.foldl addPiece d).Alike (m.foldl addPiece e) := by
  induction l generalizing m d e with
  | nil =>
    obtain rfl : m = [] := List.map_eq_nil_iff.mp hform.symm
    exact h
  | cons a l ih =>
    obtain ⟨b, m, rfl, hb, hm⟩ := List.map_eq_cons_iff.mp hform.symm
    have hpred : b.predicate?.map Predicate.form = a.predicate?.map Predicate.form := by
      rw [← Piece.predicate?_map, ← Piece.predicate?_map, hb]
    rw [List.foldl_cons, List.foldl_cons]
    cases ha : a.predicate? with
    | none =>
      have hnone : b.predicate? = none := by
        rwa [ha, Option.map_none, Option.map_eq_none_iff] at hpred
      have hba : b = a := by
        rwa [Piece.map_of_none _ hnone, Piece.map_of_none _ ha] at hb
      rw [Layout.predicates_cons_none ha, Layout.predicates_cons_none hnone] at hlen
      refine ih hm.symm hlen ?_
      rw [hba, addPiece_of_none ha, addPiece_of_none ha]
      exact h.write _
    | some p =>
      obtain ⟨q, hq, hqp⟩ : ∃ q, b.predicate? = some q ∧ q.form = p.form := by
        rwa [ha, Option.map_some, Option.map_eq_some_iff] at hpred
      obtain rfl := Piece.eq_predicate ha
      obtain rfl := Piece.eq_predicate hq
      obtain ⟨hhead, htail⟩ := List.cons.inj hlen
      exact ih hm.symm htail (h.addPredicate hqp.symm hhead)

end Draft.Alike
end Placeholder

/-! ## Runs -/

section

variable {a b : List Operation} (h : a.map Operation.form = b.map Operation.form)

include h

theorem alike_applyAll : (Query.empty.applyAll a).Alike (Query.empty.applyAll b) := by
  have ha := (Query.Alike.refl Query.empty).applyAll_form a
  have hb := (Query.Alike.refl Query.empty).applyAll_form b
  rw [h] at ha
  exact ha.trans hb.symm

theorem log_eq_of_form : Query.empty.log a = Query.empty.log b := by
  rw [(Query.Alike.refl _).log_form a, (Query.Alike.refl _).log_form b, h]

theorem map_form_predicates :
    (a.flatMap Operation.predicates).map Predicate.form
      = (b.flatMap Operation.predicates).map Predicate.form := by
  rw [← flatMap_predicates_map, ← flatMap_predicates_map]
  exact congrArg (List.flatMap Operation.predicates) h

theorem forall_column_of_form {P : Column → Prop}
    (hP : ∀ p ∈ a.flatMap Operation.predicates, P p.column) :
    ∀ q ∈ b.flatMap Operation.predicates, P q.column := by
  intro q hq
  obtain ⟨p, hp, hpq⟩ : ∃ p ∈ a.flatMap Operation.predicates, p.form = q.form :=
    List.mem_map.mp (map_form_predicates h ▸ List.mem_map_of_mem hq)
  rw [← (Predicate.form_eq_iff.mp hpq).1]
  exact hP p hp

theorem alike_foldl_layout
    (hlen : (a.flatMap Operation.predicates).map Predicate.listLength?
      = (b.flatMap Operation.predicates).map Predicate.listLength?) :
    ((layout a).foldl Draft.addPiece ⟨[], [], 1⟩).Alike
      ((layout b).foldl Draft.addPiece ⟨[], [], 1⟩) := by
  have hlayout : (layout a).map (Piece.map Predicate.form)
      = (layout b).map (Piece.map Predicate.form) := by
    rw [← layout_map, ← layout_map]
    exact congrArg layout h
  have hdraft : (⟨[], [], 1⟩ : Draft).Alike ⟨[], [], 1⟩ := ⟨rfl, rfl, rfl⟩
  exact hdraft.foldl_addPiece hlayout (by rwa [predicates_layout, predicates_layout])

end

/-- The operands of a run are not shown, whatever they are, and numbering shows of them only the
lengths of the lists that are tested for membership. -/
theorem operands_hidden {a b : List Operation} (h : a.map Operation.form = b.map Operation.form) :
    (∀ n,
      let q := Query.empty.applyAll (a.take n)
      let r := Query.empty.applyAll (b.take n)
      q.clause = r.clause ∧ q.isEmpty = r.isEmpty ∧ q.order = r.order ∧ q.limit = r.limit ∧
        Query.empty.log (a.take n) = Query.empty.log (b.take n)) ∧
    ((∀ p ∈ a.flatMap Operation.predicates,
        p.column.EvenQuotes ∧ count p.column.text = 0) →
      (a.flatMap Operation.predicates).map Predicate.listLength?
        = (b.flatMap Operation.predicates).map Predicate.listLength? →
      ∃ m n, (Query.empty.applyAll a).numbered = .ok m ∧
        (Query.empty.applyAll b).numbered = .ok n ∧
        m.sql = n.sql ∧ m.params.length = n.params.length) := by
  refine ⟨fun n => ?_, fun hcolumns hlen => ?_⟩
  · intro q r
    have htake : (a.take n).map Operation.form = (b.take n).map Operation.form := by
      rw [List.map_take, List.map_take, h]
    have hqr : q.Alike r := alike_applyAll htake
    exact ⟨hqr.clause_eq, hqr.isEmpty_eq, hqr.order_eq, hqr.limit_eq, log_eq_of_form htake⟩
  · have hcolumns' := forall_column_of_form h
      (P := fun c => c.EvenQuotes ∧ count c.text = 0) hcolumns
    have hscan := alike_foldl_layout h hlen
    refine ⟨_, _, numbered_applyAll (fun p hp => (hcolumns p hp).1) (fun p hp => (hcolumns p hp).2),
      numbered_applyAll (fun p hp => (hcolumns' p hp).1) (fun p hp => (hcolumns' p hp).2), ?_, ?_⟩
    · exact congrArg (fun written => String.ofList written.reverse) hscan.written_eq
    · rw [List.length_reverse, List.length_reverse, hscan.length_eq]

def searchRun (name ids : Value) : List Operation :=
  [.chain .bare (.predicate .start ⟨⟨"name"⟩, .contains, name⟩) .plain,
    .abandoned (.regrouped .or) (.predicate .start ⟨⟨"it's"⟩, .isIn, name⟩),
    .chain (.joined .and) (.predicate .start ⟨⟨"id"⟩, .notIn, ids⟩) .bracketed]

theorem operands_hidden_searchRun :
    let a := searchRun (.text "') OR ?") (.list [.null, .bool true])
    let b := searchRun (.list []) (.list [.list [], .text "NOT IN (?)"])
    a.map Operation.form = b.map Operation.form ∧
      Query.empty.log a = Query.empty.log b ∧
      ∃ m n, (Query.empty.applyAll a).numbered = .ok m ∧
        (Query.empty.applyAll b).numbered = .ok n ∧
        m.sql = n.sql ∧ m.params.length = n.params.length := by
  intro a b
  have h : a.map Operation.form = b.map Operation.form := rfl
  obtain ⟨hshown, hnumbered⟩ := operands_hidden h
  obtain ⟨-, -, -, -, hlog⟩ := hshown 3
  exact ⟨h, hlog, hnumbered (by decide) rfl⟩

end SqlClause
