import SqlClause.Proofs.Abandonment
import SqlClause.Proofs.Value.Equality

/-!
Conditions, sort keys and limits on one query.

A query has a part for each of the three, and an operation changes its own part by what that part
holds, whatever the other two hold (`conditions_apply`, `sortKeys_apply`, `limit_apply`).  Over a
run each part therefore comes from the operations of its kind alone, and so do the events, which
tell of conditions only (`log_eq`).  Runs that differ in how the three kinds come between each other
end in the same query (`reordered_agree`).  That query may still differ from itself, if a value that
it binds does.
-/

namespace SqlClause

namespace Operation

def isCondition : Operation → Bool
  | .chain .. | .abandoned .. | .regroup => true
  | .sort _ | .limit _ => false

def sortKey? : Operation → Option SortKey
  | .sort key => some key
  | _ => none

/-- What the operation adds to an ORDER BY list. -/
def entry? : Operation → Option String
  | .sort ⟨column, .ascending⟩ => some (column.text ++ " ASC")
  | .sort ⟨column, .descending⟩ => some (column.text ++ " DESC")
  | _ => none

def limit? : Operation → Option UInt64
  | .limit n => some n
  | _ => none

theorem entry?_eq (op : Operation) : op.entry? = op.sortKey?.map SortKey.text := by
  cases op with
  | sort key =>
    obtain ⟨column, direction⟩ := key
    cases direction with
    | ascending =>
      have hword : " ASC" = " " ++ "ASC" := by decide
      show some (column.text ++ " ASC") = some (column.text ++ " " ++ "ASC")
      rw [hword, String.append_assoc]
    | descending =>
      have hword : " DESC" = " " ++ "DESC" := by decide
      show some (column.text ++ " DESC") = some (column.text ++ " " ++ "DESC")
      rw [hword, String.append_assoc]
  | _ => rfl

end Operation

/-- Runs with the same conditions, sort keys and limits, each in the same order, however the three
kinds come between each other. -/
structure Reordered (a b : List Operation) : Prop where
  conditions : a.filter Operation.isCondition = b.filter Operation.isCondition
  sortKeys : a.filterMap Operation.sortKey? = b.filterMap Operation.sortKey?
  limits : a.filterMap Operation.limit? = b.filterMap Operation.limit?

namespace Query

/-- The query without sort keys and limit. -/
def conditions (q : Query) : Query := { q with sortKeys := [], limit := 0 }

theorem eq_of_parts {q r : Query} (hconditions : q.conditions = r.conditions)
    (hkeys : q.sortKeys = r.sortKeys) (hlimit : q.limit = r.limit) : q = r := by
  calc
    q = { q.conditions with sortKeys := q.sortKeys, limit := q.limit } := rfl
    _ = { r.conditions with sortKeys := r.sortKeys, limit := r.limit } := by
      rw [hconditions, hkeys, hlimit]
    _ = r := rfl

variable (q : Query)

/-! ## One operation -/

theorem conditions_regroup : q.regroup.conditions = q.conditions.regroup :=
  apply_ite conditions (q.isEmpty = true) q _

theorem conditions_pushWord (word : Connective) :
    (q.pushWord word).conditions = q.conditions.pushWord word :=
  apply_ite conditions (q.isEmpty = true) q _

theorem conditions_begin (opening : Opening) :
    (q.begin opening).conditions = q.conditions.begin opening := by
  cases opening with
  | bare => rfl
  | joined word => exact q.conditions_pushWord word
  | regrouped word =>
    show (q.regroup.pushWord word).conditions = q.conditions.regroup.pushWord word
    rw [conditions_pushWord, conditions_regroup]

theorem conditions_apply (op : Operation) :
    (q.apply op).conditions = if op.isCondition then q.conditions.apply op else q.conditions := by
  cases op with
  | chain opening steps closing =>
    have hbegin := q.conditions_begin opening
    exact congrArg (flush · steps.group closing) hbegin
  | abandoned opening steps => exact q.conditions_begin opening
  | regroup => exact q.conditions_regroup
  | sort key => rfl
  | limit n => rfl

/-- A condition leaves sort keys and limit as they are. -/
theorem exists_apply_eq {op : Operation} (h : op.isCondition) :
    ∃ fragments values, q.apply op = { q with fragments, values } := by
  cases op with
  | chain opening steps closing =>
    obtain ⟨fragments, hbegin⟩ := q.exists_begin_eq opening
    show ∃ fragments values, (q.begin opening).flush steps.group closing = _
    rw [hbegin]
    exact ⟨_, _, rfl⟩
  | abandoned opening steps =>
    obtain ⟨fragments, hbegin⟩ := q.exists_begin_eq opening
    exact ⟨fragments, q.values, hbegin⟩
  | regroup =>
    obtain ⟨fragments, hregroup⟩ := q.exists_regroup_eq
    exact ⟨fragments, q.values, hregroup⟩
  | sort key => cases h
  | limit n => cases h

theorem sortKeys_of_isCondition {op : Operation} (h : op.isCondition) :
    (q.apply op).sortKeys = q.sortKeys := by
  obtain ⟨fragments, values, hop⟩ := q.exists_apply_eq h
  rw [hop]

theorem limit_of_isCondition {op : Operation} (h : op.isCondition) :
    (q.apply op).limit = q.limit := by
  obtain ⟨fragments, values, hop⟩ := q.exists_apply_eq h
  rw [hop]

theorem sortKeys_apply (op : Operation) :
    (q.apply op).sortKeys = q.sortKeys ++ op.sortKey?.toList := by
  cases op with
  | sort key => rfl
  | limit n => exact (List.append_nil _).symm
  | _ => exact (q.sortKeys_of_isCondition rfl).trans (List.append_nil _).symm

theorem limit_apply (op : Operation) : (q.apply op).limit = op.limit?.getD q.limit := by
  cases op with
  | sort key => rfl
  | limit n => rfl
  | _ => exact q.limit_of_isCondition rfl

/-- An observer is told of conditions alone. -/
theorem events_eq (op : Operation) :
    q.events op = if op.isCondition then q.conditions.events op else [] := by
  cases op with
  | chain opening steps closing => cases opening <;> rfl
  | abandoned opening steps => cases opening <;> rfl
  | regroup => rfl
  | sort key => rfl
  | limit n => rfl

/-! ## Runs -/

theorem conditions_applyAll (operations : List Operation) :
    (q.applyAll operations).conditions
      = q.conditions.applyAll (operations.filter Operation.isCondition) := by
  induction operations generalizing q with
  | nil => rfl
  | cons op rest ih =>
    show ((q.apply op).applyAll rest).conditions = _
    rw [ih, conditions_apply, List.filter_cons]
    by_cases h : op.isCondition
    · rw [if_pos h, if_pos h]
      rfl
    · rw [if_neg h, if_neg h]

theorem sortKeys_applyAll (operations : List Operation) :
    (q.applyAll operations).sortKeys = q.sortKeys ++ operations.filterMap Operation.sortKey? := by
  induction operations generalizing q with
  | nil => exact (List.append_nil _).symm
  | cons op rest ih =>
    show ((q.apply op).applyAll rest).sortKeys = _
    rw [ih, sortKeys_apply, List.append_assoc]
    cases h : op.sortKey? with
    | none => rw [List.filterMap_cons_none h]; rfl
    | some key => rw [List.filterMap_cons_some h]; rfl

theorem limit_applyAll (operations : List Operation) :
    (q.applyAll operations).limit
      = (operations.filterMap Operation.limit?).getLast?.getD q.limit := by
  induction operations generalizing q with
  | nil => rfl
  | cons op rest ih =>
    show ((q.apply op).applyAll rest).limit = _
    rw [ih, limit_apply]
    cases h : op.limit? with
    | none => rw [List.filterMap_cons_none h]; rfl
    | some n => rw [List.filterMap_cons_some h, List.getLast?_cons]; rfl

theorem log_eq (operations : List Operation) :
    q.log operations = q.conditions.log (operations.filter Operation.isCondition) := by
  induction operations generalizing q with
  | nil => rfl
  | cons op rest ih =>
    rw [log, ih, events_eq, conditions_apply, List.filter_cons]
    by_cases h : op.isCondition
    · rw [if_pos h, if_pos h, if_pos h, log]
    · rw [if_neg h, if_neg h, if_neg h]
      rfl

theorem order_applyAll (operations : List Operation) :
    (empty.applyAll operations).order
      = ", ".intercalate (operations.filterMap Operation.entry?) := by
  have hentries : operations.filterMap Operation.entry?
      = (operations.filterMap Operation.sortKey?).map SortKey.text := by
    rw [List.map_filterMap]
    exact congrArg (List.filterMap · operations) (funext Operation.entry?_eq)
  rw [order, sortKeys_applyAll, hentries]
  rfl

theorem applyAll_reordered {a b : List Operation} (h : Reordered a b) :
    q.applyAll a = q.applyAll b := by
  apply eq_of_parts
  · rw [conditions_applyAll, conditions_applyAll, h.conditions]
  · rw [sortKeys_applyAll, sortKeys_applyAll, h.sortKeys]
  · rw [limit_applyAll, limit_applyAll, h.limits]

theorem log_reordered {a b : List Operation} (h : Reordered a b) : q.log a = q.log b := by
  rw [q.log_eq a, q.log_eq b, h.conditions]

/-- Only its values can keep a query from being equal to itself. -/
theorem beq_self_iff : (q == q) = true ↔ ∀ v ∈ q.values, v.holdsNaN = false := by
  have hself : (q == q) = Value.beqItems q.values q.values := by
    show (q.fragments == q.fragments && Value.beqItems q.values q.values
      && q.sortKeys == q.sortKeys && q.limit == q.limit) = _
    simp only [beq_self_eq_true, Bool.true_and, Bool.and_true]
  rw [hself, Value.beqItems_self, Bool.not_eq_true', Value.itemsHoldNaN_eq_false_iff]

end Query

/-- It makes no difference how conditions, sort keys and limits come between each other. -/
theorem reordered_agree {a b : List Operation} (h : Reordered a b) :
    let q := Query.empty.applyAll a
    let r := Query.empty.applyAll b
    ((q == r) = true ↔ ∀ v ∈ q.values, v.holdsNaN = false) ∧
      (r.clause = q.clause ∧ r.values = q.values ∧ r.order = q.order ∧ r.limit = q.limit ∧
        r.isEmpty = q.isEmpty) ∧
      Query.empty.log b = Query.empty.log a ∧
      q.order = ", ".intercalate (a.filterMap Operation.entry?) ∧
      q.limit = (a.filterMap Operation.limit?).getLast?.getD 0 := by
  intro q r
  have hsame : q = r := Query.empty.applyAll_reordered h
  refine ⟨?_, ?_, (Query.empty.log_reordered h).symm, Query.order_applyAll a,
    Query.empty.limit_applyAll a⟩
  · rw [← hsame]
    exact q.beq_self_iff
  · rw [← hsame]
    exact ⟨rfl, rfl, rfl, rfl, rfl⟩

/-- A run with all three kinds in turn. -/
def mixedRun (v : Value) : List Operation :=
  [.sort ⟨⟨"created_at"⟩, .descending⟩,
    .chain .bare (.predicate .start ⟨⟨"a"⟩, .isIn, v⟩) .plain,
    .limit 50,
    .abandoned (.joined .or) .start,
    .sort ⟨⟨"id"⟩, .ascending⟩,
    .regroup,
    .limit 20]

/-- The same operations, kind after kind. -/
def sortedRun (v : Value) : List Operation :=
  [.limit 50,
    .limit 20,
    .chain .bare (.predicate .start ⟨⟨"a"⟩, .isIn, v⟩) .plain,
    .abandoned (.joined .or) .start,
    .regroup,
    .sort ⟨⟨"created_at"⟩, .descending⟩,
    .sort ⟨⟨"id"⟩, .ascending⟩]

theorem reordered_agree_mixedRun :
    let one : Value := .list [.int 1]
    let nan : Value := .list [.null, .float .nan]
    Reordered (mixedRun one) (sortedRun one) ∧ Reordered (mixedRun nan) (sortedRun nan) ∧
      (Query.empty.applyAll (mixedRun one) == Query.empty.applyAll (sortedRun one)) = true ∧
      (Query.empty.applyAll (mixedRun nan) == Query.empty.applyAll (sortedRun nan)) = false ∧
      (Query.empty.applyAll (sortedRun nan)).clause = "(a IN (?) OR)" ∧
      (Query.empty.applyAll (mixedRun nan)).order = "created_at DESC, id ASC" ∧
      (Query.empty.applyAll (mixedRun nan)).limit = 20 := by
  intro one nan
  have hone : Reordered (mixedRun one) (sortedRun one) := ⟨rfl, rfl, rfl⟩
  have hnan : Reordered (mixedRun nan) (sortedRun nan) := ⟨rfl, rfl, rfl⟩
  obtain ⟨hequal, -, -, -, -⟩ := reordered_agree hone
  obtain ⟨hdiffers, ⟨hclause, -⟩, -, horder, hlimit⟩ := reordered_agree hnan
  refine ⟨hone, hnan, hequal.mpr (by decide), ?_, hclause.trans (by decide), horder, hlimit⟩
  rw [← Bool.not_eq_true, hdiffers]
  intro h
  exact absurd (h nan (List.mem_singleton_self nan)) (by decide)

end SqlClause
