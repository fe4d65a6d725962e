import Mathlib.Data.List.DropRight
import SqlClause.Proofs.Nesting
import SqlClause.Proofs.Streaming

/-!
The event log as an account of the calls.

A group and a query each keep what their events will carry: the depth in brackets, the values, the
pieces.  `account` has none of these.  It counts the calls of a chain, and of the run so far it
knows which chains were ended, where words came in and where all was regrouped (`history`).  A
regrouping tells of one piece for the last regrouping and of one for each change since, and of
nothing before the first chain is ended.  Clauses come from the text that grows with the calls, and
the labels of each event are written out.  The log of a run is its account (`log_eq_account`).
-/

namespace SqlClause

/-! ## The account -/

/-- What happens to the pieces of a clause. -/
inductive Change where
  | ended
  | worded
  | regrouped
  deriving DecidableEq

def Opening.changes : Opening → List Change
  | .bare => []
  | .joined _ => [.worded]
  | .regrouped _ => [.regrouped, .worded]

/-- What an operation changes after other changes.  As long as no chain has been ended, nothing but
the end of one changes anything. -/
def Operation.changes (past : List Change) : Operation → List Change
  | .chain opening _ _ => (if Change.ended ∈ past then opening.changes else []) ++ [.ended]
  | .abandoned opening _ => if Change.ended ∈ past then opening.changes else []
  | .regroup => if Change.ended ∈ past then [.regrouped] else []
  | .sort _ => []
  | .limit _ => []

def history (operations : List Operation) : List Change :=
  operations.foldl (fun past op => past ++ op.changes past) []

/-- The last regrouping, if there was one, and all that came since. -/
def pieceCount (past : List Change) : Nat :=
  (if Change.regrouped ∈ past then 1 else 0) + (past.rtakeWhile (· ≠ .regrouped)).length

/-- An event with its labels. -/
structure Entry where
  level : String
  target : String
  message : String
  event : Event
  deriving DecidableEq

def Event.entry (e : Event) : Entry := ⟨e.level, e.target, e.message, e⟩

/-- The account of a regrouping after some operations. -/
def regroupAccount (past : List Operation) : List Entry :=
  if Change.ended ∈ history past then
    [⟨"TRACE", "gormqy.query", "conditions regrouped",
      .regrouped (pieceCount (history past))
        (Event.shown ("(" ++ past.foldl Stream.apply "" ++ ")"))⟩]
  else []

/-- The text of a chain that is ended. -/
def Chain.endedText (steps : Chain .afterPredicate) : Closing → String
  | .plain => steps.rendered
  | .bracketed => "(" ++ steps.rendered ++ ")"

def Chain.account (steps : Chain .afterPredicate) (closing : Closing) : List Entry :=
  let clause := Event.shown (steps.endedText closing)
  (if steps.opened = steps.closed then []
    else [⟨"WARN", "gormqy.condition", "condition group has unbalanced brackets",
      .unbalanced ((steps.opened : Int) - steps.closed) clause⟩])
    ++ [⟨"TRACE", "gormqy.condition", "condition group flushed",
      .flushed steps.predicates.length clause⟩]

def Operation.account (past : List Operation) : Operation → List Entry
  | .chain (.regrouped _) steps closing => regroupAccount past ++ steps.account closing
  | .chain _ steps closing => steps.account closing
  | .abandoned (.regrouped _) _ => regroupAccount past
  | .abandoned _ _ => []
  | .regroup => regroupAccount past
  | .sort _ => []
  | .limit _ => []

/-- The account of operations that come after others. -/
def account (past : List Operation) : List Operation → List Entry
  | [] => []
  | op :: rest => op.account past ++ account (past ++ [op]) rest

/-! ## Pieces -/

theorem pieceCount_regrouped (past : List Change) : pieceCount (past ++ [.regrouped]) = 1 := by
  have hsince : (past ++ [Change.regrouped]).rtakeWhile (· ≠ .regrouped) = [] :=
    List.rtakeWhile_concat_neg _ _ _ (by decide)
  rw [pieceCount, hsince, if_pos (by simp)]
  rfl

theorem pieceCount_append (past : List Change) {c : Change} (h : c ≠ .regrouped) :
    pieceCount (past ++ [c]) = pieceCount past + 1 := by
  have hsince : (past ++ [c]).rtakeWhile (· ≠ .regrouped)
      = past.rtakeWhile (· ≠ .regrouped) ++ [c] :=
    List.rtakeWhile_concat_pos _ _ _ (by simpa using h)
  have hmem : Change.regrouped ∈ past ++ [c] ↔ Change.regrouped ∈ past := by
    simp [Ne.symm h]
  simp only [pieceCount, hsince, hmem, List.length_append, List.length_singleton, Nat.add_assoc]

namespace Query

theorem begin_of_isEmpty {q : Query} (h : q.isEmpty) (opening : Opening) :
    q.begin opening = q := by
  cases opening with
  | bare => rfl
  | joined word => exact if_pos h
  | regrouped word =>
    have hregroup : q.regroup = q := if_pos h
    show q.regroup.pushWord word = q
    rw [hregroup]
    exact if_pos h

/-- The changes account for the pieces of a query. -/
structure Follows (q : Query) (past : List Change) : Prop where
  isEmpty_iff : q.isEmpty ↔ Change.ended ∉ past
  length_eq : q.fragments.length = pieceCount past

namespace Follows

variable {q : Query} {past : List Change}

theorem regroup (h : q.Follows past) (hempty : ¬q.isEmpty) :
    q.regroup.Follows (past ++ [.regrouped]) := by
  refine ⟨?_, ?_⟩
  · rw [q.isEmpty_regroup, h.isEmpty_iff]
    simp
  · rw [Query.regroup, if_neg hempty, pieceCount_regrouped]
    rfl

theorem pushWord (h : q.Follows past) (hempty : ¬q.isEmpty) (word : Connective) :
    (q.pushWord word).Follows (past ++ [.worded]) := by
  refine ⟨?_, ?_⟩
  · rw [q.isEmpty_pushWord, h.isEmpty_iff]
    simp
  · rw [Query.pushWord, if_neg hempty, pieceCount_append past (by decide), ← h.length_eq]
    exact List.length_append

theorem flush (h : q.Follows past) (g : Group) (closing : Closing) :
    (q.flush g closing).Follows (past ++ [.ended]) := by
  have hempty : (q.flush g closing).isEmpty = false :=
    q.isEmpty_append (.group (closing.wrap g.text))
  refine ⟨?_, ?_⟩
  · simp [hempty]
  · rw [pieceCount_append past (by decide), ← h.length_eq]
    exact List.length_append

theorem begin (h : q.Follows past) (opening : Opening) :
    (q.begin opening).Follows
      (past ++ if Change.ended ∈ past then opening.changes else []) := by
  by_cases hended : Change.ended ∈ past
  · have hempty : ¬q.isEmpty := fun hq => h.isEmpty_iff.mp hq hended
    rw [if_pos hended]
    cases opening with
    | bare =>
      show q.Follows (past ++ [])
      rwa [List.append_nil]
    | joined word => exact h.pushWord hempty word
    | regrouped word =>
      have hregrouped : ¬q.regroup.isEmpty := by rwa [q.isEmpty_regroup]
      have hboth := (h.regroup hempty).pushWord hregrouped word
      rwa [List.append_assoc] at hboth
  · rw [if_neg hended, List.append_nil, begin_of_isEmpty (h.isEmpty_iff.mpr hended)]
    exact h

theorem apply (h : q.Follows past) (op : Operation) :
    (q.apply op).Follows (past ++ op.changes past) := by
  cases op with
  | chain opening steps closing =>
    have hflush := (h.begin opening).flush steps.group closing
    rwa [List.append_assoc] at hflush
  | abandoned opening steps => exact h.begin opening
  | regroup =>
    show q.regroup.Follows (past ++ if Change.ended ∈ past then [.regrouped] else [])
    by_cases hended : Change.ended ∈ past
    · rw [if_pos hended]
      exact h.regroup (fun hq => h.isEmpty_iff.mp hq hended)
    · rw [if_neg hended, List.append_nil, Query.regroup, if_pos (h.isEmpty_iff.mpr hended)]
      exact h
  | sort key =>
    show Follows _ (past ++ [])
    rw [List.append_nil]
    exact ⟨h.isEmpty_iff, h.length_eq⟩
  | limit n =>
    show Follows _ (past ++ [])
    rw [List.append_nil]
    exact ⟨h.isEmpty_iff, h.length_eq⟩

end Follows

theorem follows_history (operations : List Operation) :
    (Query.empty.applyAll operations).Follows (history operations) := by
  have h : ∀ q past, Follows q past → (q.applyAll operations).Follows
      (operations.foldl (fun past op => past ++ op.changes past) past) := by
    induction operations with
    | nil => exact fun q past h => h
    | cons op rest ih => exact fun q past h => ih _ _ (h.apply op)
  exact h .empty [] ⟨by simp [isEmpty, Query.empty], rfl⟩

end Query

/-! ## Events -/

theorem map_regroupEvents_applyAll (past : List Operation) :
    (Query.empty.applyAll past).regroupEvents.map Event.entry = regroupAccount past := by
  have h := Query.follows_history past
  unfold Query.regroupEvents regroupAccount
  by_cases hended : Change.ended ∈ history past
  · have hempty : ¬(Query.empty.applyAll past).isEmpty := fun hq => h.isEmpty_iff.mp hq hended
    rw [if_neg hempty, if_pos hended, h.length_eq, (Query.streams_applyAll past).clause_eq]
    rfl
  · rw [if_pos (h.isEmpty_iff.mpr hended), if_neg hended]
    rfl

theorem wrap_text_group (steps : Chain .afterPredicate) (closing : Closing) :
    closing.wrap steps.group.text = steps.endedText closing := by
  rw [steps.text_group]
  cases closing with
  | plain => rfl
  | bracketed => rfl

theorem map_flushEvents_group (steps : Chain .afterPredicate) (closing : Closing) :
    (Query.flushEvents steps.group closing).map Event.entry = steps.account closing := by
  have hlength : steps.group.values.length = steps.predicates.length := by
    rw [steps.values_group, List.length_map]
  rw [Query.flushEvents, Chain.account, wrap_text_group, steps.depth_group, hlength]
  by_cases h : steps.opened = steps.closed
  · rw [if_pos h, if_pos (by omega)]
    rfl
  · rw [if_neg h, if_neg (by omega)]
    rfl

theorem map_events_applyAll (past : List Operation) (op : Operation) :
    ((Query.empty.applyAll past).events op).map Event.entry = op.account past := by
  cases op with
  | chain opening steps closing =>
    have hflush := map_flushEvents_group steps closing
    cases opening with
    | regrouped word =>
      rw [Operation.account, ← map_regroupEvents_applyAll, ← hflush]
      exact List.map_append
    | _ => exact hflush
  | abandoned opening steps =>
    cases opening with
    | regrouped word => exact map_regroupEvents_applyAll past
    | _ => rfl
  | regroup => exact map_regroupEvents_applyAll past
  | sort key => rfl
  | limit n => rfl

theorem map_log_applyAll (past operations : List Operation) :
    ((Query.empty.applyAll past).log operations).map Event.entry = account past operations := by
  induction operations generalizing past with
  | nil => rfl
  | cons op rest ih =>
    have hnext : (Query.empty.applyAll past).apply op = Query.empty.applyAll (past ++ [op]) := by
      rw [Query.applyAll, Query.applyAll, List.foldl_append]
      rfl
    rw [Query.log, List.map_append, account, map_events_applyAll, hnext, ih]

/-! ## Values -/

def Event.valueCount? : Event → Option Nat
  | .flushed valueCount _ => some valueCount
  | _ => none

/-- The numbers of values that the flushes among some events tell of. -/
def valueCounts (events : List Event) : List Nat := events.filterMap Event.valueCount?

theorem valueCounts_append (a b : List Event) :
    valueCounts (a ++ b) = valueCounts a ++ valueCounts b := List.filterMap_append

namespace Query

variable (q : Query)

theorem valueCounts_regroupEvents : valueCounts q.regroupEvents = [] := by
  unfold regroupEvents
  by_cases h : q.isEmpty
  · rw [if_pos h]
    rfl
  · rw [if_neg h]
    rfl

theorem valueCounts_beginEvents (opening : Opening) :
    valueCounts (q.beginEvents opening) = [] := by
  cases opening with
  | regrouped word => exact q.valueCounts_regroupEvents
  | _ => rfl

theorem valueCounts_flushEvents (g : Group) (closing : Closing) :
    valueCounts (flushEvents g closing) = [g.values.length] := by
  rw [flushEvents, valueCounts_append]
  by_cases h : g.depth = 0
  · rw [if_pos h]
    rfl
  · rw [if_neg h]
    rfl

theorem sum_valueCounts_events (op : Operation) :
    (valueCounts (q.events op)).sum = op.predicates.length := by
  cases op with
  | chain opening steps closing =>
    rw [events, valueCounts_append, valueCounts_beginEvents, valueCounts_flushEvents,
      steps.values_group, List.length_map]
    rfl
  | abandoned opening steps => exact congrArg List.sum (q.valueCounts_beginEvents opening)
  | regroup => exact congrArg List.sum q.valueCounts_regroupEvents
  | sort key => rfl
  | limit n => rfl

theorem sum_valueCounts_log (operations : List Operation) :
    (valueCounts (q.log operations)).sum = (operations.flatMap Operation.predicates).length := by
  induction operations generalizing q with
  | nil => rfl
  | cons op rest ih =>
    rw [log, valueCounts_append, List.sum_append, sum_valueCounts_events, ih, List.flatMap_cons,
      List.length_append]

end Query

/-- What an observer is told follows from the calls.  The values of all the groups that were flushed
are those of the query. -/
theorem log_eq_account (operations : List Operation) :
    let log := Query.empty.log operations
    log.map Event.entry = account [] operations ∧
      (valueCounts log).sum = (Query.empty.applyAll operations).values.length := by
  intro log
  refine ⟨map_log_applyAll [] operations, ?_⟩
  rw [Query.sum_valueCounts_log, values_applyAll, List.length_map]

end SqlClause
