import SqlClause.Proofs.Layout.Scan

/-!
A clause as one text that grows with the calls.

`Chain.rendered` puts each call of a chain at the end of a text, and `Stream.apply` does the same
with operations and a clause.  Neither knows of pieces, of brackets that wait, or of blanks between
pieces.  They give the text of a group (`text_group`) and the clause of a run (`clause_eq_stream`).
-/

namespace SqlClause

namespace Chain

/-- Every call writes its own text behind that of the calls before it. -/
def rendered : {place : Place} → Chain place → String
  | _, .start => ""
  | _, .openBracket c => c.rendered ++ "("
  | _, .predicate c p => c.rendered ++ p.text
  | _, .join c .and => c.rendered ++ " AND "
  | _, .join c .or => c.rendered ++ " OR "
  | _, .closeBracket c => c.rendered ++ ")"

theorem rendered_join (c : Chain .afterPredicate) (word : Connective) :
    (c.join word).rendered = c.rendered ++ (" " ++ word.text ++ " ") := by
  cases word with
  | and => rfl
  | or => rfl

theorem toList_rendered (bound : Nat) {place : Place} (c : Chain place) :
    c.rendered.toList = Layout.text .marked bound c.layout := by
  induction c with
  | start => rfl
  | openBracket c ih =>
    rw [rendered, String.toList_append, ih, layout, Layout.text_append]
    rfl
  | predicate c p ih =>
    rw [rendered, String.toList_append, ih, layout, Layout.text_append]
    exact congrArg _ (List.append_nil _).symm
  | join c word ih =>
    rw [rendered_join, String.toList_append, ih, layout, Layout.text_append]
    refine congrArg _ ?_
    rw [String.toList_append, String.toList_append]
    rfl
  | closeBracket c ih =>
    rw [rendered, String.toList_append, ih, layout, Layout.text_append]
    rfl

/-- Brackets that wait and brackets put behind the last piece come out in the order of the calls. -/
theorem text_group (c : Chain .afterPredicate) : c.group.text = c.rendered := by
  refine String.toList_injective ?_
  rw [c.toList_text_group, c.toList_rendered]

theorem mark_mem_rendered : (c : Chain .afterPredicate) → Placeholder.mark ∈ c.rendered.toList
  | .predicate c p => by
    rw [rendered, String.toList_append, p.toList_text]
    simp
  | .closeBracket c => by
    rw [rendered, String.toList_append]
    exact List.mem_append_left _ (mark_mem_rendered c)

theorem rendered_ne_empty (c : Chain .afterPredicate) : c.rendered ≠ "" := by
  intro h
  have hmark := c.mark_mem_rendered
  rw [h] at hmark
  cases hmark

end Chain

namespace Query

variable (q : Query)

theorem isEmpty_regroup : q.regroup.isEmpty = q.isEmpty := by
  unfold regroup
  by_cases h : q.isEmpty
  · rw [if_pos h]
  · rw [if_neg h]
    exact (Bool.eq_false_iff.mpr h).symm

theorem isEmpty_pushWord (word : Connective) : (q.pushWord word).isEmpty = q.isEmpty := by
  unfold pushWord
  by_cases h : q.isEmpty
  · rw [if_pos h]
  · rw [if_neg h, Bool.eq_false_iff.mpr h]
    exact q.isEmpty_append (.word word)

theorem isEmpty_begin (opening : Opening) : (q.begin opening).isEmpty = q.isEmpty := by
  cases opening with
  | bare => rfl
  | joined word => exact q.isEmpty_pushWord word
  | regrouped word => exact (q.regroup.isEmpty_pushWord word).trans q.isEmpty_regroup

theorem clause_regroup :
    q.regroup.clause = if q.isEmpty then "" else "(" ++ q.clause ++ ")" := by
  unfold regroup
  by_cases h : q.isEmpty
  · rw [if_pos h, if_pos h, clause_of_isEmpty h]
  · rw [if_neg h, if_neg h]
    exact String.intercalate_singleton

theorem clause_pushWord (word : Connective) :
    (q.pushWord word).clause = if q.isEmpty then "" else q.clause ++ " " ++ word.text := by
  unfold pushWord
  by_cases h : q.isEmpty
  · rw [if_pos h, if_pos h, clause_of_isEmpty h]
  · rw [if_neg h, if_neg h, clause_append, if_neg h]
    rfl

end Query

/-! ## The reference -/

namespace Stream

def regroup (w : String) : String := if w = "" then w else "(" ++ w ++ ")"

def pushWord (w : String) (word : Connective) : String :=
  if w = "" then w
  else
    match word with
    | .and => w ++ " AND"
    | .or => w ++ " OR"

theorem pushWord_eq (w : String) (word : Connective) :
    pushWord w word = if w = "" then w else w ++ " " ++ word.text := by
  unfold pushWord
  rw [String.append_assoc]
  cases word with
  | and => rfl
  | or => rfl

def begin (w : String) : Opening → String
  | .bare => w
  | .joined word => pushWord w word
  | .regrouped word => pushWord (regroup w) word

def append (w t : String) : String := if w = "" then t else w ++ " " ++ t

/-- A chain that is given up leaves what its start wrote. -/
def apply (w : String) : Operation → String
  | .chain opening steps .plain => append (begin w opening) steps.rendered
  | .chain opening steps .bracketed => append (begin w opening) ("(" ++ steps.rendered ++ ")")
  | .abandoned opening _ => begin w opening
  | .regroup => regroup w
  | .sort _ => w
  | .limit _ => w

end Stream

/-! ## Steps and runs -/

namespace Query

/-- The text is the clause, and looking at it says whether there is anything. -/
structure Streams (q : Query) (w : String) : Prop where
  clause_eq : q.clause = w
  isEmpty_iff : q.isEmpty ↔ w = ""

namespace Streams

variable {q : Query} {w : String}

/-- What is done to a query that holds something only. -/
theorem unless_empty (h : q.Streams w) {r : Query} {t : String} (hempty : r.isEmpty = q.isEmpty)
    (hclause : r.clause = if q.isEmpty then "" else t) (ht : t ≠ "") :
    r.Streams (if w = "" then w else t) := by
  by_cases hw : w = ""
  · rw [if_pos (h.isEmpty_iff.mpr hw)] at hclause
    rw [if_pos hw, hw]
    exact ⟨hclause, by simp [hempty, h.isEmpty_iff, hw]⟩
  · rw [if_neg (mt h.isEmpty_iff.mp hw)] at hclause
    rw [if_neg hw]
    exact ⟨hclause, by simp [hempty, h.isEmpty_iff, hw, ht]⟩

theorem regroup (h : q.Streams w) : q.regroup.Streams (Stream.regroup w) := by
  refine h.unless_empty q.isEmpty_regroup ?_ (by simp)
  rw [q.clause_regroup, h.clause_eq]

theorem pushWord (h : q.Streams w) (word : Connective) :
    (q.pushWord word).Streams (Stream.pushWord w word) := by
  rw [Stream.pushWord_eq]
  refine h.unless_empty (q.isEmpty_pushWord word) ?_ (by simp)
  rw [q.clause_pushWord, h.clause_eq]

theorem begin (h : q.Streams w) (opening : Opening) :
    (q.begin opening).Streams (Stream.begin w opening) := by
  cases opening with
  | bare => exact h
  | joined word => exact h.pushWord word
  | regrouped word => exact h.regroup.pushWord word

theorem flush (h : q.Streams w) {g : Group} {closing : Closing} {t : String}
    (ht : closing.wrap g.text = t) (hne : t ≠ "") :
    (q.flush g closing).Streams (Stream.append w t) := by
  have hclause : (q.flush g closing).clause = (if q.isEmpty then "" else q.clause ++ " ") ++ t := by
    rw [← ht]
    exact q.clause_append (.group (closing.wrap g.text))
  have hempty : (q.flush g closing).isEmpty = false :=
    q.isEmpty_append (.group (closing.wrap g.text))
  unfold Stream.append
  by_cases hw : w = ""
  · rw [if_pos (h.isEmpty_iff.mpr hw), String.empty_append] at hclause
    rw [if_pos hw]
    exact ⟨hclause, by simp [hempty, hne]⟩
  · rw [if_neg (mt h.isEmpty_iff.mp hw), h.clause_eq] at hclause
    rw [if_neg hw]
    exact ⟨hclause, by simp [hempty, hne]⟩

theorem apply (h : q.Streams w) (op : Operation) : (q.apply op).Streams (Stream.apply w op) := by
  cases op with
  | chain opening steps closing =>
    cases closing with
    | plain => exact (h.begin opening).flush steps.text_group steps.rendered_ne_empty
    | bracketed =>
      refine (h.begin opening).flush ?_ (by simp)
      show "(" ++ steps.group.text ++ ")" = _
      rw [steps.text_group]
  | abandoned opening steps => exact h.begin opening
  | regroup => exact h.regroup
  | sort key => exact ⟨h.clause_eq, h.isEmpty_iff⟩
  | limit n => exact ⟨h.clause_eq, h.isEmpty_iff⟩

theorem applyAll (h : q.Streams w) (operations : List Operation) :
    (q.applyAll operations).Streams (operations.foldl Stream.apply w) := by
  induction operations generalizing q w with
  | nil => exact h
  | cons op rest ih => exact ih (h.apply op)

end Streams

theorem streams_applyAll (operations : List Operation) :
    (Query.empty.applyAll operations).Streams (operations.foldl Stream.apply "") :=
  Streams.applyAll ⟨rfl, by decide⟩ operations

end Query

/-- The clause of a run, however it is asked for, is the text that grows with the calls. -/
theorem clause_eq_stream (operations : List Operation) :
    let q := Query.empty.applyAll operations
    let w := operations.foldl Stream.apply ""
    q.clause = w ∧ q.whereClause.1 = w ∧ q.intoWhere.1 = w := by
  intro q w
  have h : q.Streams w := Query.streams_applyAll operations
  exact ⟨h.clause_eq, h.clause_eq, h.clause_eq⟩

end SqlClause
