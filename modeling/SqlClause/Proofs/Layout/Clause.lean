import SqlClause.Proofs.Layout.Rendering

/-!
The clause of a run is its layout written out, whatever the rendering (`shows_applyAllIn`).  The
brackets that wait for a predicate, the brackets that are put behind a piece and the blanks between
pieces and between groups all come out in the order of the calls.
-/

namespace SqlClause

theorem intercalate_blank_concat (pieces : List String) (last : String) :
    " ".intercalate (pieces ++ [last])
      = (if pieces.isEmpty then "" else " ".intercalate pieces ++ " ") ++ last := by
  cases pieces with
  | nil => simp
  | cons f rest =>
    rw [String.intercalate_append_of_ne_nil (List.cons_ne_nil f rest) (List.cons_ne_nil _ []),
      String.intercalate_singleton]
    rfl

theorem toList_bracketed (text : String) :
    ("(" ++ text ++ ")").toList = '(' :: (text.toList ++ [')']) := by
  rw [String.toList_append, String.toList_append]
  rfl

/-! ## Groups -/

namespace Group

/-- What stands before the next predicate. -/
def lead (g : Group) : List Char :=
  (if g.fragments.isEmpty then [] else g.text.toList ++ [' ']) ++ List.replicate g.pendingOpen '('

theorem text_add (g : Group) (t : String) (values : List Value) :
    (g.add t values).text.toList = g.lead ++ t.toList := by
  show (" ".intercalate (g.fragments ++ [_])).toList = _
  rw [intercalate_blank_concat, lead, text]
  cases g.fragments with
  | nil => simp [openBrackets]
  | cons f rest => simp [openBrackets]

theorem text_addConnective {g : Group} (h : g.fragments ≠ []) (word : Connective) :
    (g.addConnective word).text.toList = g.text.toList ++ ' ' :: word.text.toList := by
  show (" ".intercalate (g.fragments ++ [_])).toList = _
  rw [intercalate_blank_concat, if_neg (by simpa using h)]
  simp [text]

theorem closeLast_ne_nil {fragments : List String} (h : fragments ≠ []) :
    closeLast fragments ≠ [] := by
  cases fragments with
  | nil => exact absurd rfl h
  | cons f rest => cases rest <;> exact List.cons_ne_nil _ _

theorem intercalate_closeLast {fragments : List String} (h : fragments ≠ []) :
    " ".intercalate (closeLast fragments) = " ".intercalate fragments ++ ")" := by
  induction fragments with
  | nil => exact absurd rfl h
  | cons f rest ih =>
    cases rest with
    | nil => simp [closeLast]
    | cons g rest =>
      have hne := List.cons_ne_nil g rest
      rw [closeLast, String.intercalate_cons_of_ne_nil (closeLast_ne_nil hne), ih hne,
        String.intercalate_cons_cons]
      · simp only [String.append_assoc]
      · exact hne

end Group

namespace Chain

variable (r : Rendering) (bound : Nat)

theorem groupIn_after : (c : Chain .afterPredicate) →
    (c.groupIn r bound).fragments ≠ [] ∧ (c.groupIn r bound).pendingOpen = 0
  | .predicate _ _ => ⟨by simp [groupIn, Group.add], rfl⟩
  | .closeBracket c =>
    have h := groupIn_after c
    ⟨Group.closeLast_ne_nil h.1, h.2⟩

theorem values_groupIn {place : Place} (c : Chain place) :
    (c.groupIn r bound).values = Layout.values r c.layout := by
  induction c with
  | start => rfl
  | openBracket c ih => rw [layout, Layout.values_append]; exact ih.trans (List.append_nil _).symm
  | predicate c p ih =>
    rw [layout, Layout.values_append, ← ih]
    exact congrArg ((c.groupIn r bound).values ++ ·) (List.append_nil _).symm
  | join c word ih => rw [layout, Layout.values_append]; exact ih.trans (List.append_nil _).symm
  | closeBracket c ih => rw [layout, Layout.values_append]; exact ih.trans (List.append_nil _).symm

/-- Before a predicate the pieces are what will stand before it, and after one they are the text. -/
theorem text_layout {place : Place} (c : Chain place) :
    Layout.text r bound c.layout
      = match place with
        | .beforePredicate => (c.groupIn r bound).lead
        | .afterPredicate => (c.groupIn r bound).text.toList := by
  induction c with
  | start => rfl
  | openBracket c ih =>
    rw [layout, Layout.text_append, ih]
    show _ ++ ['('] = (if _ then _ else _) ++ List.replicate (_ + 1) '('
    rw [List.replicate_succ', ← List.append_assoc]
    rfl
  | predicate c p ih =>
    rw [layout, Layout.text_append, ih, ← values_groupIn r bound c]
    show _ = ((c.groupIn r bound).add _ _).text.toList
    rw [Group.text_add]
    exact congrArg _ (List.append_nil _)
  | join c word ih =>
    obtain ⟨hne, hpending⟩ := groupIn_after r bound c
    have hlead : ((c.groupIn r bound).addConnective word).lead
        = ((c.groupIn r bound).addConnective word).text.toList ++ [' '] := by
      have hf : ((c.groupIn r bound).addConnective word).fragments.isEmpty = false := by
        simp [Group.addConnective]
      rw [Group.lead, if_neg (by rw [hf]; decide)]
      show _ ++ List.replicate (c.groupIn r bound).pendingOpen '(' = _
      rw [hpending]
      exact List.append_nil _
    rw [layout, Layout.text_append, ih]
    show _ = ((c.groupIn r bound).addConnective word).lead
    rw [hlead, Group.text_addConnective hne, List.append_assoc]
    rfl
  | closeBracket c ih =>
    have hne := (groupIn_after r bound c).1
    have htext : (c.groupIn r bound).closeBracket.text = (c.groupIn r bound).text ++ ")" :=
      Group.intercalate_closeLast hne
    rw [layout, Layout.text_append, ih]
    show _ = (c.groupIn r bound).closeBracket.text.toList
    rw [htext, String.toList_append]
    rfl

theorem toList_text_group (c : Chain .afterPredicate) :
    c.group.text.toList = Layout.text .marked 0 c.layout := by
  have h : Layout.text .marked 0 c.layout = (c.groupIn .marked 0).text.toList :=
    text_layout .marked 0 c
  rw [h, groupIn_marked]

theorem layout_ne_nil (c : Chain .afterPredicate) : c.layout ≠ [] := by
  cases c <;> simp [layout]

end Chain

/-! ## Queries -/

namespace Query

theorem isEmpty_append (q : Query) (last : Fragment) :
    { q with fragments := q.fragments ++ [last] }.isEmpty = false := by
  show (q.fragments ++ [last]).isEmpty = false
  simp

theorem clause_of_isEmpty {q : Query} (h : q.isEmpty) : q.clause = "" := by
  rw [clause, List.isEmpty_iff.mp h]
  rfl

/-- A piece comes behind a blank unless it is the first. -/
theorem clause_append (q : Query) (last : Fragment) :
    { q with fragments := q.fragments ++ [last] }.clause
      = (if q.isEmpty then "" else q.clause ++ " ") ++ last.text := by
  show " ".intercalate ((q.fragments ++ [last]).map Fragment.text) = _
  rw [List.map_append, List.map_singleton, intercalate_blank_concat, List.isEmpty_map]
  rfl

theorem clause_concat (q : Query) (last : Fragment) :
    { q with fragments := q.fragments ++ [last] }.clause.toList
      = (if q.isEmpty then [] else q.clause.toList ++ [' ']) ++ last.text.toList := by
  rw [clause_append, String.toList_append]
  cases q.isEmpty with
  | true => rfl
  | false => exact congrArg (· ++ last.text.toList) String.toList_append

/-- A layout of what a query holds. -/
structure Shows (r : Rendering) (q : Query) (l : List Piece) : Prop where
  isEmpty_eq : q.isEmpty = l.isEmpty
  clause_eq : q.clause.toList = Layout.text r 0 l
  values_eq : q.values = Layout.values r l

namespace Shows

variable {r : Rendering} {q : Query} {l : List Piece}

theorem regroup (h : Shows r q l) : Shows r q.regroup (Layout.regroup l) := by
  unfold Query.regroup Layout.regroup
  rw [h.isEmpty_eq]
  cases l with
  | nil => exact h
  | cons a l =>
    refine ⟨rfl, ?_, ?_⟩
    · show ("(" ++ q.clause ++ ")").toList = Layout.text r 0 (Layout.bracketed (a :: l))
      rw [Layout.text_bracketed, ← h.clause_eq, toList_bracketed]
    · exact h.values_eq.trans (Layout.values_congr r (Layout.predicates_bracketed (a :: l)).symm)

theorem pushWord (h : Shows r q l) (word : Connective) :
    Shows r (q.pushWord word) (Layout.pushWord l word) := by
  unfold Query.pushWord Layout.pushWord
  rw [h.isEmpty_eq]
  cases l with
  | nil => exact h
  | cons a l =>
    have hq : q.isEmpty = false := h.isEmpty_eq
    refine ⟨?_, ?_, ?_⟩
    · exact q.isEmpty_append (.word word)
    · show { q with fragments := q.fragments ++ [Fragment.word word] }.clause.toList
          = Layout.text r 0 (_ ++ _)
      rw [clause_concat, hq, Layout.text_append, ← h.clause_eq]
      show (q.clause.toList ++ [' ']) ++ _ = q.clause.toList ++ ' ' :: (word.text.toList ++ [])
      rw [List.append_assoc, List.append_nil]
      rfl
    · show q.values = Layout.values r (_ ++ _)
      rw [Layout.values_append, h.values_eq]
      exact (List.append_nil _).symm

theorem begin (h : Shows r q l) (opening : Opening) :
    Shows r (q.begin opening) (Layout.begin l opening) := by
  cases opening with
  | bare => exact h
  | joined word => exact h.pushWord word
  | regrouped word => exact h.regroup.pushWord word

/-- The group of an ended chain was built when the values of the query were bound. -/
theorem flush (h : Shows r q l) {g : Group} {group : List Piece} (closing : Closing)
    (hne : group ≠ []) (htext : g.text.toList = Layout.text r q.values.length group)
    (hvalues : g.values = Layout.values r group) :
    Shows r (q.flush g closing) (Layout.flush l (Layout.wrap group closing)) := by
  have hwrap : (closing.wrap g.text).toList
      = Layout.text r q.values.length (Layout.wrap group closing) := by
    cases closing with
    | plain => exact htext
    | bracketed =>
      show ("(" ++ g.text ++ ")").toList = Layout.text r _ (Layout.bracketed group)
      rw [Layout.text_bracketed, ← htext, toList_bracketed]
  refine ⟨?_, ?_, ?_⟩
  · have hflush := Layout.flush_ne_nil l (Layout.wrap_ne_nil hne closing)
    rw [List.isEmpty_eq_false_iff.mpr hflush]
    exact q.isEmpty_append (.group (closing.wrap g.text))
  · rw [Layout.text_flush, ← h.isEmpty_eq, ← h.clause_eq, ← h.values_eq, ← hwrap]
    exact clause_concat q (.group (closing.wrap g.text))
  · show q.values ++ g.values = _
    rw [Layout.values_flush, ← h.values_eq, hvalues]
    exact congrArg _ (Layout.values_congr r (Layout.predicates_wrap group closing).symm)

theorem apply (h : Shows r q l) (op : Operation) :
    Shows r (q.applyIn r op) (Layout.apply l op) := by
  cases op with
  | chain opening steps closing =>
    have hbegin := h.begin opening
    have hlength : (q.begin opening).values.length = q.values.length := by
      rw [hbegin.values_eq, h.values_eq, Layout.values_congr r (Layout.predicates_begin l opening)]
    refine hbegin.flush closing steps.layout_ne_nil ?_ (Chain.values_groupIn r _ steps)
    rw [hlength]
    exact (Chain.text_layout r _ steps).symm
  | abandoned opening steps => exact h.begin opening
  | regroup => exact h.regroup
  | sort key => exact ⟨h.isEmpty_eq, h.clause_eq, h.values_eq⟩
  | limit n => exact ⟨h.isEmpty_eq, h.clause_eq, h.values_eq⟩

end Shows

theorem shows_applyAllIn (r : Rendering) (operations : List Operation) :
    Shows r (Query.empty.applyAllIn r operations) (layout operations) := by
  have h : ∀ q l, Shows r q l →
      Shows r (q.applyAllIn r operations) (operations.foldl Layout.apply l) := by
    induction operations with
    | nil => exact fun q l h => h
    | cons op rest ih => exact fun q l h => ih _ _ (h.apply op)
  exact h .empty [] ⟨rfl, rfl, rfl⟩

end Query

end SqlClause
