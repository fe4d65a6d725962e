import SqlClause.Proofs.Layout.Basic

/-!
Predicates put in the places of predicates.

A layout is put together without a look at the predicates in it, so a run with other predicates in
the same places has the same layout with those predicates in their places (`layout_map`).
-/

namespace SqlClause

variable (f : Predicate → Predicate)

def Chain.map : {place : Place} → Chain place → Chain place
  | _, .start => .start
  | _, .openBracket c => .openBracket c.map
  | _, .predicate c p => .predicate c.map (f p)
  | _, .join c word => .join c.map word
  | _, .closeBracket c => .closeBracket c.map

def Operation.map : Operation → Operation
  | .chain opening steps closing => .chain opening (steps.map f) closing
  | .abandoned opening steps => .abandoned opening (steps.map f)
  | .regroup => .regroup
  | .sort key => .sort key
  | .limit n => .limit n

def Piece.map : Piece → Piece
  | predicate p => predicate (f p)
  | a => a

theorem Piece.predicate?_map (a : Piece) : (a.map f).predicate? = a.predicate?.map f := by
  cases a <;> rfl

theorem Piece.map_of_none {a : Piece} (h : a.predicate? = none) : a.map f = a := by
  cases a with
  | predicate p => cases h
  | _ => rfl

namespace Layout

theorem map_chain {place : Place} (c : Chain place) :
    (c.map f).layout = c.layout.map (Piece.map f) := by
  induction c with
  | start => rfl
  | openBracket c ih => rw [Chain.map, Chain.layout, Chain.layout, List.map_append, ih]; rfl
  | predicate c p ih => rw [Chain.map, Chain.layout, Chain.layout, List.map_append, ih]; rfl
  | join c word ih => rw [Chain.map, Chain.layout, Chain.layout, List.map_append, ih]; rfl
  | closeBracket c ih => rw [Chain.map, Chain.layout, Chain.layout, List.map_append, ih]; rfl

theorem map_bracketed (l : List Piece) :
    bracketed (l.map (Piece.map f)) = (bracketed l).map (Piece.map f) := by
  show _ = Piece.openBracket :: (l ++ [Piece.closeBracket]).map (Piece.map f)
  rw [List.map_append]
  rfl

theorem map_regroup (l : List Piece) :
    regroup (l.map (Piece.map f)) = (regroup l).map (Piece.map f) := by
  cases l with
  | nil => rfl
  | cons a l => exact map_bracketed f (a :: l)

theorem map_pushWord (l : List Piece) (word : Connective) :
    pushWord (l.map (Piece.map f)) word = (pushWord l word).map (Piece.map f) := by
  cases l with
  | nil => rfl
  | cons a l =>
    show _ = ((a :: l) ++ [Piece.blank, Piece.word word]).map (Piece.map f)
    rw [List.map_append]
    rfl

theorem map_begin (l : List Piece) (opening : Opening) :
    begin (l.map (Piece.map f)) opening = (begin l opening).map (Piece.map f) := by
  cases opening with
  | bare => rfl
  | joined word => exact map_pushWord f l word
  | regrouped word =>
    show pushWord (regroup _) word = _
    rw [map_regroup, map_pushWord]
    rfl

theorem map_wrap (group : List Piece) (closing : Closing) :
    wrap (group.map (Piece.map f)) closing = (wrap group closing).map (Piece.map f) := by
  cases closing with
  | plain => rfl
  | bracketed => exact map_bracketed f group

theorem map_flush (l group : List Piece) :
    flush (l.map (Piece.map f)) (group.map (Piece.map f))
      = (flush l group).map (Piece.map f) := by
  cases l with
  | nil => rfl
  | cons a l =>
    show _ = ((a :: l) ++ Piece.blank :: group).map (Piece.map f)
    rw [List.map_append]
    rfl

theorem map_apply (l : List Piece) (op : Operation) :
    apply (l.map (Piece.map f)) (op.map f) = (apply l op).map (Piece.map f) := by
  cases op with
  | chain opening steps closing =>
    show flush (begin _ opening) (wrap (steps.map f).layout closing) = _
    rw [map_chain, map_begin, map_wrap, map_flush]
    rfl
  | abandoned opening steps => exact map_begin f l opening
  | regroup => exact map_regroup f l
  | sort key => rfl
  | limit n => rfl

end Layout

theorem layout_map (operations : List Operation) :
    layout (operations.map (Operation.map f)) = (layout operations).map (Piece.map f) := by
  have h : ∀ l, (operations.map (Operation.map f)).foldl Layout.apply (l.map (Piece.map f))
      = (operations.foldl Layout.apply l).map (Piece.map f) := by
    induction operations with
    | nil => exact fun _ => rfl
    | cons op rest ih =>
      intro l
      rw [List.map_cons, List.foldl_cons, Layout.map_apply, ih, List.foldl_cons]
  exact h []

theorem flatMap_predicates_map (operations : List Operation) :
    (operations.map (Operation.map f)).flatMap Operation.predicates
      = (operations.flatMap Operation.predicates).map f := by
  rw [← predicates_layout, ← predicates_layout, layout_map, Layout.predicates, Layout.predicates,
    List.filterMap_map, List.map_filterMap]
  exact List.filterMap_congr fun a _ => a.predicate?_map f

end SqlClause
