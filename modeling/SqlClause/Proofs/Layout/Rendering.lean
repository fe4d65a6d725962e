import SqlClause.Proofs.Layout.Basic

/-!
Clauses under any way of writing predicates.

A rendering says what is written for a predicate, given the number of values that are bound before
it, and which values it binds.  The steps of a chain and the operations on a query do not depend on
it, so they can be carried out for any rendering (`Chain.groupIn`, `Query.applyIn`); with marked
predicates they are the operations of the library (`applyAllIn_marked`).  A layout can
be written out under any rendering too (`Layout.text`, `Layout.values`).
-/

namespace SqlClause

structure Rendering where
  text (bound : Nat) (p : Predicate) : String
  values (p : Predicate) : List Value

/-- Each predicate with a question mark for its one value. -/
def Rendering.marked : Rendering where
  text _ p := p.text
  values p := [p.bound]

/-! ## Building -/

namespace Group

def add (g : Group) (text : String) (values : List Value) : Group where
  fragments := g.fragments ++ [openBrackets g.pendingOpen ++ text]
  values := g.values ++ values
  pendingOpen := 0
  depth := g.depth + g.pendingOpen

end Group

namespace Chain

/-- The group of a chain that starts when `bound` values are bound. -/
def groupIn (r : Rendering) (bound : Nat) : {place : Place} → Chain place → Group
  | _, .start => .empty
  | _, .openBracket c => (c.groupIn r bound).openBracket
  | _, .predicate c p =>
    let g := c.groupIn r bound
    g.add (r.text (bound + g.values.length) p) (r.values p)
  | _, .join c word => (c.groupIn r bound).addConnective word
  | _, .closeBracket c => (c.groupIn r bound).closeBracket

theorem groupIn_marked (bound : Nat) {place : Place} (c : Chain place) :
    c.groupIn .marked bound = c.group := by
  induction c with
  | start => rfl
  | openBracket c ih => exact congrArg Group.openBracket ih
  | predicate c p ih =>
    show (c.groupIn .marked bound).add p.text [p.bound] = _
    rw [ih]
    rfl
  | join c word ih => exact congrArg (Group.addConnective · word) ih
  | closeBracket c ih => exact congrArg Group.closeBracket ih

end Chain

namespace Query

def applyIn (r : Rendering) (q : Query) : Operation → Query
  | .chain opening steps closing =>
    (q.begin opening).flush (steps.groupIn r q.values.length) closing
  | .abandoned opening _ => q.begin opening
  | .regroup => q.regroup
  | .sort key => q.addSortKey key
  | .limit limit => q.setLimit limit

def applyAllIn (r : Rendering) (q : Query) (operations : List Operation) : Query :=
  operations.foldl (applyIn r) q

theorem applyAllIn_marked (q : Query) (operations : List Operation) :
    q.applyAllIn .marked operations = q.applyAll operations := by
  have h : applyIn .marked = apply := by
    funext q op
    cases op with
    | chain opening steps closing =>
      show (q.begin opening).flush (steps.groupIn .marked _) closing = _
      rw [Chain.groupIn_marked]
      rfl
    | _ => rfl
  rw [applyAllIn, applyAll, h]

end Query

/-! ## Layouts written out -/

namespace Piece

def text (r : Rendering) (bound : Nat) : Piece → List Char
  | openBracket => ['(']
  | closeBracket => [')']
  | blank => [' ']
  | word w => w.text.toList
  | predicate p => (r.text bound p).toList

def values (r : Rendering) : Piece → List Value
  | predicate p => r.values p
  | _ => []

end Piece

namespace Layout

def values (r : Rendering) (l : List Piece) : List Value := l.flatMap (Piece.values r)

def text (r : Rendering) : Nat → List Piece → List Char
  | _, [] => []
  | bound, a :: l => a.text r bound ++ text r (bound + (a.values r).length) l

variable (r : Rendering)

theorem values_append (a b : List Piece) : values r (a ++ b) = values r a ++ values r b :=
  List.flatMap_append

theorem text_append (bound : Nat) (a b : List Piece) :
    text r bound (a ++ b) = text r bound a ++ text r (bound + (values r a).length) b := by
  induction a generalizing bound with
  | nil => rfl
  | cons p a ih =>
    have hv : values r (p :: a) = p.values r ++ values r a := rfl
    rw [List.cons_append, text, text, ih, hv, List.length_append, List.append_assoc, Nat.add_assoc]

theorem text_bracketed (bound : Nat) (l : List Piece) :
    text r bound (bracketed l) = '(' :: (text r bound l ++ [')']) := by
  show '(' :: text r bound (l ++ [.closeBracket]) = _
  rw [text_append]
  rfl

theorem values_eq_flatMap_predicates (l : List Piece) :
    values r l = (predicates l).flatMap r.values := by
  induction l with
  | nil => rfl
  | cons a l ih =>
    show a.values r ++ values r l = _
    rw [ih]
    cases a <;> rfl

theorem values_congr {a b : List Piece} (h : predicates a = predicates b) :
    values r a = values r b := by
  rw [values_eq_flatMap_predicates, values_eq_flatMap_predicates, h]

theorem values_flush (l group : List Piece) :
    values r (flush l group) = values r l ++ values r group := by
  rw [← values_append]
  exact values_congr r ((predicates_flush l group).trans (predicates_append l group).symm)

/-- A blank stands before a group unless it is the first. -/
theorem text_flush (l group : List Piece) :
    text r 0 (flush l group)
      = (if l.isEmpty then [] else text r 0 l ++ [' ']) ++ text r (values r l).length group := by
  cases l with
  | nil => rfl
  | cons a l =>
    show text r 0 ((a :: l) ++ .blank :: group) = (text r 0 (a :: l) ++ [' ']) ++ _
    rw [text_append]
    show _ ++ ' ' :: text r (0 + (values r (a :: l)).length + 0) group = _
    rw [Nat.zero_add, Nat.add_zero, List.append_assoc]
    rfl

theorem flush_ne_nil (l : List Piece) {group : List Piece} (h : group ≠ []) :
    flush l group ≠ [] := by
  cases l with
  | nil => exact h
  | cons a l => exact List.cons_ne_nil a _

theorem wrap_ne_nil {group : List Piece} (h : group ≠ []) (closing : Closing) :
    wrap group closing ≠ [] := by
  cases closing with
  | plain => exact h
  | bracketed => exact List.cons_ne_nil _ _

end Layout

end SqlClause
