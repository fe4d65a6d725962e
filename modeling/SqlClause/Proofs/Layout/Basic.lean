import Mathlib.Data.List.Chain
import SqlClause.Query.Operation

/-!
The layout of a clause: its brackets, blanks, connectives and predicates in a row.

`layout` follows the calls one at a time and never looks at text.  Each call puts its pieces at the
end of what is there, a regrouping puts brackets around it, and a chain that is given up adds
nothing but its connective.  The predicates of a layout are those of the ended chains
(`predicates_layout`).  Each of them, and each connective, begins the clause or stands right behind
an opening bracket or a blank (`separated_layout`).
-/

namespace SqlClause

inductive Piece where
  | openBracket
  | closeBracket
  | blank
  | word (w : Connective)
  | predicate (p : Predicate)

namespace Piece

def predicate? : Piece → Option Predicate
  | predicate p => some p
  | _ => none

/-- Text can begin behind the piece. -/
def Opens : Piece → Prop
  | openBracket | blank => True
  | _ => False

/-- The piece begins with text of its own. -/
def Worded : Piece → Prop
  | word _ | predicate _ => True
  | _ => False

theorem worded_of_predicate? {a : Piece} (h : a.predicate?.isSome) : a.Worded := by
  cases a with
  | predicate p => trivial
  | _ => cases h

end Piece

namespace Chain

def layout : {place : Place} → Chain place → List Piece
  | _, .start => []
  | _, .openBracket c => c.layout ++ [.openBracket]
  | _, .predicate c p => c.layout ++ [.predicate p]
  | _, .join c word => c.layout ++ [.blank, .word word, .blank]
  | _, .closeBracket c => c.layout ++ [.closeBracket]

end Chain

namespace Layout

def predicates (l : List Piece) : List Predicate := l.filterMap Piece.predicate?

def bracketed (l : List Piece) : List Piece := .openBracket :: (l ++ [.closeBracket])

def regroup (l : List Piece) : List Piece := if l.isEmpty then [] else bracketed l

def pushWord (l : List Piece) (word : Connective) : List Piece :=
  if l.isEmpty then [] else l ++ [.blank, .word word]

def begin (l : List Piece) : Opening → List Piece
  | .bare => l
  | .joined word => pushWord l word
  | .regrouped word => pushWord (regroup l) word

def wrap (group : List Piece) : Closing → List Piece
  | .plain => group
  | .bracketed => bracketed group

def flush (l group : List Piece) : List Piece :=
  if l.isEmpty then group else l ++ .blank :: group

def apply (l : List Piece) : Operation → List Piece
  | .chain opening steps closing => flush (begin l opening) (wrap steps.layout closing)
  | .abandoned opening _ => begin l opening
  | .regroup => regroup l
  | .sort _ => l
  | .limit _ => l

end Layout

def layout (operations : List Operation) : List Piece := operations.foldl Layout.apply []

/-! ## Predicates -/

/-- A chain that is given up has none. -/
def Operation.predicates : Operation → List Predicate
  | .chain _ steps _ => steps.predicates
  | _ => []

namespace Layout

theorem forall_predicates_cons {P : Predicate → Prop} {a : Piece} {l : List Piece} :
    (∀ p ∈ predicates (a :: l), P p) ↔
      (∀ p ∈ a.predicate?, P p) ∧ ∀ p ∈ predicates l, P p := by
  cases a <;> simp [predicates, Piece.predicate?]

theorem predicates_append (a b : List Piece) :
    predicates (a ++ b) = predicates a ++ predicates b := List.filterMap_append

theorem predicates_chain {place : Place} (c : Chain place) :
    predicates c.layout = c.predicates := by
  induction c with
  | start => rfl
  | openBracket c ih => rw [Chain.layout, predicates_append, ih]; exact List.append_nil _
  | predicate c p ih => rw [Chain.layout, predicates_append, ih]; rfl
  | join c word ih => rw [Chain.layout, predicates_append, ih]; exact List.append_nil _
  | closeBracket c ih => rw [Chain.layout, predicates_append, ih]; exact List.append_nil _

theorem predicates_bracketed (l : List Piece) : predicates (bracketed l) = predicates l := by
  show predicates (l ++ [.closeBracket]) = _
  rw [predicates_append]
  exact List.append_nil _

theorem predicates_wrap (group : List Piece) (closing : Closing) :
    predicates (wrap group closing) = predicates group := by
  cases closing with
  | plain => rfl
  | bracketed => exact predicates_bracketed group

theorem predicates_regroup (l : List Piece) : predicates (regroup l) = predicates l := by
  unfold regroup
  cases l with
  | nil => rfl
  | cons a l => exact predicates_bracketed (a :: l)

theorem predicates_pushWord (l : List Piece) (word : Connective) :
    predicates (pushWord l word) = predicates l := by
  unfold pushWord
  cases l with
  | nil => rfl
  | cons a l =>
    show predicates ((a :: l) ++ _) = _
    rw [predicates_append]
    exact List.append_nil _

theorem predicates_begin (l : List Piece) (opening : Opening) :
    predicates (begin l opening) = predicates l := by
  cases opening with
  | bare => rfl
  | joined word => exact predicates_pushWord l word
  | regrouped word => exact (predicates_pushWord (regroup l) word).trans (predicates_regroup l)

theorem predicates_flush (l group : List Piece) :
    predicates (flush l group) = predicates l ++ predicates group := by
  unfold flush
  cases l with
  | nil => rfl
  | cons a l => exact predicates_append (a :: l) (.blank :: group)

theorem predicates_apply (l : List Piece) (op : Operation) :
    predicates (apply l op) = predicates l ++ op.predicates := by
  cases op with
  | chain opening steps closing =>
    rw [apply, predicates_flush, predicates_begin, predicates_wrap, predicates_chain]
    rfl
  | abandoned opening steps => exact (predicates_begin l opening).trans (List.append_nil _).symm
  | regroup => exact (predicates_regroup l).trans (List.append_nil _).symm
  | sort key => exact (List.append_nil _).symm
  | limit n => exact (List.append_nil _).symm

end Layout

/-- The predicates of a layout are those of the ended chains in the order of the calls. -/
theorem predicates_layout (operations : List Operation) :
    Layout.predicates (layout operations) = operations.flatMap Operation.predicates := by
  have h : ∀ l, Layout.predicates (operations.foldl Layout.apply l)
      = Layout.predicates l ++ operations.flatMap Operation.predicates := by
    induction operations with
    | nil => intro l; exact (List.append_nil _).symm
    | cons op rest ih =>
      intro l
      rw [List.foldl_cons, ih, Layout.predicates_apply, List.flatMap_cons, List.append_assoc]
  exact h []

/-! ## What stands before a word -/

/-- A piece with text of its own may follow only where text can begin. -/
def Piece.Leads (a b : Piece) : Prop := b.Worded → a.Opens

namespace Layout

def Separated (l : List Piece) : Prop := l.IsChain Piece.Leads

theorem Separated.append {a b : List Piece} {x : Piece} (ha : Separated a)
    (hb : Separated (x :: b)) (hx : ¬x.Worded) : Separated (a ++ x :: b) := by
  refine List.isChain_append.mpr ⟨ha, hb, fun _ _ y hy hworded => ?_⟩
  cases hy
  exact (hx hworded).elim

theorem Separated.cons {a : Piece} {l : List Piece} (ha : a.Opens) (hl : Separated l) :
    Separated (a :: l) :=
  List.isChain_cons.mpr ⟨fun _ _ _ => ha, hl⟩

theorem Separated.bracketed {l : List Piece} (hl : Separated l) : Separated (bracketed l) :=
  Separated.cons trivial (hl.append (List.isChain_singleton _) id)

theorem separated_word (word : Connective) : Separated [.blank, .word word] :=
  Separated.cons trivial (List.isChain_singleton _)

theorem opens_of_chain (c : Chain .beforePredicate) : ∀ a ∈ c.layout.getLast?, a.Opens := by
  intro a ha
  cases c with
  | start => cases ha
  | openBracket c =>
    rw [Chain.layout, List.getLast?_append] at ha
    cases ha
    trivial
  | join c word =>
    rw [Chain.layout, List.getLast?_append] at ha
    cases ha
    trivial

theorem separated_chain {place : Place} (c : Chain place) : Separated c.layout := by
  induction c with
  | start => exact List.isChain_nil
  | openBracket c ih => exact ih.append (List.isChain_singleton _) id
  | predicate c p ih =>
    refine List.isChain_append.mpr ⟨ih, List.isChain_singleton _, ?_⟩
    intro x hx y _ _
    exact opens_of_chain c x hx
  | join c word ih =>
    exact ih.append ((separated_word word).append (List.isChain_singleton Piece.blank) id) id
  | closeBracket c ih => exact ih.append (List.isChain_singleton _) id

theorem Separated.regroup {l : List Piece} (hl : Separated l) : Separated (regroup l) := by
  unfold Layout.regroup
  cases l with
  | nil => exact List.isChain_nil
  | cons a l => exact hl.bracketed

theorem Separated.pushWord {l : List Piece} (hl : Separated l) (word : Connective) :
    Separated (pushWord l word) := by
  unfold Layout.pushWord
  cases l with
  | nil => exact List.isChain_nil
  | cons a l => exact hl.append (separated_word word) id

theorem Separated.begin {l : List Piece} (hl : Separated l) (opening : Opening) :
    Separated (begin l opening) := by
  cases opening with
  | bare => exact hl
  | joined word => exact hl.pushWord word
  | regrouped word => exact hl.regroup.pushWord word

theorem Separated.wrap {group : List Piece} (hg : Separated group) (closing : Closing) :
    Separated (wrap group closing) := by
  cases closing with
  | plain => exact hg
  | bracketed => exact hg.bracketed

theorem Separated.flush {l group : List Piece} (hl : Separated l) (hg : Separated group) :
    Separated (flush l group) := by
  unfold Layout.flush
  cases l with
  | nil => exact hg
  | cons a l => exact hl.append (hg.cons trivial) id

theorem Separated.apply {l : List Piece} (hl : Separated l) (op : Operation) :
    Separated (apply l op) := by
  cases op with
  | chain opening steps closing =>
    exact (hl.begin opening).flush ((separated_chain steps).wrap closing)
  | abandoned opening steps => exact hl.begin opening
  | regroup => exact hl.regroup
  | sort key => exact hl
  | limit n => exact hl

end Layout

theorem separated_layout (operations : List Operation) :
    Layout.Separated (layout operations) := by
  have h : ∀ l, Layout.Separated l → Layout.Separated (operations.foldl Layout.apply l) := by
    induction operations with
    | nil => exact fun l hl => hl
    | cons op rest ih => exact fun l hl => ih _ (hl.apply op)
  exact h [] List.isChain_nil

end SqlClause
