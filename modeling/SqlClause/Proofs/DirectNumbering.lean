import SqlClause.Proofs.Layout.Scan

/-!
Numbering a finished clause and numbering while it is built.

With `Rendering.numbered` a predicate is written with the numbers of its params at once, from the
count of params so far.  A list that is tested for membership is written out item by item, and an
empty one as a test that never or always holds.  Building a clause like this gives the clause and
the params that numbering the marked clause gives (`numbered_eq_direct`).  A scan cannot tell the
end of a column from a word of its own, so a column that ends in `NOT` must not be tested for
membership of an empty list.
-/

namespace SqlClause

open Placeholder

/-! ## Numbered predicates -/

namespace Predicate

/-- A list that is tested for membership gives its items. -/
def params (p : Predicate) : List Value :=
  match p.operator.isMembership, p.operand with
  | true, .list items => items
  | _, _ => [p.bound]

/-- The predicate with a text in place of its question mark. -/
def around (p : Predicate) (text : String) : String :=
  p.column.text ++ " " ++ p.operator.sign
    ++ if p.operator.isMembership then " (" ++ text ++ ")" else " " ++ text

/-- The predicate with the numbers of its params, `bound` others being bound before. -/
def numberedText (bound : Nat) (p : Predicate) : String :=
  match p.operator.isMembership, p.operand with
  | true, .list [] =>
    if p.operator = .notIn then p.column.text ++ " <> ALL('\x7b\x7d')" else p.around "NULL"
  | true, .list items => p.around (dollars (bound + 1) items.length)
  | _, _ => p.around (dollar (bound + 1))

theorem toList_around (p : Predicate) (text : String) :
    (p.around text).toList = p.front ++ text.toList ++ p.operator.trail := by
  unfold around front Operator.lead Operator.trail
  cases p.operator.isMembership <;> simp

/-- What a predicate must be like for a scan to see it as it is. -/
structure Numberable (p : Predicate) : Prop where
  even : p.column.EvenQuotes
  unmarked : count p.column.text = 0
  not_negated : p.operator = .isIn → p.operand = .list [] →
    ¬['N', 'O', 'T'] <:+ p.column.text.toList

end Predicate

def Rendering.numbered : Rendering where
  text := Predicate.numberedText
  values := Predicate.params

namespace Placeholder.Draft

/-- Text can begin behind what is written. -/
def Opens (d : Draft) : Prop := ∀ c ∈ d.written.head?, c = ' ' ∨ c = '('

theorem addPredicate_eq_around {d : Draft} {p : Predicate} {filled : List Slot} {text : String}
    (h : filling (d.write p.front).written.reverse p.operator.trail p.bound = .slots filled)
    (hrender : Slot.render d.next filled = text.toList) :
    d.addPredicate p = d.append (p.around text).toList (Slot.params filled) := by
  have hput : (d.write p.front).put filled
      = d.append (p.front ++ text.toList) (Slot.params filled) := by
    rw [put_eq_append, ← hrender]
    exact d.append_append p.front _ [] _
  rw [addPredicate_of_slots h, hput, Predicate.toList_around]
  exact (d.append_append _ p.operator.trail _ []).trans (by rw [List.append_nil])

theorem addPredicate_eq_always {d : Draft} {p : Predicate} (hop : p.operator = .notIn)
    (h : filling (d.write p.front).written.reverse p.operator.trail p.bound = .always) :
    d.addPredicate p = d.append (p.column.text ++ " <> ALL('\x7b\x7d')").toList [] := by
  have hfront : p.front = (p.column.text.toList ++ [' ']) ++ notIn := by
    rw [Predicate.front, hop, List.append_assoc]
    rfl
  rw [addPredicate_of_always h, hfront, settle_always, String.toList_append, List.append_assoc]
  rfl

/-- The column is sealed off from what stands before it, so a `NOT` would be its own. -/
theorem not_notIn_suffix {d : Draft} {p : Predicate} (hopen : d.Opens)
    (hop : p.operator = .isIn) (hcol : ¬['N', 'O', 'T'] <:+ p.column.text.toList) :
    ¬notIn <:+ (d.write p.front).written.reverse := by
  intro h
  have hlead : p.operator.lead = [' ', 'I', 'N', ' ', '('] := by
    rw [hop]
    rfl
  have hnotIn : notIn = ['N', 'O', 'T'] ++ [' ', 'I', 'N', ' ', '('] := rfl
  rw [reverse_written_front, hlead, hnotIn, List.suffix_append_self_iff] at h
  refine hcol (suffix_of_suffix_append h ?_)
  intro c hc
  rw [List.getLast?_reverse] at hc
  rcases hopen c hc with rfl | rfl <;> decide

/-- Wherever a predicate may begin, the scan leaves of it what the rendering writes. -/
def Leaves (r : Rendering) (p : Predicate) : Prop :=
  ∀ (d : Draft) (bound : Nat), d.Opens → d.next = bound + 1 →
    d.addPredicate p = d.append (r.text bound p).toList (r.values p)

theorem leaves_numbered {p : Predicate}
    (hneg : p.operator = .isIn → p.operand = .list [] → ¬['N', 'O', 'T'] <:+ p.column.text.toList) :
    Leaves .numbered p := by
  intro d bound hopen hnext
  show _ = d.append (p.numberedText bound).toList p.params
  have hdollar : Slot.render d.next [.param p.bound] = (dollar (bound + 1)).toList := by
    rw [hnext, Slot.render_param]
  unfold Predicate.numberedText Predicate.params
  cases hm : p.operator.isMembership with
  | false =>
    refine addPredicate_eq_around ?_ hdollar
    rw [reverse_written_front, Predicate.filling_of_comparison hm]
  | true =>
    have hfill := filling_of_operand hm d
    cases ho : p.operand with
    | list items =>
      rw [ho] at hfill
      cases items with
      | nil =>
        show _ = d.append (if p.operator = .notIn then _ else _ : String).toList []
        rcases p.operator.isMembership_iff.mp hm with hop | hop
        · have hsuffix := not_notIn_suffix hopen hop (hneg hop ho)
          rw [if_neg (by rw [hop]; decide)]
          exact addPredicate_eq_around (hfill.trans (if_neg hsuffix)) (Slot.render_chars _ _)
        · have hsuffix : notIn <:+ (d.write p.front).written.reverse := by
            rw [reverse_written_front, hop]
            exact List.suffix_append_of_suffix (List.suffix_append [' '] notIn)
          rw [if_pos hop]
          exact addPredicate_eq_always hop (hfill.trans (if_pos hsuffix))
      | cons v items =>
        have hrender := Slot.render_items d.next (v :: items)
        rw [addPredicate_eq_around hfill hrender, Slot.params_items, hnext]
    | _ =>
      rw [ho] at hfill
      exact addPredicate_eq_around hfill hdollar

theorem addPiece_eq_append {r : Rendering} {d : Draft} {a : Piece}
    (hp : ∀ p ∈ a.predicate?, Leaves r p) (hopen : a.predicate?.isSome → d.Opens) {bound : Nat}
    (hnext : d.next = bound + 1) : d.addPiece a = d.append (a.text r bound) (a.values r) := by
  cases a with
  | predicate p => exact hp p rfl d bound (hopen rfl) hnext
  | _ => rfl

theorem opens_append {a : Piece} (h : a.Opens) (d : Draft) (r : Rendering) (bound : Nat)
    (params : List Value) : (d.append (a.text r bound) params).Opens := by
  intro c hc
  cases a with
  | openBracket => cases hc; exact .inr rfl
  | blank => cases hc; exact .inl rfl
  | _ => cases h

/-- The scan of a whole layout, by induction on its pieces.  The draft opens before each predicate,
since the piece before it does. -/
theorem foldl_addPiece_of_leaves {r : Rendering} {l : List Piece} (hsep : Layout.Separated l)
    (hp : ∀ p ∈ Layout.predicates l, Leaves r p) {d : Draft} {bound : Nat}
    (hopen : ∀ a ∈ l.head?, a.predicate?.isSome → d.Opens) (hnext : d.next = bound + 1) :
    l.foldl addPiece d = d.append (Layout.text r bound l) (Layout.values r l) := by
  induction l generalizing d bound with
  | nil => rfl
  | cons a l ih =>
    obtain ⟨hlead, hsep⟩ := List.isChain_cons.mp hsep
    obtain ⟨hfirst, hrest⟩ := Layout.forall_predicates_cons.mp hp
    have hpiece := addPiece_eq_append hfirst (hopen a rfl) hnext
    have hopens : ∀ b ∈ l.head?, b.predicate?.isSome →
        (d.append (a.text r bound) (a.values r)).Opens :=
      fun b hb hpred => opens_append (hlead b hb (Piece.worded_of_predicate? hpred)) d _ _ _
    have hnext' : d.next + (a.values r).length = bound + (a.values r).length + 1 := by omega
    rw [List.foldl_cons, hpiece, ih hsep hrest hopens hnext', append_append]
    rfl

theorem foldl_addPiece {l : List Piece} (hsep : Layout.Separated l)
    (hp : ∀ p ∈ Layout.predicates l, p.Numberable) {d : Draft} {bound : Nat}
    (hopen : ∀ a ∈ l.head?, a.predicate?.isSome → d.Opens) (hnext : d.next = bound + 1) :
    l.foldl addPiece d = d.append (Layout.text .numbered bound l) (Layout.values .numbered l) :=
  foldl_addPiece_of_leaves hsep (fun p h => leaves_numbered (hp p h).not_negated) hopen hnext

end Placeholder.Draft

/-! ## Runs -/

theorem numbered_eq_direct (operations : List Operation)
    (h : ∀ p ∈ operations.flatMap Operation.predicates, p.Numberable) :
    let direct := Query.empty.applyAllIn .numbered operations
    (Query.empty.applyAll operations).numbered = .ok ⟨direct.clause, direct.values⟩ := by
  intro direct
  have hshows := Query.shows_applyAllIn .numbered operations
  have hopen : (⟨[], [], 0 + 1⟩ : Draft).Opens := fun c hc => by cases hc
  have hscan := Draft.foldl_addPiece (separated_layout operations) (by rwa [predicates_layout])
    (fun _ _ _ => hopen) rfl
  rw [numbered_applyAll (fun p hp => (h p hp).even) (fun p hp => (h p hp).unmarked), hscan,
    ← hshows.clause_eq, ← hshows.values_eq]
  simp [Draft.append, direct]

def regroupedRun : List Operation :=
  [.chain .bare
      (.closeBracket (.predicate (.join (.predicate (.openBracket .start)
        ⟨⟨"a"⟩, .isIn, .list [.bool true, .null]⟩) .or) ⟨⟨"b IS NOT"⟩, .eq, .list []⟩)) .plain,
    .abandoned (.regrouped .or) .start,
    .chain (.joined .and)
      (.predicate .start ⟨⟨"concat_ws('?', c)"⟩, .notIn, .list []⟩) .bracketed,
    .regroup,
    .chain (.regrouped .or) (.predicate .start ⟨⟨"d"⟩, .isIn, .list []⟩) .plain]

theorem numbered_eq_direct_regroupedRun :
    (∀ p ∈ regroupedRun.flatMap Operation.predicates, p.Numberable) ∧
      (Query.empty.applyAll regroupedRun).numbered
        = .ok ⟨"((((a IN ($1, $2) OR b IS NOT = $3)) OR AND "
            ++ "(concat_ws('?', c) <> ALL('\x7b\x7d')))) OR d IN (NULL)",
          [.bool true, .null, .list []]⟩ := by
  have hcolumns : ∀ p ∈ regroupedRun.flatMap Operation.predicates,
      p.column.EvenQuotes ∧ count p.column.text = 0 ∧
        (p.operator = .isIn → ¬['N', 'O', 'T'] <:+ p.column.text.toList) := by
    decide
  have h : ∀ p ∈ regroupedRun.flatMap Operation.predicates, p.Numberable :=
    fun p hp => ⟨(hcolumns p hp).1, (hcolumns p hp).2.1, fun hin _ => (hcolumns p hp).2.2 hin⟩
  exact ⟨h, numbered_eq_direct regroupedRun h⟩

end SqlClause
