import SqlClause.Proofs.Layout.Clause
import SqlClause.Query.Operation

/-!
Brackets of a chain and the warning about them.

`Chain.stillOpen?` keeps the account of a reader: a closing bracket takes away one that is open, and
where none is open the account ends.  A group keeps opened less closed brackets alone, so it warns
exactly if the two numbers differ.  A properly nested chain is flushed without a warning.  The other
way round this holds of the chains in which no bracket is closed before it is opened, and of no
others (`nested_iff_silent`).
-/

namespace SqlClause

namespace Chain

def opened : {place : Place} → Chain place → Nat
  | _, .start => 0
  | _, .openBracket c => c.opened + 1
  | _, .predicate c _ => c.opened
  | _, .join c _ => c.opened
  | _, .closeBracket c => c.opened

def closed : {place : Place} → Chain place → Nat
  | _, .start => 0
  | _, .openBracket c => c.closed
  | _, .predicate c _ => c.closed
  | _, .join c _ => c.closed
  | _, .closeBracket c => c.closed + 1

/-- The number of brackets that are open, if each closing bracket found one to close. -/
def stillOpen? : {place : Place} → Chain place → Option Nat
  | _, .start => some 0
  | _, .openBracket c => c.stillOpen?.map (· + 1)
  | _, .predicate c _ => c.stillOpen?
  | _, .join c _ => c.stillOpen?
  | _, .closeBracket c =>
    match c.stillOpen? with
    | some (n + 1) => some n
    | _ => none

/-- Each closing bracket closes an earlier one that is still open, and none is left open. -/
def Nested {place : Place} (c : Chain place) : Prop := c.stillOpen? = some 0

instance {place : Place} (c : Chain place) : Decidable c.Nested :=
  inferInstanceAs (Decidable (_ = _))

theorem stillOpen?_openBracket {c : Chain .beforePredicate} {n : Nat}
    (h : c.openBracket.stillOpen? = some n) : ∃ m, c.stillOpen? = some m ∧ n = m + 1 := by
  obtain ⟨m, hm, rfl⟩ := Option.map_eq_some_iff.mp h
  exact ⟨m, hm, rfl⟩

theorem stillOpen?_closeBracket {c : Chain .afterPredicate} {n : Nat}
    (h : c.closeBracket.stillOpen? = some n) : c.stillOpen? = some (n + 1) := by
  unfold stillOpen? at h
  split at h
  · next m hm =>
    cases h
    exact hm
  · cases h

theorem opened_eq_closed_add {place : Place} {c : Chain place} {n : Nat}
    (h : c.stillOpen? = some n) : c.opened = c.closed + n := by
  induction c generalizing n with
  | start => cases h; rfl
  | openBracket c ih =>
    obtain ⟨m, hm, rfl⟩ := stillOpen?_openBracket h
    have hc := ih hm
    show c.opened + 1 = c.closed + (m + 1)
    omega
  | predicate c p ih => exact ih h
  | join c word ih => exact ih h
  | closeBracket c ih =>
    have hc := ih (stillOpen?_closeBracket h)
    show c.opened = c.closed + 1 + n
    omega

/-- The group of a chain counts the brackets that wait as soon as they stand before a predicate. -/
theorem depth_add_pendingOpen {place : Place} (c : Chain place) :
    c.group.depth + c.group.pendingOpen = c.opened - c.closed := by
  induction c with
  | start => rfl
  | openBracket c ih =>
    show c.group.depth + ((c.group.pendingOpen + 1 : Nat) : Int)
      = ((c.opened + 1 : Nat) : Int) - c.closed
    omega
  | predicate c p ih =>
    show c.group.depth + c.group.pendingOpen + ((0 : Nat) : Int) = c.opened - c.closed
    omega
  | join c word ih => exact ih
  | closeBracket c ih =>
    show c.group.depth - 1 + c.group.pendingOpen = c.opened - ((c.closed + 1 : Nat) : Int)
    omega

theorem pendingOpen_group (c : Chain .afterPredicate) : c.group.pendingOpen = 0 := by
  have h := (c.groupIn_after .marked 0).2
  rwa [groupIn_marked] at h

theorem depth_group (c : Chain .afterPredicate) : c.group.depth = c.opened - c.closed := by
  have h := c.depth_add_pendingOpen
  rw [c.pendingOpen_group] at h
  omega

end Chain

namespace Query

theorem unbalanced_not_mem_beginEvents (q : Query) (opening : Opening) (depth : Int)
    (clause : String) : Event.unbalanced depth clause ∉ q.beginEvents opening := by
  cases opening with
  | regrouped word =>
    show _ ∉ q.regroupEvents
    unfold regroupEvents
    by_cases h : q.isEmpty
    · rw [if_pos h]
      exact List.not_mem_nil
    · rw [if_neg h, List.mem_singleton]
      exact fun h => by cases h
  | _ => exact List.not_mem_nil

theorem unbalanced_mem_flushEvents (g : Group) (closing : Closing) :
    (∃ depth clause, Event.unbalanced depth clause ∈ flushEvents g closing) ↔ g.depth ≠ 0 := by
  unfold flushEvents
  by_cases h : g.depth = 0
  · simp [h]
  · simp [h]

end Query

/-- Nobody is told of wrong brackets. -/
def Silent (events : List Event) : Prop :=
  ¬∃ depth clause, Event.unbalanced depth clause ∈ events

theorem silent_chain_iff (q : Query) (opening : Opening) (steps : Chain .afterPredicate)
    (closing : Closing) :
    Silent (q.events (.chain opening steps closing)) ↔ steps.opened = steps.closed := by
  have hmem : (∃ depth clause,
        Event.unbalanced depth clause ∈ q.events (.chain opening steps closing))
      ↔ ∃ depth clause, Event.unbalanced depth clause ∈ Query.flushEvents steps.group closing := by
    simp only [Query.events, List.mem_append, q.unbalanced_not_mem_beginEvents, false_or]
  rw [Silent, hmem, Query.unbalanced_mem_flushEvents, not_not, steps.depth_group]
  omega

/-- There is no warning exactly if as many brackets are closed as opened.  So a chain is properly
nested if there is none and no bracket was closed before it was opened. -/
theorem nested_iff_silent (q : Query) (opening : Opening) (steps : Chain .afterPredicate)
    (closing : Closing) :
    let events := q.events (.chain opening steps closing)
    (Silent events ↔ steps.opened = steps.closed) ∧
      (steps.Nested ↔ Silent events ∧ steps.stillOpen?.isSome) ∧
      ((Silent events → steps.Nested) ↔ (steps.opened = steps.closed → steps.stillOpen?.isSome)) := by
  intro events
  have hsilent : Silent events ↔ steps.opened = steps.closed :=
    silent_chain_iff q opening steps closing
  have hnested : steps.Nested ↔ Silent events ∧ steps.stillOpen?.isSome := by
    rw [hsilent]
    constructor
    · intro h
      have hopened := Chain.opened_eq_closed_add h
      exact ⟨hopened, by rw [h]; rfl⟩
    · rintro ⟨heq, hsome⟩
      obtain ⟨n, hn⟩ := Option.isSome_iff_exists.mp hsome
      have hopened := Chain.opened_eq_closed_add hn
      obtain rfl : n = 0 := by omega
      exact hn
  refine ⟨hsilent, hnested, ?_⟩
  rw [hnested, hsilent]
  exact ⟨fun h heq => (h heq).2, fun h heq => ⟨heq, h heq⟩⟩

/-- A bracket closed after the first predicate and one opened before the second. -/
def crossedChain : Chain .afterPredicate :=
  .predicate (.openBracket (.join (.closeBracket (.predicate .start ⟨⟨"a"⟩, .eq, .null⟩)) .and))
    ⟨⟨"b"⟩, .eq, .null⟩

/-- With brackets around it, its text even looks right. -/
theorem crossedChain_silent :
    ¬crossedChain.Nested ∧
      Silent (Query.empty.events (.chain .bare crossedChain .plain)) ∧
      Silent (Query.empty.events (.chain .bare crossedChain .bracketed)) ∧
      crossedChain.group.text = "a = ?) AND (b = ?" := by
  refine ⟨by decide, ?_, ?_, by decide⟩
  · exact (silent_chain_iff _ _ _ _).mpr rfl
  · exact (silent_chain_iff _ _ _ _).mpr rfl

end SqlClause
