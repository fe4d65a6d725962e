import SqlClause.Proofs.Condition.Token

/-!
Conditions and the grammar of their text.

AND binds tighter than OR and both take the nearest operand to the left first, so the grammar has
three levels.  `Reader` reads symbols once, from left to right, and keeps for each open bracket what
stands before the operand to come.  It accepts exactly what the grammar derives
(`read?_eq_some_iff`), so a text is the text of one condition at most.
-/

namespace SqlClause

inductive Condition where
  | test (t : Test)
  | join (word : Connective) (left right : Condition)
  deriving DecidableEq

/-- The levels of the grammar, loosest first. -/
inductive Level where
  | alternatives
  | conjunction
  | operand

/-- The symbols derive from a level and stand for the condition. -/
inductive Derives : Level → List Symbol → Condition → Prop
  | test (t : Test) : Derives .operand [.test t] (.test t)
  | bracketed {s : List Symbol} {c : Condition} (h : Derives .alternatives s c) :
      Derives .operand (.openBracket :: (s ++ [.closeBracket])) c
  | operand {s : List Symbol} {c : Condition} (h : Derives .operand s c) :
      Derives .conjunction s c
  | and {s t : List Symbol} {a b : Condition} (ha : Derives .conjunction s a)
      (hb : Derives .operand t b) :
      Derives .conjunction (s ++ .connective .and :: t) (.join .and a b)
  | conjunction {s : List Symbol} {c : Condition} (h : Derives .conjunction s c) :
      Derives .alternatives s c
  | or {s t : List Symbol} {a b : Condition} (ha : Derives .alternatives s a)
      (hb : Derives .conjunction t b) :
      Derives .alternatives (s ++ .connective .or :: t) (.join .or a b)

namespace Condition

/-- From left to right. -/
def tests : Condition → List Test
  | test t => [t]
  | join _ a b => a.tests ++ b.tests

/-- A condition behind another one, if there is one. -/
def joinTo (word : Connective) : Option Condition → Condition → Condition
  | none, c => c
  | some a, c => join word a c

end Condition

theorem Derives.tests_eq {level : Level} {s : List Symbol} {c : Condition}
    (h : Derives level s c) : c.tests = s.filterMap Symbol.test? := by
  induction h with
  | test t => rfl
  | bracketed h ih =>
    rw [ih, List.filterMap_cons_none rfl, List.filterMap_append]
    exact (List.append_nil _).symm
  | operand h ih => exact ih
  | and ha hb iha ihb =>
    rw [Condition.tests, iha, ihb, List.filterMap_append, List.filterMap_cons_none rfl]
  | conjunction h ih => exact ih
  | or ha hb iha ihb =>
    rw [Condition.tests, iha, ihb, List.filterMap_append, List.filterMap_cons_none rfl]

/-! ## The reader -/

/-- What stands before an operand within its brackets: all up to the last OR, and what follows
that up to the last AND. -/
structure Waiting where
  alternatives : Option Condition
  conjunction : Option Condition

/-- The brackets around come innermost first. -/
inductive Reader where
  | beforeOperand (here : Waiting) (outer : List Waiting)
  | afterOperand (alternatives : Option Condition) (conjunction : Condition)
      (outer : List Waiting)

namespace Reader

open Condition

def start : Reader := beforeOperand ⟨none, none⟩ []

/-- The operand is complete. -/
def take (here : Waiting) (operand : Condition) (outer : List Waiting) : Reader :=
  afterOperand here.alternatives (joinTo .and here.conjunction operand) outer

def step : Reader → Symbol → Option Reader
  | beforeOperand here outer, .test t => some (take here (.test t) outer)
  | beforeOperand here outer, .openBracket => some (beforeOperand ⟨none, none⟩ (here :: outer))
  | afterOperand a c outer, .connective .and => some (beforeOperand ⟨a, some c⟩ outer)
  | afterOperand a c outer, .connective .or =>
    some (beforeOperand ⟨some (joinTo .or a c), none⟩ outer)
  | afterOperand a c (here :: outer), .closeBracket => some (take here (joinTo .or a c) outer)
  | _, _ => none

def run (r : Reader) (symbols : List Symbol) : Option Reader := symbols.foldlM step r

def finish : Reader → Option Condition
  | afterOperand a c [] => some (joinTo .or a c)
  | _ => none

theorem run_append (r : Reader) (s t : List Symbol) :
    r.run (s ++ t) = (r.run s).bind (·.run t) := List.foldlM_append

theorem run_cons (r : Reader) (a : Symbol) (s : List Symbol) :
    r.run (a :: s) = (r.step a).bind (·.run s) := rfl

theorem run_cons_of_step {r next : Reader} {a : Symbol} (h : r.step a = some next)
    (s : List Symbol) : r.run (a :: s) = next.run s := by
  rw [run_cons, h]
  rfl

theorem run_append_of_run {r next : Reader} {s : List Symbol} (h : r.run s = some next)
    (t : List Symbol) : r.run (s ++ t) = next.run t := by
  rw [run_append, h]
  rfl

theorem run_snoc {r between next : Reader} {s : List Symbol} {a : Symbol}
    (hs : r.run s = some between) (ha : between.step a = some next) :
    r.run (s ++ [a]) = some next := by
  rw [run_append_of_run hs, run_cons_of_step ha]
  rfl

end Reader

def Condition.read? (symbols : List Symbol) : Option Condition :=
  (Reader.start.run symbols).bind Reader.finish

/-- The condition that a text stands for. -/
def Condition.parse? (text : String) : Option Condition :=
  (Symbol.read? (Token.cut text.toList)).bind read?

/-! ## What is derived is read -/

open Condition in
/-- How a reader comes through symbols of a level.  It joins an operand to all that waits, a
conjunction to what stands before the last OR, and takes alternatives where nothing waits. -/
def Level.Read : Level → List Symbol → Condition → Prop
  | .operand, s, c => ∀ here outer,
      (Reader.beforeOperand here outer).run s = some (.take here c outer)
  | .conjunction, s, c => ∀ alternatives outer,
      (Reader.beforeOperand ⟨alternatives, none⟩ outer).run s
        = some (.afterOperand alternatives c outer)
  | .alternatives, s, c => ∃ a d, joinTo .or a d = c ∧ ∀ outer,
      (Reader.beforeOperand ⟨none, none⟩ outer).run s = some (.afterOperand a d outer)

theorem Derives.read {level : Level} {s : List Symbol} {c : Condition} (h : Derives level s c) :
    level.Read s c := by
  induction h with
  | test t => exact fun here outer => rfl
  | bracketed h ih =>
    intro here outer
    obtain ⟨a, d, rfl, hrun⟩ := ih
    rw [Reader.run_cons_of_step rfl, Reader.run_append_of_run (hrun _)]
    rfl
  | operand h ih => exact fun alternatives outer => ih ⟨alternatives, none⟩ outer
  | and ha hb iha ihb =>
    intro alternatives outer
    rw [Reader.run_append_of_run (iha _ _), Reader.run_cons_of_step rfl]
    exact ihb ⟨alternatives, some _⟩ outer
  | conjunction h ih => exact ⟨none, _, rfl, fun outer => ih none outer⟩
  | or ha hb iha ihb =>
    obtain ⟨a, d, rfl, hrun⟩ := iha
    refine ⟨some (Condition.joinTo .or a d), _, rfl, fun outer => ?_⟩
    rw [Reader.run_append_of_run (hrun _), Reader.run_cons_of_step rfl]
    exact ihb _ outer

/-! ## What is read is derived -/

/-- The symbols of what waits before a word, with that word. -/
inductive Before (word : Connective) (level : Level) : Option Condition → List Symbol → Prop
  | none : Before word level none []
  | some {s : List Symbol} {c : Condition} (h : Derives level s c) :
      Before word level (some c) (s ++ [.connective word])

theorem Before.join_operand {waiting : Option Condition} {s t : List Symbol} {c : Condition}
    (hs : Before .and .conjunction waiting s) (ht : Derives .operand t c) :
    Derives .conjunction (s ++ t) (Condition.joinTo .and waiting c) := by
  cases hs with
  | none => exact .operand ht
  | some h =>
    rw [List.append_assoc]
    exact .and h ht

theorem Before.join_conjunction {waiting : Option Condition} {s t : List Symbol} {c : Condition}
    (hs : Before .or .alternatives waiting s) (ht : Derives .conjunction t c) :
    Derives .alternatives (s ++ t) (Condition.joinTo .or waiting c) := by
  cases hs with
  | none => exact .conjunction ht
  | some h =>
    rw [List.append_assoc]
    exact .or h ht

/-- The symbols between an opening bracket and the operand to come. -/
def Waiting.Holds (here : Waiting) (s : List Symbol) : Prop :=
  ∃ a c, Before .or .alternatives here.alternatives a ∧
    Before .and .conjunction here.conjunction c ∧ s = a ++ c

/-- The symbols up to the last bracket that is open. -/
inductive Around : List Waiting → List Symbol → Prop
  | nil : Around [] []
  | cons {here : Waiting} {outer : List Waiting} {s t : List Symbol} (ht : Around outer t)
      (hs : here.Holds s) : Around (here :: outer) (t ++ s ++ [.openBracket])

namespace Reader

/-- The symbols that lead a reader to where it is. -/
def Holds : Reader → List Symbol → Prop
  | beforeOperand here outer, s => ∃ o h, Around outer o ∧ here.Holds h ∧ s = o ++ h
  | afterOperand alternatives conjunction outer, s => ∃ o a c, Around outer o ∧
      Before .or .alternatives alternatives a ∧ Derives .conjunction c conjunction ∧
      s = o ++ (a ++ c)

theorem holds_take {here : Waiting} {outer : List Waiting} {o h s : List Symbol} {c : Condition}
    (ho : Around outer o) (hh : here.Holds h) (hs : Derives .operand s c) :
    (take here c outer).Holds (o ++ h ++ s) := by
  obtain ⟨a, d, ha, hd, rfl⟩ := hh
  refine ⟨o, a, d ++ s, ho, ha, hd.join_operand hs, ?_⟩
  simp only [List.append_assoc]

theorem holds_step {r next : Reader} {s : List Symbol} {x : Symbol} (hr : r.Holds s)
    (h : r.step x = some next) : next.Holds (s ++ [x]) := by
  unfold step at h
  split at h
  · next here outer t =>
    cases h
    obtain ⟨o, a, ho, ha, rfl⟩ := hr
    exact holds_take ho ha (.test t)
  · next here outer =>
    cases h
    obtain ⟨o, a, ho, ha, rfl⟩ := hr
    exact ⟨_, [], .cons ho ha, ⟨[], [], .none, .none, rfl⟩, (List.append_nil _).symm⟩
  · next alternatives c outer =>
    cases h
    obtain ⟨o, a, d, ho, ha, hd, rfl⟩ := hr
    exact ⟨o, _, ho, ⟨a, _, ha, .some hd, rfl⟩, by simp only [List.append_assoc]⟩
  · next alternatives c outer =>
    cases h
    obtain ⟨o, a, d, ho, ha, hd, rfl⟩ := hr
    exact ⟨o, _, ho, ⟨_, [], .some (ha.join_conjunction hd), .none, rfl⟩,
      by simp only [List.append_assoc, List.append_nil]⟩
  · next alternatives c here outer =>
    cases h
    obtain ⟨_, a, d, ho, ha, hd, rfl⟩ := hr
    cases ho with
    | cons ho hh =>
      have htake := holds_take ho hh (.bracketed (ha.join_conjunction hd))
      simpa only [List.append_assoc, List.cons_append, List.nil_append] using htake
  · cases h

theorem holds_run {r next : Reader} {s t : List Symbol} (hr : r.Holds s)
    (h : r.run t = some next) : next.Holds (s ++ t) := by
  induction t generalizing r s with
  | nil =>
    cases h
    rwa [List.append_nil]
  | cons x t ih =>
    rw [run_cons, Option.bind_eq_some_iff] at h
    obtain ⟨between, hstep, hrun⟩ := h
    have hnext := ih (holds_step hr hstep) hrun
    rwa [List.append_assoc, List.singleton_append] at hnext

theorem holds_start : start.Holds [] := ⟨[], [], .nil, ⟨[], [], .none, .none, rfl⟩, rfl⟩

end Reader

namespace Condition

theorem derives_of_read? {s : List Symbol} {c : Condition} (h : read? s = some c) :
    Derives .alternatives s c := by
  obtain ⟨r, hrun, hfinish⟩ := Option.bind_eq_some_iff.mp h
  have hr := Reader.holds_run Reader.holds_start hrun
  unfold Reader.finish at hfinish
  split at hfinish
  · cases hfinish
    obtain ⟨o, a, d, ho, ha, hd, hs⟩ := hr
    cases ho
    rw [List.nil_append, List.nil_append] at hs
    rw [hs]
    exact ha.join_conjunction hd
  · cases hfinish

theorem read?_eq_some_iff {s : List Symbol} {c : Condition} :
    read? s = some c ↔ Derives .alternatives s c := by
  refine ⟨derives_of_read?, fun h => ?_⟩
  obtain ⟨a, d, rfl, hrun⟩ := h.read
  rw [read?, show Reader.start.run s = _ from hrun []]
  rfl

/-- A text stands for a condition if its tokens are those of symbols that derive it. -/
theorem parse?_eq_some_iff {text : String} {c : Condition} :
    parse? text = some c ↔ ∃ symbols, Token.cut text.toList = symbols.flatMap Symbol.tokens ∧
      Derives .alternatives symbols c := by
  rw [parse?, Option.bind_eq_some_iff]
  simp only [Symbol.read?_eq_some_iff, read?_eq_some_iff]

example : parse? "a = ? OR b = ? AND (c IN (?))"
    = some (.join .or (.test ⟨⟨"a"⟩, .sign .eq⟩)
        (.join .and (.test ⟨⟨"b"⟩, .sign .eq⟩) (.test ⟨⟨"c"⟩, .isIn⟩))) := by
  decide

example : parse? "a = ?) AND (b = ?" = none := by
  decide

end Condition
end SqlClause
