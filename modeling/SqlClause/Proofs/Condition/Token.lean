import Mathlib.Tactic.ByContra
import SqlClause.Connective
import SqlClause.Predicate

/-!
Clauses cut into tokens, and tokens put together to symbols.

A name, a word or a sign goes on as far as characters of its kind do; brackets and question marks
stand for themselves.  A test takes up several tokens and is one symbol.  There is one way only to
put tokens together (`read?_eq_some_iff`).
-/

namespace SqlClause

/-- What can stand between a column and a question mark that is not in brackets. -/
inductive Sign where
  | eq
  | ne
  | ge
  | le
  | gt
  | lt
  | like
  deriving DecidableEq

inductive Comparison where
  | sign (s : Sign)
  | isIn
  | notIn
  deriving DecidableEq

/-- What the text of a predicate shows of it. -/
structure Test where
  column : Column
  comparison : Comparison
  deriving DecidableEq

def Operator.comparison : Operator → Comparison
  | .eq => .sign .eq
  | .ne => .sign .ne
  | .ge => .sign .ge
  | .le => .sign .le
  | .gt => .sign .gt
  | .lt => .sign .lt
  | .contains | .startsWith | .endsWith => .sign .like
  | .isIn => .isIn
  | .notIn => .notIn

def Predicate.test (p : Predicate) : Test := ⟨p.column, p.operator.comparison⟩

inductive Token where
  | openBracket
  | closeBracket
  | mark
  | connective (w : Connective)
  | sign (s : Sign)
  | isIn
  | not
  | name (c : Column)
  /-- Belongs to no clause. -/
  | stray
  deriving DecidableEq

namespace Token

/-- Letters, digits, `_` and `.`.  All characters beyond ASCII count as letters. -/
def isNameChar (c : Char) : Bool := c.isAlphanum || c == '_' || c == '.' || 128 ≤ c.toNat

def words : List (String × Token) :=
  [("AND", connective .and), ("OR", connective .or), ("NOT", not), ("IN", isIn),
    ("LIKE", sign .like)]

def signs : List (String × Token) :=
  [("=", sign .eq), ("!=", sign .ne), (">=", sign .ge), ("<=", sign .le), (">", sign .gt),
    ("<", sign .lt)]

def ofText (text : String) : Token :=
  match (words ++ signs).lookup text with
  | some t => t
  | none => if text.toList.all isNameChar then name ⟨text⟩ else stray

def single? : Char → Option Token
  | '(' => some openBracket
  | ')' => some closeBracket
  | '?' => some mark
  | _ => none

end Token

/-- A plain identifier that is none of the words of a clause. -/
structure Column.Plain (c : Column) : Prop where
  ne_empty : c.text ≠ ""
  all_isNameChar : c.text.toList.all Token.isNameChar
  not_word : c.text ∉ ["AND", "OR", "NOT", "IN", "LIKE"]

instance (c : Column) : Decidable c.Plain :=
  decidable_of_iff
    (c.text ≠ "" ∧ c.text.toList.all Token.isNameChar ∧
      c.text ∉ ["AND", "OR", "NOT", "IN", "LIKE"])
    ⟨fun h => ⟨h.1, h.2.1, h.2.2⟩, fun h => ⟨h.1, h.2, h.3⟩⟩

/-! ## Cutting -/

/-- The tokens that are complete and the characters of one that may go on. -/
structure Lexer where
  done : List Token
  pending : List Char

namespace Lexer

def start : Lexer := ⟨[], []⟩

def flush (s : Lexer) : List Token :=
  if s.pending.isEmpty then s.done else s.done ++ [Token.ofText (String.ofList s.pending)]

def step (s : Lexer) (c : Char) : Lexer :=
  if c.isWhitespace then ⟨s.flush, []⟩
  else
    match Token.single? c with
    | some t => ⟨s.flush ++ [t], []⟩
    | none =>
      if s.pending.all fun d => Token.isNameChar d == Token.isNameChar c then
        { s with pending := s.pending ++ [c] }
      else ⟨s.flush, [c]⟩

def run (s : Lexer) (text : List Char) : Lexer := text.foldl step s

end Lexer

def Token.cut (text : List Char) : List Token := (Lexer.start.run text).flush

namespace Lexer

theorem run_append (s : Lexer) (a b : List Char) : s.run (a ++ b) = (s.run a).run b :=
  List.foldl_append

/-- The lexer with other tokens in front of its own. -/
def behind (front : List Token) (s : Lexer) : Lexer := ⟨front ++ s.done, s.pending⟩

theorem flush_behind (front : List Token) (s : Lexer) :
    (s.behind front).flush = front ++ s.flush := by
  unfold flush behind
  by_cases h : s.pending.isEmpty
  · rw [if_pos h, if_pos h]
  · rw [if_neg h, if_neg h, List.append_assoc]

theorem step_behind (front : List Token) (s : Lexer) (c : Char) :
    (s.behind front).step c = (s.step c).behind front := by
  have hflush := flush_behind front s
  have hpending : (s.behind front).pending = s.pending := rfl
  unfold step
  rw [hflush, hpending]
  by_cases hc : c.isWhitespace
  · rw [if_pos hc, if_pos hc]
    rfl
  · rw [if_neg hc, if_neg hc]
    cases Token.single? c with
    | some t => exact congrArg (Lexer.mk · []) (List.append_assoc _ _ _)
    | none =>
      by_cases hp : s.pending.all fun d => Token.isNameChar d == Token.isNameChar c
      · simp only [if_pos hp]
        rfl
      · simp only [if_neg hp]
        rfl

/-- What is complete has no part in what follows. -/
theorem run_behind (front : List Token) (s : Lexer) (text : List Char) :
    (s.behind front).run text = (s.run text).behind front := by
  induction text generalizing s with
  | nil => rfl
  | cons c text ih =>
    show ((s.behind front).step c).run text = _
    rw [step_behind, ih]
    rfl

theorem run_blank (s : Lexer) : s.run [' '] = ⟨s.flush, []⟩ := rfl

theorem run_openBracket (s : Lexer) : s.run ['('] = ⟨s.flush ++ [.openBracket], []⟩ := rfl

theorem run_closeBracket (s : Lexer) : s.run [')'] = ⟨s.flush ++ [.closeBracket], []⟩ := rfl

theorem step_name {s : Lexer} {c : Char} (hs : s.pending.all Token.isNameChar)
    (hc : Token.isNameChar c) : s.step c = ⟨s.done, s.pending ++ [c]⟩ := by
  have hblank : c.isWhitespace = false := by
    by_contra h
    simp only [Char.isWhitespace, Bool.not_eq_false, Bool.or_eq_true, decide_eq_true_eq] at h
    rcases h with ((rfl | rfl) | rfl) | rfl <;> revert hc <;> decide
  have hsingle : Token.single? c = none := by
    unfold Token.single?
    split
    · revert hc; decide
    · revert hc; decide
    · revert hc; decide
    · rfl
  have hall : s.pending.all fun d => Token.isNameChar d == Token.isNameChar c := by
    rw [hc]
    simpa using hs
  unfold step
  rw [hblank, hsingle]
  simp only [if_pos hall]
  rfl

theorem run_name {s : Lexer} {text : List Char} (hs : s.pending.all Token.isNameChar)
    (htext : text.all Token.isNameChar) : s.run text = ⟨s.done, s.pending ++ text⟩ := by
  induction text generalizing s with
  | nil => rw [List.append_nil]; rfl
  | cons c text ih =>
    obtain ⟨hc, htext⟩ : Token.isNameChar c ∧ text.all Token.isNameChar := by
      rwa [List.all_cons, Bool.and_eq_true] at htext
    show (s.step c).run text = _
    rw [step_name hs hc, ih ?_ htext]
    · simp only [List.append_assoc, List.singleton_append]
    · simp only [List.all_append, hs, List.all_cons, hc, List.all_nil, Bool.and_true]

end Lexer

/-! ## Predicates -/

theorem Token.ofText_plain {c : Column} (h : c.Plain) : ofText c.text = name c := by
  have hsigns : ∀ s ∈ signs, ¬s.1.toList.all isNameChar := by decide
  have hnone : (words ++ signs).lookup c.text = none := by
    rw [List.lookup_eq_none_iff]
    intro p hp
    rw [bne_iff_ne]
    intro heq
    rcases List.mem_append.mp hp with hw | hs
    · refine h.not_word ?_
      rw [heq]
      exact List.mem_map_of_mem (f := Prod.fst) hw
    · exact hsigns p hs (heq ▸ h.all_isNameChar)
  unfold ofText
  rw [hnone]
  exact if_pos h.all_isNameChar

/-- What stands behind the column. -/
def Comparison.tokens : Comparison → List Token
  | sign s => [.sign s, .mark]
  | isIn => [.isIn, .openBracket, .mark, .closeBracket]
  | notIn => [.not, .isIn, .openBracket, .mark, .closeBracket]

def Test.tokens (t : Test) : List Token := .name t.column :: t.comparison.tokens

namespace Lexer

theorem run_template (op : Operator) (s : Lexer) :
    s.run op.template.toList = ⟨s.flush ++ op.comparison.tokens, []⟩ := by
  obtain ⟨rest, hrest⟩ : ∃ rest, op.template.toList = ' ' :: rest := by
    cases op <;> exact ⟨_, rfl⟩
  have hclosed : start.run rest = ⟨op.comparison.tokens, []⟩ := by
    have hblank : start.run rest = start.run (' ' :: rest) := rfl
    rw [hblank, ← hrest]
    cases op <;> rfl
  have hstep : s.run (' ' :: rest) = (start.behind s.flush).run rest := by
    show (⟨s.flush, []⟩ : Lexer).run rest = (⟨s.flush ++ [], []⟩ : Lexer).run rest
    rw [List.append_nil]
  rw [hrest, hstep, run_behind, hclosed]
  rfl

theorem run_predicate {p : Predicate} (h : p.column.Plain) (front : List Token) :
    run ⟨front, []⟩ p.text.toList = ⟨front ++ p.test.tokens, []⟩ := by
  have hcolumn : run ⟨front, []⟩ p.column.text.toList = ⟨front, p.column.text.toList⟩ :=
    run_name (by simp) h.all_isNameChar
  have hflush : flush ⟨front, p.column.text.toList⟩ = front ++ [.name p.column] := by
    unfold flush
    rw [if_neg (by simpa using h.ne_empty), String.ofList_toList, Token.ofText_plain h]
  have htext : p.text.toList = p.column.text.toList ++ p.operator.template.toList :=
    String.toList_append
  rw [htext, run_append, hcolumn, run_template, hflush, List.append_assoc]
  rfl

theorem run_word (w : Connective) (front : List Token) :
    (run ⟨front, []⟩ w.text.toList).flush = front ++ [.connective w] := by
  have hword : w.text.toList.all Token.isNameChar := by
    cases w <;> decide
  rw [run_name (by simp) hword]
  cases w <;> rfl

end Lexer

/-! ## Symbols -/

inductive Symbol where
  | openBracket
  | closeBracket
  | connective (w : Connective)
  | test (t : Test)
  deriving DecidableEq

namespace Symbol

def tokens : Symbol → List Token
  | openBracket => [.openBracket]
  | closeBracket => [.closeBracket]
  | connective w => [.connective w]
  | test t => t.tokens

def test? : Symbol → Option Test
  | test t => some t
  | _ => none

/-- The symbols that the tokens make up.  Nothing but a test takes more than one. -/
def read? : List Token → Option (List Symbol)
  | [] => some []
  | .openBracket :: rest => (read? rest).map (openBracket :: ·)
  | .closeBracket :: rest => (read? rest).map (closeBracket :: ·)
  | .connective w :: rest => (read? rest).map (connective w :: ·)
  | .name c :: .sign s :: .mark :: rest => (read? rest).map (test ⟨c, .sign s⟩ :: ·)
  | .name c :: .isIn :: .openBracket :: .mark :: .closeBracket :: rest =>
    (read? rest).map (test ⟨c, .isIn⟩ :: ·)
  | .name c :: .not :: .isIn :: .openBracket :: .mark :: .closeBracket :: rest =>
    (read? rest).map (test ⟨c, .notIn⟩ :: ·)
  | _ => none

theorem read?_tokens_append (a : Symbol) (rest : List Token) :
    read? (a.tokens ++ rest) = (read? rest).map (a :: ·) := by
  cases a with
  | test t =>
    obtain ⟨c, comparison⟩ := t
    cases comparison <;> rfl
  | _ => rfl

theorem read?_flatMap_tokens (symbols : List Symbol) :
    read? (symbols.flatMap tokens) = some symbols := by
  induction symbols with
  | nil => rfl
  | cons a symbols ih =>
    rw [List.flatMap_cons, read?_tokens_append, ih]
    rfl

theorem eq_of_read? {ts : List Token} {symbols : List Symbol} (h : read? ts = some symbols) :
    ts = symbols.flatMap tokens := by
  have hcons : ∀ {rest : List Token} {a : Symbol} {symbols : List Symbol},
      (∀ {symbols}, read? rest = some symbols → rest = symbols.flatMap tokens) →
      (read? rest).map (a :: ·) = some symbols → a.tokens ++ rest = symbols.flatMap tokens := by
    intro rest a symbols ih h
    obtain ⟨others, hrest, rfl⟩ := Option.map_eq_some_iff.mp h
    rw [List.flatMap_cons, ← ih hrest]
  fun_induction read? ts generalizing symbols with
  | case1 => cases h; rfl
  | case2 rest ih => exact hcons ih h
  | case3 rest ih => exact hcons ih h
  | case4 w rest ih => exact hcons ih h
  | case5 c s rest ih => exact hcons ih h
  | case6 c rest ih => exact hcons ih h
  | case7 c rest ih => exact hcons ih h
  | case8 => cases h

theorem read?_eq_some_iff {ts : List Token} {symbols : List Symbol} :
    read? ts = some symbols ↔ ts = symbols.flatMap tokens :=
  ⟨eq_of_read?, fun h => h ▸ read?_flatMap_tokens symbols⟩

end Symbol
end SqlClause
