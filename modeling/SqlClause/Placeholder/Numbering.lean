import SqlClause.ClauseError
import SqlClause.Placeholder.Count
import SqlClause.Query.Basic

/-!
Numbered placeholders.  Each question mark outside literals becomes `$n`, and a list that is bound
to a bare `(?)` becomes one placeholder for each item.  An empty list has no items to write: it
becomes `(NULL)`, which no column is in, and after `NOT IN` the whole test gives way to one that
holds of every column.

The text is read once, from left to right.  What has been written so far is kept last character
first, so that its end can be looked at and taken back.
-/

namespace SqlClause
namespace Placeholder

structure Numbered where
  sql : String
  params : List Value

/-- A clause that has been written in part, last character and last value first. -/
structure Draft where
  written : List Char
  params : List Value
  next : Nat

namespace Draft

def write (d : Draft) (text : List Char) : Draft :=
  { d with written := text.reverse ++ d.written }

def bind (d : Draft) (v : Value) : Draft where
  written := (toString d.next).toList.reverse ++ '$' :: d.written
  params := v :: d.params
  next := d.next + 1

/-- Writes a placeholder for each value, with commas between them. -/
def bindAll (d : Draft) : List Value → Draft
  | [] => d
  | [v] => d.bind v
  | v :: rest => ((d.bind v).write [',', ' ']).bindAll rest

def notIn : List Char := ['N', 'O', 'T', ' ', 'I', 'N', ' ', '(']

/-- Holds of every column, null or not and of any type. -/
def always : List Char :=
  ['<', '>', ' ', 'A', 'L', 'L', '(', '\x27', '\x7b', '\x7d', '\x27', ')']

/-- Writes a value in place of a question mark, which is bare if it stands alone in its brackets.
The answer also says whether the closing bracket behind it has been used up. -/
def fill (d : Draft) (v : Value) (bare : Bool) : Draft × Bool :=
  match bare, v with
  | true, .list [] =>
    if notIn.reverse.isPrefixOf d.written then
      ({ d with written := always.reverse ++ d.written.drop notIn.length }, true)
    else (d.write ['N', 'U', 'L', 'L'], false)
  | true, .list items => (d.bindAll items, false)
  | _, _ => (d.bind v, false)

end Draft

/-- Writes the rest of a clause behind the character `last`.  The number of placeholders is only for
the error. -/
def fillAll (placeholders : Nat) :
    Bool → Option Char → Draft → List Value → List Char → Except ClauseError Draft
  | _, _, d, _, [] => .ok d
  | inLiteral, last, d, values, c :: rest =>
    if c = quote then fillAll placeholders (!inLiteral) (some c) (d.write [c]) values rest
    else if c = mark ∧ inLiteral = false then
      match values with
      | [] => .error (.paramMismatch placeholders d.params.length)
      | v :: values =>
        let bare := last == some '(' && rest.head? == some ')'
        let filled := d.fill v bare
        if filled.2 then
          match rest with
          | [] => .ok filled.1
          | _ :: after => fillAll placeholders inLiteral (some c) filled.1 values after
        else fillAll placeholders inLiteral (some c) filled.1 values rest
    else fillAll placeholders inLiteral (some c) (d.write [c]) values rest
termination_by structural _ _ _ _ text => text

/-- Numbers the placeholders from `offset + 1` on.  There must be as many as values. -/
def number (sql : String) (values : List Value) (offset : Nat) : Except ClauseError Numbered :=
  if count sql = values.length then do
    let done ← fillAll (count sql) false none ⟨[], [], offset + 1⟩ values sql.toList
    .ok ⟨String.ofList done.written.reverse, done.params.reverse⟩
  else .error (.paramMismatch (count sql) values.length)

end Placeholder

def Query.numbered (q : Query) : Except ClauseError Placeholder.Numbered :=
  Placeholder.number q.clause q.values 0

end SqlClause
