import Mathlib.Algebra.Ring.Nat
import SqlClause.Proofs.Placeholder.Replacement
import SqlClause.Proofs.Predicate

/-!
Columns concatenated within each other.

A concatenation puts its separator into a literal.  The columns, and the commas and brackets around
them, stand outside.  So where no separator holds a quote and each column comes out of its own
literals, the whole comes out of them too and has the placeholders of the columns
(`Column.whole_concat`), in their order (`Column.substitute_concat`).  By induction on the nesting
the same holds at any depth (`placeholders_of_leaves`).
-/

namespace SqlClause

open Placeholder

namespace Placeholder

/-! ## Texts that come out of their literals -/

/-- From outside literals the text leads outside again, by so many placeholders. -/
structure Whole (text : List Char) (placeholders : Nat) : Prop where
  outside : literalAfter false text = false
  count_eq : countFrom false text = placeholders

variable {a b : List Char} {m n : Nat}

theorem Whole.append (ha : Whole a m) (hb : Whole b n) : Whole (a ++ b) (m + n) := by
  constructor
  · rw [literalAfter_append, ha.outside, hb.outside]
  · rw [countFrom_append, ha.outside, ha.count_eq, hb.count_eq]

/-- In a literal no character counts. -/
theorem countFrom_of_quote_not_mem {text : List Char} (h : quote ∉ text) :
    countFrom true text = 0 := by
  induction text with
  | nil => rfl
  | cons c text ih =>
    rw [List.mem_cons, not_or] at h
    have hmark : ¬(c = mark ∧ true = false) := fun hc => nomatch hc.2
    rw [countFrom, if_neg (Ne.symm h.1), if_neg hmark, ih h.2]

section

variable (t : Nat → List Char)

theorem Whole.replaceFrom_append (ha : Whole a m) (i : Nat) (b : List Char) :
    replaceFrom t false i (a ++ b)
      = replaceFrom t false i a ++ replaceFrom t false (i + m) b := by
  rw [Placeholder.replaceFrom_append, ha.outside, ha.count_eq]

theorem Whole.replaceFrom_plain (ha : Whole a 0) (i : Nat) (b : List Char) :
    replaceFrom t false i (a ++ b) = a ++ replaceFrom t false i b := by
  rw [Placeholder.replaceFrom_plain t ha.count_eq, ha.outside]

end

end Placeholder

/-! ## One concatenation -/

namespace Column

theorem EvenQuotes.whole {c : Column} (h : c.EvenQuotes) : Whole c.text.toList (count c.text) :=
  ⟨h.literalAfter, rfl⟩

/-- The text up to the columns. -/
def opening (separator : String) : List Char := ("concat_ws('" ++ separator ++ "', ").toList

/-- The columns with commas between them. -/
def listed (columns : List Column) : List Char := (", ".intercalate (columns.map text)).toList

theorem toList_concat (separator : String) (columns : List Column) :
    (concat separator columns).text.toList = opening separator ++ (listed columns ++ [')']) := by
  simp only [concat, opening, listed, String.toList_append, List.append_assoc]
  rfl

theorem listed_singleton (c : Column) : listed [c] = c.text.toList :=
  congrArg String.toList String.intercalate_singleton

theorem listed_cons_cons (c d : Column) (rest : List Column) :
    listed (c :: d :: rest) = c.text.toList ++ ([',', ' '] ++ listed (d :: rest)) := by
  have hjoin : ", ".intercalate ((c :: d :: rest).map text)
      = c.text ++ ", " ++ ", ".intercalate ((d :: rest).map text) := String.intercalate_cons_cons
  rw [listed, hjoin, String.toList_append, String.toList_append, List.append_assoc]
  rfl

theorem whole_comma : Whole [',', ' '] 0 := ⟨by decide, by decide⟩

theorem whole_opening {separator : String} (h : quote ∉ separator.toList) :
    Whole (opening separator) 0 := by
  have hbefore : literalAfter false "concat_ws('".toList = true := by decide
  constructor
  · rw [opening, String.toList_append, String.toList_append, literalAfter_append,
      literalAfter_append, hbefore, literalAfter_of_not_mem h]
    decide
  · rw [opening, String.toList_append, String.toList_append, countFrom_append, countFrom_append,
      literalAfter_append, hbefore, literalAfter_of_not_mem h, countFrom_of_quote_not_mem h]
    decide

theorem whole_listed : ∀ {columns : List Column}, (∀ c ∈ columns, c.EvenQuotes) →
    Whole (listed columns) (columns.map fun c => count c.text).sum
  | [], _ => ⟨rfl, rfl⟩
  | [c], h => by
    rw [listed_singleton, List.map_singleton, List.sum_singleton]
    exact (h c (List.mem_singleton_self c)).whole
  | c :: d :: rest, h => by
    have hhead := (h c (List.mem_cons_self ..)).whole
    have hrest := whole_listed fun e he => h e (List.mem_cons_of_mem c he)
    have hall := hhead.append (whole_comma.append hrest)
    rw [List.map_cons, List.sum_cons]
    rwa [Nat.zero_add, ← listed_cons_cons] at hall

/-- No placeholder comes from the separator, and none is lost in the literal that it stands in. -/
theorem whole_concat {separator : String} (hs : quote ∉ separator.toList) {columns : List Column}
    (h : ∀ c ∈ columns, c.EvenQuotes) :
    Whole (concat separator columns).text.toList (columns.map fun c => count c.text).sum := by
  have hclose : Whole [')'] 0 := ⟨by decide, by decide⟩
  have hall := (whole_opening hs).append ((whole_listed h).append hclose)
  rwa [Nat.zero_add, Nat.add_zero, ← toList_concat] at hall

section

variable (t : Nat → List Char)

/-- The column with `t i`, `t (i + 1)` and so on in place of its placeholders. -/
def substitute (i : Nat) (c : Column) : Column :=
  ⟨String.ofList (replaceFrom t false i c.text.toList)⟩

/-- The same in one column after the other. -/
def substituteAll : Nat → List Column → List Column
  | _, [] => []
  | i, c :: rest => c.substitute t i :: substituteAll (i + count c.text) rest

theorem toList_substitute (i : Nat) (c : Column) :
    (c.substitute t i).text.toList = replaceFrom t false i c.text.toList :=
  String.toList_ofList

theorem substitute_eq_of {i : Nat} {c d : Column}
    (h : replaceFrom t false i c.text.toList = d.text.toList) : c.substitute t i = d := by
  rw [substitute, h, String.ofList_toList]

theorem replaceFrom_listed : ∀ {columns : List Column},
    (∀ c ∈ columns, c.EvenQuotes) → ∀ i, replaceFrom t false i (listed columns)
      = listed (substituteAll t i columns)
  | [], _, _ => rfl
  | [c], _, i => by
    rw [substituteAll, substituteAll, listed_singleton, listed_singleton, toList_substitute]
  | c :: d :: rest, h, i => by
    have hhead := (h c (List.mem_cons_self ..)).whole
    have hrest := replaceFrom_listed (fun e he => h e (List.mem_cons_of_mem c he))
      (i + count c.text)
    rw [substituteAll, substituteAll, listed_cons_cons, listed_cons_cons,
      hhead.replaceFrom_append, whole_comma.replaceFrom_plain, hrest, toList_substitute]
    rfl

/-- The placeholders of a concatenation are those of its columns, from the first to the last. -/
theorem substitute_concat {separator : String} (hs : quote ∉ separator.toList)
    {columns : List Column} (h : ∀ c ∈ columns, c.EvenQuotes) (i : Nat) :
    (concat separator columns).substitute t i
      = concat separator (substituteAll t i columns) := by
  apply substitute_eq_of
  rw [toList_concat, toList_concat, (whole_opening hs).replaceFrom_plain,
    (whole_listed h).replaceFrom_append, replaceFrom_listed t h]
  rfl

end

end Column

/-! ## Concatenations within concatenations -/

/-- A column expression by the calls that make it. -/
inductive ColumnExpression where
  | leaf (c : Column)
  | concat (separator : String) (parts : List ColumnExpression)

namespace ColumnExpression

mutual

/-- What the calls give. -/
def column : ColumnExpression → Column
  | .leaf c => c
  | .concat separator parts => .concat separator (columns parts)

def columns : List ColumnExpression → List Column
  | [] => []
  | e :: rest => e.column :: columns rest

end

mutual

def leaves : ColumnExpression → List Column
  | .leaf c => [c]
  | .concat _ parts => leavesOf parts

def leavesOf : List ColumnExpression → List Column
  | [] => []
  | e :: rest => e.leaves ++ leavesOf rest

end

mutual

def separators : ColumnExpression → List String
  | .leaf _ => []
  | .concat separator parts => separator :: separatorsOf parts

def separatorsOf : List ColumnExpression → List String
  | [] => []
  | e :: rest => e.separators ++ separatorsOf rest

end

/-- The placeholders of some columns, each read by itself. -/
def placeholders (leaves : List Column) : Nat := (leaves.map fun c => count c.text).sum

section

variable (t : Nat → List Char)

mutual

/-- The expression with texts in the places of the placeholders of its leaves. -/
def substitute : Nat → ColumnExpression → ColumnExpression
  | i, .leaf c => .leaf (c.substitute t i)
  | i, .concat separator parts => .concat separator (substituteParts i parts)

def substituteParts : Nat → List ColumnExpression → List ColumnExpression
  | _, [] => []
  | i, e :: rest => substitute i e :: substituteParts (i + placeholders e.leaves) rest

end

end

mutual

/-- No separator ends the literal that it stands in, and no leaf ends in a literal. -/
def Balanced : ColumnExpression → Prop
  | .leaf c => c.EvenQuotes
  | .concat separator parts => quote ∉ separator.toList ∧ AllBalanced parts

def AllBalanced : List ColumnExpression → Prop
  | [] => True
  | e :: rest => e.Balanced ∧ AllBalanced rest

end

mutual

theorem balanced_of : ∀ {e : ColumnExpression}, (∀ s ∈ e.separators, quote ∉ s.toList) →
    (∀ c ∈ e.leaves, c.EvenQuotes) → e.Balanced
  | .leaf c, _, hleaves => hleaves c (List.mem_singleton_self c)
  | .concat separator _, hseparators, hleaves =>
    ⟨hseparators separator (List.mem_cons_self ..),
      allBalanced_of (fun s hs => hseparators s (List.mem_cons_of_mem separator hs)) hleaves⟩

theorem allBalanced_of : ∀ {parts : List ColumnExpression},
    (∀ s ∈ separatorsOf parts, quote ∉ s.toList) → (∀ c ∈ leavesOf parts, c.EvenQuotes) →
    AllBalanced parts
  | [], _, _ => trivial
  | _ :: _, hseparators, hleaves =>
    ⟨balanced_of (fun s hs => hseparators s (List.mem_append_left _ hs))
        (fun c hc => hleaves c (List.mem_append_left _ hc)),
      allBalanced_of (fun s hs => hseparators s (List.mem_append_right _ hs))
        (fun c hc => hleaves c (List.mem_append_right _ hc))⟩

end

mutual

theorem whole_column : ∀ {e : ColumnExpression}, e.Balanced →
    Whole e.column.text.toList (placeholders e.leaves)
  | .leaf c, h => by
    have hcount : placeholders [c] = count c.text := List.sum_singleton
    show Whole c.text.toList (placeholders [c])
    rw [hcount]
    exact Column.EvenQuotes.whole h
  | .concat _ parts, ⟨hseparator, hparts⟩ => by
    obtain ⟨heven, hcount⟩ := even_columns hparts
    have hall := Column.whole_concat hseparator heven
    rwa [hcount] at hall

theorem even_columns : ∀ {parts : List ColumnExpression}, AllBalanced parts →
    (∀ c ∈ columns parts, c.EvenQuotes) ∧
      ((columns parts).map fun c => count c.text).sum = placeholders (leavesOf parts)
  | [], _ => ⟨nofun, rfl⟩
  | e :: rest, ⟨he, hrest⟩ => by
    have hcolumn := whole_column he
    obtain ⟨heven, hcount⟩ := even_columns hrest
    constructor
    · intro c hc
      rcases List.mem_cons.mp hc with rfl | hc
      · exact (literalAfter_eq_false_iff _).mp hcolumn.outside
      · exact heven c hc
    · rw [columns, List.map_cons, List.sum_cons, hcount, leavesOf, placeholders, placeholders,
        List.map_append, List.sum_append]
      exact congrArg (· + _) hcolumn.count_eq

end

section

variable (t : Nat → List Char)

mutual

theorem substitute_column : ∀ {e : ColumnExpression}, e.Balanced → ∀ i,
    e.column.substitute t i = (e.substitute t i).column
  | .leaf _, _, _ => rfl
  | .concat separator parts, ⟨hseparator, hparts⟩, i => by
    have hcolumns := substitute_columns hparts i
    rw [column, Column.substitute_concat t hseparator (even_columns hparts).1, hcolumns]
    rfl

theorem substitute_columns : ∀ {parts : List ColumnExpression}, AllBalanced parts → ∀ i,
    Column.substituteAll t i (columns parts) = columns (substituteParts t i parts)
  | [], _, _ => rfl
  | e :: rest, ⟨he, hrest⟩, i => by
    have hcount : count e.column.text = placeholders e.leaves := (whole_column he).count_eq
    rw [columns, Column.substituteAll, substitute_column he i, hcount, substitute_columns hrest]
    rfl

end

mutual

theorem separators_substitute : ∀ (i : Nat) (e : ColumnExpression),
    (e.substitute t i).separators = e.separators
  | _, .leaf _ => rfl
  | i, .concat separator parts => congrArg (separator :: ·) (separatorsOf_substituteParts i parts)

theorem separatorsOf_substituteParts : ∀ (i : Nat) (parts : List ColumnExpression),
    separatorsOf (substituteParts t i parts) = separatorsOf parts
  | _, [] => rfl
  | i, e :: rest => by
    rw [substituteParts, separatorsOf, separators_substitute i e,
      separatorsOf_substituteParts _ rest]
    rfl

end

end

end ColumnExpression

/-- The placeholders of a column expression are those of its leaves, in their order.  Its separators
are never numbered, and what stands behind it is read as if it stood alone. -/
theorem placeholders_of_leaves {e : ColumnExpression}
    (hseparators : ∀ s ∈ e.separators, quote ∉ s.toList)
    (hleaves : ∀ c ∈ e.leaves, c.EvenQuotes) :
    e.column.EvenQuotes ∧ count e.column.text = (e.leaves.map fun c => count c.text).sum ∧
      (∀ t, (e.substitute t 0).separators = e.separators ∧
        replace t e.column.text = (e.substitute t 0).column.text) ∧
      (∀ values offset, values.length = count e.column.text →
        (∀ v ∈ values, v.isList = false) →
        number e.column.text values offset
          = .ok ⟨(e.substitute (fun i => (dollar (offset + 1 + i)).toList) 0).column.text,
              values⟩) ∧
      ∀ rest : String,
        literalAfter false (e.column.text ++ rest).toList = literalAfter false rest.toList ∧
          count (e.column.text ++ rest) = count e.column.text + count rest := by
  have hbalanced : e.Balanced := ColumnExpression.balanced_of hseparators hleaves
  obtain ⟨houtside, hcount⟩ := ColumnExpression.whole_column hbalanced
  have hreplace : ∀ t, replace t e.column.text = (e.substitute t 0).column.text := by
    intro t
    rw [← replaceFrom_cut, ← ColumnExpression.substitute_column t hbalanced]
    rfl
  refine ⟨(literalAfter_eq_false_iff _).mp houtside, hcount,
    fun t => ⟨ColumnExpression.separators_substitute t 0 e, hreplace t⟩,
    fun values offset hlength hlist => ?_, fun rest => ⟨?_, ?_⟩⟩
  · rw [number_of_not_list hlist hlength.symm, hreplace]
  · rw [String.toList_append, literalAfter_append, houtside]
  · rw [count, String.toList_append, countFrom_append, houtside]
    rfl

/-- Two placeholders among five other question marks, and a concatenation of nothing. -/
def markedExpression : ColumnExpression :=
  .concat "?" [.leaf ⟨"a ? 'k?'"⟩, .concat "(?)" [],
    .concat "[?]" [.leaf ⟨"b"⟩, .leaf ⟨"c ? '?'"⟩]]

theorem placeholders_of_leaves_markedExpression :
    (∀ s ∈ markedExpression.separators, quote ∉ s.toList) ∧
      (∀ c ∈ markedExpression.leaves, c.EvenQuotes) ∧
      count markedExpression.column.text = 2 ∧
      number markedExpression.column.text [.int 1, .null] 3
        = .ok ⟨"concat_ws('?', a $4 'k?', concat_ws('(?)', ), concat_ws('[?]', b, c $5 '?'))",
            [.int 1, .null]⟩ ∧
      count (markedExpression.column.text ++ " = ?") = 2 + count " = ?" := by
  have hseparators : ∀ s ∈ markedExpression.separators, quote ∉ s.toList := by decide
  have hleaves : ∀ c ∈ markedExpression.leaves, c.EvenQuotes := by decide
  obtain ⟨-, hcount, -, hnumber, hbehind⟩ := placeholders_of_leaves hseparators hleaves
  have htwo : count markedExpression.column.text = 2 := hcount.trans (by decide)
  refine ⟨hseparators, hleaves, htwo, ?_, ?_⟩
  · rw [hnumber [.int 1, .null] 3 htwo.symm (by decide)]
    rfl
  · rw [(hbehind " = ?").2, htwo]

end SqlClause
