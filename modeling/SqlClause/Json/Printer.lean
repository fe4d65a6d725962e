import SqlClause.Json.Basic
import SqlClause.Number.Layout
import SqlClause.Text.Quoted

/-!
The compact text of a document, without blanks, and its diagnostic text.
-/

namespace SqlClause
namespace Json

/-- Fractions have the point in its place from `0.00001` up to sixteen digits, and always show that
they are no integers.  Of two shortest texts at the same distance the even one is taken. -/
def fractionLayout : Number.Layout where
  tie := .even
  positional e := -5 ≤ e ∧ e < 16
  keepsPoint := true
  plusSign := true

def Number.text : Number → String
  | .integer n => toString n
  | .fraction x => fractionLayout.render x

mutual

def text : Json → String
  | .null => "null"
  | .bool b => if b then "true" else "false"
  | .number n => n.text
  | .string s => Text.jsonQuote s
  | .array items => "[" ++ ",".intercalate (itemTexts items) ++ "]"
  | .object members => "\x7b" ++ ",".intercalate (memberTexts members) ++ "\x7d"

def itemTexts : List Json → List String
  | [] => []
  | x :: xs => text x :: itemTexts xs

def memberTexts : List (String × Json) → List String
  | [] => []
  | (k, x) :: rest => (Text.jsonQuote k ++ ":" ++ text x) :: memberTexts rest

end

mutual

def diagnostic : Json → String
  | .null => "Null"
  | .bool b => "Bool(" ++ (if b then "true" else "false") ++ ")"
  | .number n => "Number(" ++ n.text ++ ")"
  | .string s => "String(" ++ Text.diagnosticQuote s ++ ")"
  | .array items => "Array [" ++ ", ".intercalate (itemDiagnostics items) ++ "]"
  | .object members => "Object \x7b" ++ ", ".intercalate (memberDiagnostics members) ++ "\x7d"

def itemDiagnostics : List Json → List String
  | [] => []
  | x :: xs => diagnostic x :: itemDiagnostics xs

def memberDiagnostics : List (String × Json) → List String
  | [] => []
  | (k, x) :: rest => (Text.diagnosticQuote k ++ ": " ++ diagnostic x) :: memberDiagnostics rest

end

end Json
end SqlClause
