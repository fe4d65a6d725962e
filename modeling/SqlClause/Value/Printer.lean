import SqlClause.Json.Printer
import SqlClause.Value.Basic

/-!
The three texts of a value: the one that is displayed and goes into patterns, the JSON one, and the
one shown in diagnostics.
-/

namespace SqlClause
namespace Value

/-- Displayed fractions never have an exponent, and a whole one looks like an integer.  Of two
shortest texts at the same distance the upper one is taken. -/
def displayLayout : Number.Layout where
  tie := .up
  positional _ := true
  keepsPoint := false
  plusSign := false

/-- In diagnostics the point stands in its place from `0.0001` up to sixteen digits. -/
def diagnosticLayout : Number.Layout where
  tie := .up
  positional e := -4 ≤ e ∧ e < 16
  keepsPoint := true
  plusSign := false

def boolText (b : Bool) : String := if b then "true" else "false"

mutual

def display : Value → String
  | .null => "NULL"
  | .bool b => boolText b
  | .int n => toString n.toInt
  | .uint n => toString n.toNat
  | .float x => displayLayout.render x
  | .text s => s
  | .uuid u => u.text
  | .timestamp t => t.offsetText
  | .date d => d.text
  | .json j => j.text
  | .list items => "[" ++ ", ".intercalate (itemDisplays items) ++ "]"

def itemDisplays : List Value → List String
  | [] => []
  | x :: xs => display x :: itemDisplays xs

end

mutual

/-- JSON has no infinities and nothing that is no number: they become null. -/
def jsonText : Value → String
  | .null => "null"
  | .bool b => boolText b
  | .int n => toString n.toInt
  | .uint n => toString n.toNat
  | .float x => if x.isFinite then Json.fractionLayout.render x else "null"
  | .text s => Text.jsonQuote s
  | .uuid u => Text.jsonQuote u.text
  | .timestamp t => Text.jsonQuote t.zuluText
  | .date d => Text.jsonQuote d.text
  | .json j => j.text
  | .list items => "[" ++ ",".intercalate (itemJsonTexts items) ++ "]"

def itemJsonTexts : List Value → List String
  | [] => []
  | x :: xs => jsonText x :: itemJsonTexts xs

end

mutual

def diagnostic : Value → String
  | .null => "Null"
  | .bool b => "Bool(" ++ boolText b ++ ")"
  | .int n => "Int(" ++ toString n.toInt ++ ")"
  | .uint n => "UInt(" ++ toString n.toNat ++ ")"
  | .float x => "Float(" ++ diagnosticLayout.render x ++ ")"
  | .text s => "Text(" ++ Text.diagnosticQuote s ++ ")"
  | .uuid u => "Uuid(" ++ u.text ++ ")"
  | .timestamp t => "Timestamp(" ++ t.zuluText ++ ")"
  | .date d => "Date(" ++ d.text ++ ")"
  | .json j => "Json(" ++ j.diagnostic ++ ")"
  | .list items => "List([" ++ ", ".intercalate (itemDiagnostics items) ++ "])"

def itemDiagnostics : List Value → List String
  | [] => []
  | x :: xs => diagnostic x :: itemDiagnostics xs

end

end Value
end SqlClause
