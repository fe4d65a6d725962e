import SqlClause.Text.Padded

/-!
Texts between double quotes.  The two dialects differ in how they write the characters that
cannot stand for themselves: one is the dialect of JSON, the other that of diagnostic texts.
-/

namespace SqlClause
namespace Text

/-- A text between double quotes, each character as `escape` says. -/
def quoteWith (escape : Char → String) (text : String) : String :=
  "\"" ++ String.join (text.toList.map escape) ++ "\""

/-- JSON escapes the quote, the backslash and the control characters below U+0020, five of which
have short forms.  Every other character stands for itself, U+007F included. -/
def jsonEscape (c : Char) : String :=
  match c.toNat with
  | 0x22 => "\\\""
  | 0x5c => "\\\\"
  | 0x08 => "\\b"
  | 0x09 => "\\t"
  | 0x0a => "\\n"
  | 0x0c => "\\f"
  | 0x0d => "\\r"
  | n => if n < 0x20 then "\\u" ++ digits 16 4 n else c.toString

/-- Diagnostic texts escape the quote, the backslash and all ASCII control characters, four of
which have short forms.  They are made of ASCII characters, so no others are escaped. -/
def diagnosticEscape (c : Char) : String :=
  match c.toNat with
  | 0x22 => "\\\""
  | 0x5c => "\\\\"
  | 0x00 => "\\0"
  | 0x09 => "\\t"
  | 0x0a => "\\n"
  | 0x0d => "\\r"
  | n => if n < 0x20 || n = 0x7f then "\\u\x7b" ++ digits 16 1 n ++ "\x7d" else c.toString

def jsonQuote (text : String) : String := quoteWith jsonEscape text

def diagnosticQuote (text : String) : String := quoteWith diagnosticEscape text

end Text
end SqlClause
