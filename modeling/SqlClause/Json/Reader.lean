import SqlClause.Json.Numeral
import SqlClause.Uuid

/-!
Reading JSON texts.
-/

namespace SqlClause
namespace Json
namespace Reader

def skipBlanks : List Char → List Char
  | [] => []
  | c :: rest => if c = ' ' || c = '\n' || c = '\t' || c = '\r' then skipBlanks rest else c :: rest

def hex4? (a b c d : Char) : Option Nat := do
  some (((← Uuid.hexDigit? a) * 16 + (← Uuid.hexDigit? b)) * 256
    + (← Uuid.hexDigit? c) * 16 + (← Uuid.hexDigit? d))

def shortEscape? (c : Char) : Option Char :=
  match c.toNat with
  | 0x22 | 0x5c | 0x2f => some c
  | 0x62 => some '\x08'
  | 0x66 => some '\x0c'
  | 0x6e => some '\n'
  | 0x72 => some '\r'
  | 0x74 => some '\t'
  | _ => none

/-- The rest of a string after its first quote.  Two escapes may make up one character: the halves
of a surrogate pair. -/
def string? : List Char → Option (List Char × List Char)
  | [] => none
  | '\x22' :: rest => some ([], rest)
  | '\x5c' :: 'u' :: a :: b :: c :: d :: rest => do
    let high ← hex4? a b c d
    if 0xdc00 ≤ high ∧ high < 0xe000 then none
    else if 0xd800 ≤ high ∧ high < 0xdc00 then
      match rest with
      | '\x5c' :: 'u' :: a :: b :: c :: d :: rest =>
        let low ← hex4? a b c d
        if 0xdc00 ≤ low ∧ low < 0xe000 then
          let (s, after) ← string? rest
          some (Char.ofNat (0x10000 + (high - 0xd800) * 0x400 + (low - 0xdc00)) :: s, after)
        else none
      | _ => none
    else
      let (s, after) ← string? rest
      some (Char.ofNat high :: s, after)
  | '\x5c' :: c :: rest => do
    let e ← shortEscape? c
    let (s, after) ← string? rest
    some (e :: s, after)
  | c :: rest =>
    if c.toNat < 0x20 then none
    else do
      let (s, after) ← string? rest
      some (c :: s, after)

mutual

/-- A value at the front.  Each step down uses up a character, so as many steps as there are
characters are enough. -/
def value? : Nat → List Char → Option (Json × List Char)
  | 0, _ => none
  | steps + 1, cs =>
    match skipBlanks cs with
    | 'n' :: 'u' :: 'l' :: 'l' :: rest => some (.null, rest)
    | 't' :: 'r' :: 'u' :: 'e' :: rest => some (.bool true, rest)
    | 'f' :: 'a' :: 'l' :: 's' :: 'e' :: rest => some (.bool false, rest)
    | '\x22' :: rest => do
      let (s, after) ← string? rest
      some (.string (String.ofList s), after)
    | '[' :: rest =>
      match skipBlanks rest with
      | ']' :: after => some (.array [], after)
      | _ => do
        let (items, after) ← items? steps rest
        some (.array items, after)
    | '\x7b' :: rest =>
      match skipBlanks rest with
      | '\x7d' :: after => some (ofMembers [], after)
      | _ => do
        let (members, after) ← members? steps rest
        some (ofMembers members, after)
    | rest => do
      let (n, after) ← Numeral.read? rest
      some (.number n, after)

def items? : Nat → List Char → Option (List Json × List Char)
  | 0, _ => none
  | steps + 1, cs => do
    let (x, after) ← value? steps cs
    match skipBlanks after with
    | ']' :: rest => some ([x], rest)
    | ',' :: rest =>
      let (xs, after) ← items? steps rest
      some (x :: xs, after)
    | _ => none

def members? : Nat → List Char → Option (List (String × Json) × List Char)
  | 0, _ => none
  | steps + 1, cs => do
    let '\x22' :: quoted := skipBlanks cs | none
    let (name, after) ← string? quoted
    let ':' :: rest := skipBlanks after | none
    let (x, after) ← value? steps rest
    match skipBlanks after with
    | '\x7d' :: rest => some ([(String.ofList name, x)], rest)
    | ',' :: rest =>
      let (members, after) ← members? steps rest
      some ((String.ofList name, x) :: members, after)
    | _ => none

end

end Reader

def ofText? (text : String) : Option Json := do
  let (x, after) ← Reader.value? (text.length + 1) text.toList
  if (Reader.skipBlanks after).isEmpty then some x else none

end Json
end SqlClause
