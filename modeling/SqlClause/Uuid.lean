import SqlClause.Text.Padded

/-!
Universally unique identifiers: numbers of 128 bits, written as 32 hexadecimal digits in five
groups.
-/

namespace SqlClause

structure Uuid where
  value : BitVec 128
  deriving DecidableEq

namespace Uuid

def hexDigit? (c : Char) : Option Nat :=
  if '0' ≤ c ∧ c ≤ '9' then some (c.toNat - 48)
  else if 'a' ≤ c ∧ c ≤ 'f' then some (c.toNat - 87)
  else if 'A' ≤ c ∧ c ≤ 'F' then some (c.toNat - 55)
  else none

/-- The 32 digits in either case.  Hyphens may stand anywhere between them. -/
def ofText? (text : String) : Option Uuid := do
  let ds ← (text.toList.filter (· ≠ '-')).mapM hexDigit?
  if ds.length = 32 then some ⟨BitVec.ofNat 128 (ds.foldl (fun n d => 16 * n + d) 0)⟩ else none

/-- Lower-case digits in groups of 8, 4, 4, 4 and 12. -/
def text (u : Uuid) : String :=
  let ds := (Text.digits 16 32 u.value.toNat).toList
  let group (start size : Nat) := String.ofList ((ds.drop start).take size)
  "-".intercalate [group 0 8, group 8 4, group 12 4, group 16 4, group 20 12]

end Uuid
end SqlClause
