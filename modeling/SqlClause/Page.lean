import SqlClause.Query.Basic

/-!
Pages of rows, counted from one.
-/

namespace SqlClause

/-- How the size of a page follows from the size that is asked for. -/
structure PagePolicy where
  /-- Taken when size zero is asked for. -/
  defaultSize : UInt64
  /-- No page is larger. -/
  maxSize : Option UInt64
  deriving DecidableEq

namespace PagePolicy

def standardSize : UInt64 := 10

def standard : PagePolicy := ⟨standardSize, none⟩

/-- Zero stands for the standard size. -/
def withDefaultSize (p : PagePolicy) (size : UInt64) : PagePolicy :=
  { p with defaultSize := if size = 0 then standardSize else size }

/-- A page holds one row at least. -/
def withMaxSize (p : PagePolicy) (size : UInt64) : PagePolicy :=
  { p with maxSize := some (max size 1) }

def size (p : PagePolicy) (asked : UInt64) : UInt64 :=
  let size := if asked = 0 then p.defaultSize else asked
  match p.maxSize with
  | some most => min size most
  | none => size

end PagePolicy

structure Page where
  number : UInt64
  size : UInt64
  deriving DecidableEq

/-- The product, or the largest number of 64 bits if it is larger. -/
def saturatingProduct (m n : UInt64) : UInt64 :=
  UInt64.ofNat (min (m.toNat * n.toNat) (UInt64.size - 1))

namespace Page

/-- Page zero is the first page too. -/
def ofRequest (policy : PagePolicy) (number size : UInt64) : Page :=
  ⟨if number = 0 then 1 else number, policy.size size⟩

/-- The number of rows before the page, cut off if there are too many. -/
def offset (p : Page) : UInt64 := saturatingProduct (p.number - 1) p.size

end Page

structure PagedQuery where
  query : Query
  page : Page

namespace PagedQuery

def ofRequest (policy : PagePolicy) (number size : UInt64) : PagedQuery :=
  ⟨.empty, .ofRequest policy number size⟩

/-- Asks for a page of a query, with pages of the standard size. -/
def ofQuery (query : Query) (number size : UInt64) : PagedQuery :=
  ⟨query, .ofRequest .standard number size⟩

end PagedQuery
end SqlClause
