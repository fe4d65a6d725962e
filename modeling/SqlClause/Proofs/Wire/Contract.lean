import SqlClause.Wire.Postgres

/-!
What is asked of the library.

Each law is about one thing that the library does by itself: the check that stands in front of each
single value (`ScalarLaws`), the form in which lists are written (`ArrayLaws`), and the bytes of
integers (`IntegerLaws`).  Theorems name the laws that they need.  The library that the program is
run with keeps all of them.
-/

namespace SqlClause
namespace Wire

/-- Bytes, or a failure that is reported. -/
inductive Answers : Except Failure Encoded → Prop where
  | bytes (bytes : List UInt8) : Answers (.ok (some bytes))
  | failure {e : Failure} (h : e.aborts = false) : Answers (.error e)

theorem Answers.not_aborts {r : Except Failure Encoded} (h : Answers r) {e : Failure}
    (he : r = .error e) : e.aborts = false := by
  cases h with
  | bytes bytes => cases he
  | failure h => exact Except.error.inj he ▸ h

theorem Answers.ne_null {r : Except Failure Encoded} (h : Answers r) : r ≠ .ok none := by
  rintro rfl
  cases h

namespace Library

variable {T : Type}

/-- A single value is refused by a type that does not accept its kind.  Else it is written, never as
null, or fails in a way that is reported. -/
structure ScalarLaws (lib : Library T) : Prop where
  refused {s : Scalar} {type : T} : lib.accepts s.kind type = false →
    lib.scalar s type = .error (.wrongType s.kind (lib.text type))
  answered {s : Scalar} {type : T} : lib.accepts s.kind type = true → Answers (lib.scalar s type)

theorem ScalarLaws.answers {lib : Library T} (h : lib.ScalarLaws) (s : Scalar) (type : T) :
    Answers (lib.scalar s type) := by
  cases haccepts : lib.accepts s.kind type with
  | true => exact h.answered haccepts
  | false =>
    rw [h.refused haccepts]
    exact .failure rfl

/-- The number of the first item of an array.  Vectors count from zero. -/
def lowerBound [DecidableEq T] (lib : Library T) (type : T) : Nat :=
  if type = lib.int2Vector ∨ type = lib.oidVector then 0 else 1

/-- A list ends the run if the type is not one of arrays.  Else each item is written for the type of
the members, and they are put into an array. -/
structure ArrayLaws [DecidableEq T] (lib : Library T) : Prop where
  refused {items : List (Writer T)} {type : T} : lib.member? type = none →
    lib.list items type = .error .notAnArray
  written {items : List (Writer T)} {type member : T} : lib.member? type = some member →
    lib.list items type
      = writeArray (lib.number member) (lib.lowerBound type) (items.map fun write => write member)

/-- There is one type for each width of integers, which takes all integers of the width as they
stand in two's complement, and no other type takes any. -/
structure IntegerLaws (lib : Library T) : Prop where
  distinct : lib.int2 ≠ lib.int4 ∧ lib.int2 ≠ lib.int8 ∧ lib.int4 ≠ lib.int8
  accepts_int16 {type : T} : lib.accepts .int16 type = true ↔ type = lib.int2
  accepts_int32 {type : T} : lib.accepts .int32 type = true ↔ type = lib.int4
  accepts_int64 {type : T} : lib.accepts .int64 type = true ↔ type = lib.int8
  int16 (n : Int16) : lib.scalar (.int16 n) lib.int2 = .ok (some (bigEndianInt 2 n.toInt))
  int32 (n : Int32) : lib.scalar (.int32 n) lib.int4 = .ok (some (bigEndianInt 4 n.toInt))
  int64 (n : Int64) : lib.scalar (.int64 n) lib.int8 = .ok (some (bigEndianInt 8 n.toInt))

end Library

/-! ## The library that the program is run with -/

theorem scalarLaws_postgres : postgres.ScalarLaws where
  refused {s type} h := by
    have hrefused : type.accepts s.kind = false := h
    show (if type.accepts s.kind then _ else _) = _
    rw [hrefused]
    rfl
  answered {s type} h := by
    have haccepted : type.accepts s.kind = true := h
    show Answers (if type.accepts s.kind then _ else _)
    rw [haccepted]
    exact .bytes _

theorem arrayLaws_postgres : postgres.ArrayLaws where
  refused {items type} h := by
    have hmember : type.member? = none := h
    simp only [postgres, hmember]
  written {items type member} h := by
    have hmember : type.member? = some member := h
    simp only [postgres, hmember]
    rfl

/-- A kind that is no text is accepted by built-in types alone. -/
theorem ColumnType.accepts_iff {kind : Kind} (hkind : kind ≠ .text) {type : ColumnType} :
    type.accepts kind = true ↔ ∃ b ∈ kind.builtins, type = .builtin b := by
  cases type with
  | builtin b => simp [accepts]
  | custom name number schema member => simp [accepts, hkind]

theorem integerLaws_postgres : postgres.IntegerLaws where
  distinct := by decide
  accepts_int16 := (ColumnType.accepts_iff (by decide)).trans (by simp [Kind.builtins, postgres])
  accepts_int32 := (ColumnType.accepts_iff (by decide)).trans (by simp [Kind.builtins, postgres])
  accepts_int64 := (ColumnType.accepts_iff (by decide)).trans (by simp [Kind.builtins, postgres])
  int16 _ := rfl
  int32 _ := rfl
  int64 _ := rfl

end Wire
end SqlClause
