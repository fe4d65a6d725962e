import Mathlib.Algebra.Group.Int.Defs
import Mathlib.Algebra.Group.Nat.Defs
import Mathlib.Logic.Basic
import SqlClause.Proofs.Wire.Contract
import SqlClause.Wire.Encoding

/-!
Integers and the types that hold them.

An integer value is written for its number alone, whichever of the two kinds holds it.  The check
against 64 bits comes first and looks at no type (`encode_of_small`, `encode_of_large`).  Then each
integer type takes the numbers of its width (`encodeInt_column`) and all other types refuse
(`encodeInt_of_ne`).  So a column holds the number that was bound or nothing was written
(`integer_written_whole`).
-/

namespace SqlClause

/-- The number of an integer value, held with or without a sign. -/
def Value.integer? : Value → Option Int
  | .int n => some n.toInt
  | .uint n => some n.toNat
  | _ => none

namespace Wire

inductive IntegerType where
  | int2
  | int4
  | int8
  deriving DecidableEq

namespace IntegerType

/-- The number of bytes. -/
def width : IntegerType → Nat
  | .int2 => 2
  | .int4 => 4
  | .int8 => 8

/-- How errors call the type. -/
def name : IntegerType → String
  | .int2 => "INT2"
  | .int4 => "INT4"
  | .int8 => "INT8"

/-- The number fits the width with its sign. -/
def Holds (t : IntegerType) (n : Int) : Prop :=
  -2 ^ (8 * t.width - 1) ≤ n ∧ n < 2 ^ (8 * t.width - 1)

instance (t : IntegerType) (n : Int) : Decidable (t.Holds n) :=
  inferInstanceAs (Decidable (_ ∧ _))

variable {t : IntegerType} {n : Int}

theorem length_bytes (t : IntegerType) (n : Int) : (bigEndianInt t.width n).length = t.width :=
  length_bigEndian t.width _

theorem Holds.read_back (h : t.Holds n) : ofBigEndianInt (bigEndianInt t.width n) = n := by
  have hwidth : (Nat.pow 256 t.width : Int) = 2 * 2 ^ (8 * t.width - 1) := by cases t <;> rfl
  obtain ⟨hlower, hupper⟩ := h
  exact ofBigEndianInt_bigEndianInt (by omega) (by omega)

theorem holds_int8 (n : Int64) : IntegerType.int8.Holds n.toInt := ⟨n.le_toInt, n.toInt_lt⟩

end IntegerType

/-! ## Numbers with fewer bits -/

theorem int16?_of_holds {n : Int64} (h : IntegerType.int2.Holds n.toInt) :
    ∃ short, int16? n = some short ∧ short.toInt = n.toInt := by
  obtain ⟨hlower, hupper⟩ := h
  refine ⟨n.toInt16, if_pos ⟨hlower, Int.le_of_lt_add_one hupper⟩, ?_⟩
  rw [Int64.toInt_toInt16]
  exact Int.bmod_eq_of_le hlower hupper

theorem int16?_of_not_holds {n : Int64} (h : ¬IntegerType.int2.Holds n.toInt) :
    int16? n = none :=
  if_neg fun ⟨hlower, hupper⟩ => h ⟨hlower, Int.lt_add_one_of_le hupper⟩

theorem int32?_of_holds {n : Int64} (h : IntegerType.int4.Holds n.toInt) :
    ∃ short, int32? n = some short ∧ short.toInt = n.toInt := by
  obtain ⟨hlower, hupper⟩ := h
  refine ⟨n.toInt32, if_pos ⟨hlower, Int.le_of_lt_add_one hupper⟩, ?_⟩
  rw [Int64.toInt_toInt32]
  exact Int.bmod_eq_of_le hlower hupper

theorem int32?_of_not_holds {n : Int64} (h : ¬IntegerType.int4.Holds n.toInt) :
    int32? n = none :=
  if_neg fun ⟨hlower, hupper⟩ => h ⟨hlower, Int.lt_add_one_of_le hupper⟩

theorem int64?_of_lt {n : UInt64} (h : n.toNat < 2 ^ 63) :
    ∃ signed, int64? n = some signed ∧ signed.toInt = n.toNat := by
  refine ⟨n.toInt64, if_pos h, ?_⟩
  rw [← Int64.toInt_toBitVec, UInt64.toBitVec_toInt64]
  exact BitVec.toInt_eq_toNat_of_lt (by rw [UInt64.toNat_toBitVec]; omega)

theorem int64?_of_not_lt {n : UInt64} (h : ¬n.toNat < 2 ^ 63) : int64? n = none := if_neg h

section

variable {T : Type} [DecidableEq T] {lib : Library T}

/-! ## Types -/

/-- The type of a column. -/
def IntegerType.column (lib : Library T) : IntegerType → T
  | .int2 => lib.int2
  | .int4 => lib.int4
  | .int8 => lib.int8

/-- An integer type takes the numbers that it holds.  All 64 bits are taken, so the longest type
has nothing left to check. -/
theorem encodeInt_column (hintegers : lib.IntegerLaws) (t : IntegerType) (n : Int64) :
    lib.encodeInt n (t.column lib)
      = if t.Holds n.toInt then .ok (some (bigEndianInt t.width n.toInt))
        else .error (rangeError n.toInt t.name) := by
  obtain ⟨hne24, hne28, hne48⟩ := hintegers.distinct
  cases t with
  | int2 =>
    show lib.encodeInt n lib.int2 = _
    rw [Library.encodeInt, if_pos rfl]
    by_cases h : IntegerType.int2.Holds n.toInt
    · obtain ⟨short, hshort, hvalue⟩ := int16?_of_holds h
      simp only [hshort, hintegers.int16, hvalue, if_pos h]
      rfl
    · rw [int16?_of_not_holds h, if_neg h]
      rfl
  | int4 =>
    show lib.encodeInt n lib.int4 = _
    rw [Library.encodeInt, if_neg hne24.symm, if_pos rfl]
    by_cases h : IntegerType.int4.Holds n.toInt
    · obtain ⟨short, hshort, hvalue⟩ := int32?_of_holds h
      simp only [hshort, hintegers.int32, hvalue, if_pos h]
      rfl
    · rw [int32?_of_not_holds h, if_neg h]
      rfl
  | int8 =>
    show lib.encodeInt n lib.int8 = _
    rw [Library.encodeInt, if_neg hne28.symm, if_neg hne48.symm, hintegers.int64,
      if_pos (IntegerType.holds_int8 n)]
    rfl

theorem encodeInt_eq_ok_iff (hintegers : lib.IntegerLaws) (t : IntegerType) (n : Int64)
    {encoded : Encoded} :
    lib.encodeInt n (t.column lib) = .ok encoded ↔
      t.Holds n.toInt ∧ encoded = some (bigEndianInt t.width n.toInt) := by
  rw [encodeInt_column hintegers]
  by_cases ht : t.Holds n.toInt
  · rw [if_pos ht]
    constructor
    · intro hok
      exact ⟨ht, (Except.ok.inj hok).symm⟩
    · rintro ⟨-, rfl⟩
      rfl
  · rw [if_neg ht]
    constructor
    · intro hok
      cases hok
    · rintro ⟨hholds, -⟩
      exact absurd hholds ht

theorem encodeInt_of_ne (hscalars : lib.ScalarLaws) (hintegers : lib.IntegerLaws) {type : T}
    (h : ∀ t : IntegerType, type ≠ t.column lib) (n : Int64) :
    lib.encodeInt n type = .error (.wrongType .int64 (lib.text type)) := by
  have haccepts : lib.accepts (Scalar.int64 n).kind type = false :=
    Bool.eq_false_iff.mpr fun haccepts => h .int8 (hintegers.accepts_int64.mp haccepts)
  have hne2 : type ≠ lib.int2 := h .int2
  have hne4 : type ≠ lib.int4 := h .int4
  rw [Library.encodeInt, if_neg hne2, if_neg hne4, hscalars.refused haccepts]
  rfl

/-! ## Values -/

section

variable {v : Value} {n : Int}

/-- Nothing but its number counts of an integer value that fits 64 bits with a sign. -/
theorem encode_of_small (lib : Library T) (hv : v.integer? = some n) (hsmall : n < 2 ^ 63) :
    ∃ m : Int64, m.toInt = n ∧ ∀ type, lib.encode v type = lib.encodeInt m type := by
  cases v with
  | int m => exact ⟨m, Option.some.inj hv, fun type => by rw [Library.encode]⟩
  | uint m =>
    obtain rfl := Option.some.inj hv
    obtain ⟨signed, hsigned, hvalue⟩ := int64?_of_lt (n := m) (by omega)
    refine ⟨signed, hvalue, fun type => ?_⟩
    rw [Library.encode, Library.encodeUInt, hsigned]
  | _ => cases hv

theorem encode_of_large (hv : v.integer? = some n) (hlarge : 2 ^ 63 ≤ n) (type : T) :
    lib.encode v type = .error (rangeError n "INT8") := by
  cases v with
  | int m =>
    obtain rfl := Option.some.inj hv
    exact absurd m.toInt_lt (Int.not_lt.mpr hlarge)
  | uint m =>
    obtain rfl := Option.some.inj hv
    rw [Library.encode, Library.encodeUInt, int64?_of_not_lt (by omega)]
  | _ => cases hv

/-- An integer is written in all its digits or not at all.  The two kinds of integer values differ
only in the numbers that they can hold. -/
theorem integer_written_whole (hscalars : lib.ScalarLaws) (hintegers : lib.IntegerLaws)
    (hv : v.integer? = some n) (type : T) :
    (2 ^ 63 ≤ n → lib.encode v type = .error (.clause (.valueRange (toString n) "INT8"))) ∧
      (n < 2 ^ 63 → ∀ t : IntegerType, type = t.column lib →
        ((∃ encoded, lib.encode v type = .ok encoded) ↔ t.Holds n) ∧
          (∀ encoded, lib.encode v type = .ok encoded →
            ∃ bytes, encoded = some bytes ∧ bytes.length = t.width ∧ ofBigEndianInt bytes = n) ∧
          (¬t.Holds n →
            t ≠ .int8 ∧ lib.encode v type = .error (.clause (.valueRange (toString n) t.name)))) ∧
      (n < 2 ^ 63 → (∀ t : IntegerType, type ≠ t.column lib) →
        lib.encode v type = .error (.wrongType .int64 (lib.text type))) ∧
      ∀ w : Value, w.integer? = some n → lib.encode w type = lib.encode v type := by
  refine ⟨fun hlarge => encode_of_large hv hlarge type, ?_, fun hsmall hne => ?_, fun w hw => ?_⟩
  · rintro hsmall t rfl
    obtain ⟨m, rfl, hencode⟩ := encode_of_small lib hv hsmall
    rw [hencode]
    refine ⟨⟨fun ⟨_, h⟩ => ((encodeInt_eq_ok_iff hintegers t m).mp h).1,
      fun h => ⟨_, (encodeInt_eq_ok_iff hintegers t m).mpr ⟨h, rfl⟩⟩⟩, fun encoded h => ?_,
      fun hnot => ⟨?_, ?_⟩⟩
    · obtain ⟨hholds, rfl⟩ := (encodeInt_eq_ok_iff hintegers t m).mp h
      exact ⟨_, rfl, t.length_bytes _, hholds.read_back⟩
    · rintro rfl
      exact hnot (IntegerType.holds_int8 m)
    · rw [encodeInt_column hintegers, if_neg hnot]
      rfl
  · obtain ⟨m, rfl, hencode⟩ := encode_of_small lib hv hsmall
    rw [hencode, encodeInt_of_ne hscalars hintegers hne]
  · by_cases hsmall : n < 2 ^ 63
    · obtain ⟨m, rfl, hencode⟩ := encode_of_small lib hv hsmall
      obtain ⟨k, hk, hsame⟩ := encode_of_small lib hw hsmall
      rw [hencode, hsame, Int64.toInt_inj.mp hk]
    · have hlarge := Int.not_lt.mp hsmall
      rw [encode_of_large hv hlarge, encode_of_large hw hlarge]

end

end

/-- A number for three columns, and one that no column holds. -/
theorem integer_written_whole_seventyThousand :
    let v : Value := .uint 70000
    let custom : ColumnType := .custom "int4" 23 "pg_catalog" none
    postgres.ScalarLaws ∧ postgres.IntegerLaws ∧ v.integer? = some 70000 ∧
      encode v (.builtin .int2) = .error (.clause (.valueRange "70000" "INT2")) ∧
      (∃ bytes, encode v (.builtin .int4) = .ok (some bytes) ∧ bytes.length = 4 ∧
        ofBigEndianInt bytes = 70000) ∧
      encode v custom = .error (.wrongType .int64 "int4") ∧
      encode (.int 70000) custom = encode v custom ∧
      encode (.uint 9223372036854775808) custom
        = .error (.clause (.valueRange "9223372036854775808" "INT8")) := by
  intro v custom
  have hv : v.integer? = some 70000 := rfl
  have hcustom : ∀ t : IntegerType, custom ≠ t.column postgres := by
    intro t
    cases t <;> nofun
  have hwhole := integer_written_whole scalarLaws_postgres integerLaws_postgres hv
  obtain ⟨-, hshort, -, -⟩ := hwhole (.builtin .int2)
  obtain ⟨-, hlong, -, -⟩ := hwhole (.builtin .int4)
  obtain ⟨-, -, hother, hsame⟩ := hwhole custom
  obtain ⟨hlarge, -⟩ := integer_written_whole (v := .uint 9223372036854775808)
    (n := 9223372036854775808) scalarLaws_postgres integerLaws_postgres rfl custom
  obtain ⟨-, -, hrefused⟩ := hshort (by decide) .int2 rfl
  obtain ⟨hiff, hread, -⟩ := hlong (by decide) .int4 rfl
  obtain ⟨encoded, h⟩ := hiff.mpr (by decide)
  obtain ⟨bytes, rfl, hlength, hnumber⟩ := hread encoded h
  exact ⟨scalarLaws_postgres, integerLaws_postgres, hv, (hrefused (by decide)).2,
    ⟨bytes, h, hlength, hnumber⟩, hother (by decide) hcustom, hsame (.int 70000) rfl,
    hlarge (by decide)⟩

end Wire
end SqlClause
