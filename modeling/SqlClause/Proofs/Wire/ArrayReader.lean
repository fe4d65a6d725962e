import Mathlib.Algebra.BigOperators.Group.List.Basic
import SqlClause.Proofs.Wire.Items

/-!
Arrays read back from their bytes.

`readArray?` reads the binary form of an array with any number of dimensions, and only if it is
complete and nothing is left behind it.  A reader is right about some bytes if it takes just these
from the front of any bytes (`Reads`), so the readers of the parts are put together in the order in
which the parts are written.  What a list is written as is then read back as one dimension of the
same length and, item by item, the bytes that each item has alone (`list_read_back`).
-/

namespace SqlClause
namespace Wire

structure Dimension where
  length : Nat
  lower : Int

/-- What the bytes of an array say. -/
structure ArrayImage where
  dimensions : List Dimension
  hasNull : Bool
  member : UInt32
  items : List Encoded

/-! ## Readers -/

/-- Takes bytes from the front, or fails. -/
abbrev Reader := StateT (List UInt8) Option

def readBytes (count : Nat) : Reader (List UInt8) := fun bytes =>
  if count ≤ bytes.length then some (bytes.take count, bytes.drop count) else none

def readInt : Reader Int := do return ofBigEndianInt (← readBytes 4)

def readTypeNumber : Reader UInt32 := do return UInt32.ofNat (ofBigEndian (← readBytes 4))

def readCount : Reader Nat := do
  let n ← readInt
  if 0 ≤ n then return n.toNat else failure

def readFlag : Reader Bool := do
  let n ← readInt
  if n = 0 then return false else if n = 1 then return true else failure

def readDimension : Reader Dimension := do
  let length ← readCount
  let lower ← readInt
  return ⟨length, lower⟩

/-- An item has its length in front.  The length of null is -1. -/
def readItem : Reader Encoded := do
  let n ← readInt
  if n = -1 then return none
  else if 0 ≤ n then return some (← readBytes n.toNat)
  else failure

def readMany {α : Type} (read : Reader α) : Nat → Reader (List α)
  | 0 => return []
  | n + 1 => do
    let x ← read
    let others ← readMany read n
    return x :: others

/-- An array with no dimensions is empty. -/
def itemCount : List Dimension → Nat
  | [] => 0
  | dimensions => (dimensions.map Dimension.length).prod

def readArray : Reader ArrayImage := do
  let count ← readCount
  let hasNull ← readFlag
  let member ← readTypeNumber
  let dimensions ← readMany readDimension count
  let items ← readMany readItem (itemCount dimensions)
  return ⟨dimensions, hasNull, member, items⟩

/-- The array that the bytes are, if nothing is left of them. -/
def readArray? (bytes : List UInt8) : Option ArrayImage :=
  match readArray.run bytes with
  | some (image, []) => some image
  | _ => none

/-! ## What readers take -/

/-- The reader takes just these bytes, whatever follows. -/
def Reads {α : Type} (read : Reader α) (front : List UInt8) (x : α) : Prop :=
  ∀ rest, read.run (front ++ rest) = some (x, rest)

section

variable {α β : Type} {read : Reader α} {a b : List UInt8} {x : α}

theorem Reads.pure (x : α) : Reads (pure x) [] x := fun _ => rfl

theorem Reads.bind {next : α → Reader β} {y : β} (h : Reads read a x)
    (hnext : Reads (next x) b y) : Reads (read >>= next) (a ++ b) y := by
  intro rest
  show (read.run (a ++ b ++ rest)).bind _ = _
  rw [List.append_assoc, h]
  exact hnext rest

theorem Reads.map (h : Reads read a x) (f : α → β) : Reads (do return f (← read)) a (f x) := by
  have hbind : Reads (do return f (← read)) (a ++ []) (f x) := h.bind (.pure (f x))
  rwa [List.append_nil] at hbind

end

theorem reads_bytes (bytes : List UInt8) : Reads (readBytes bytes.length) bytes bytes := by
  intro rest
  show (if bytes.length ≤ (bytes ++ rest).length then _ else none) = _
  rw [if_pos (by simp), List.take_left, List.drop_left]

theorem reads_word (n : Nat) : Reads (readBytes 4) (bigEndian 4 n) (bigEndian 4 n) := by
  have h := reads_bytes (bigEndian 4 n)
  rwa [length_bigEndian] at h

theorem reads_int {n : Int} (hlower : -lengthLimit ≤ n) (hupper : n < lengthLimit) :
    Reads readInt (bigEndianInt 4 n) n := by
  have hlimit : 2 * (lengthLimit : Int) = (Nat.pow 256 4 : Int) := rfl
  have h : Reads readInt (bigEndianInt 4 n) (ofBigEndianInt (bigEndianInt 4 n)) :=
    (reads_word _).map ofBigEndianInt
  rwa [ofBigEndianInt_bigEndianInt (by omega) (by omega)] at h

theorem bigEndianInt_natCast {width n : Nat} (h : n < Nat.pow 256 width) :
    bigEndianInt width n = bigEndian width n := by
  have hmod : (n : Int) % (Nat.pow 256 width : Int) = n :=
    Int.emod_eq_of_lt (Int.natCast_nonneg n) (by exact_mod_cast h)
  rw [bigEndianInt, hmod, Int.toNat_natCast]

theorem reads_nat {n : Nat} (h : n < lengthLimit) : Reads readInt (bigEndian 4 n) n := by
  have hlimit : 2 * lengthLimit = Nat.pow 256 4 := rfl
  rw [← bigEndianInt_natCast (by omega)]
  exact reads_int (by omega) (by omega)

theorem reads_typeNumber (number : UInt32) :
    Reads readTypeNumber (bigEndian 4 number.toNat) number := by
  have hlt : number.toNat < Nat.pow 256 4 := number.toNat_lt
  have h : Reads readTypeNumber (bigEndian 4 number.toNat)
      (UInt32.ofNat (ofBigEndian (bigEndian 4 number.toNat))) := (reads_word _).map _
  rwa [ofBigEndian_bigEndian hlt, UInt32.ofNat_toNat] at h

theorem reads_count {n : Nat} (h : n < lengthLimit) : Reads readCount (bigEndian 4 n) n := by
  have hnext : Reads (if 0 ≤ (n : Int) then pure (n : Int).toNat else failure) [] n := by
    rw [if_pos (Int.natCast_nonneg n)]
    exact .pure n
  have hbind : Reads readCount (bigEndian 4 n ++ []) n := (reads_nat h).bind hnext
  rwa [List.append_nil] at hbind

theorem reads_flag (flag : Bool) :
    Reads readFlag (bigEndian 4 (if flag then 1 else 0)) flag := by
  cases flag with
  | false => exact (reads_nat (by decide)).bind (.pure false)
  | true => exact (reads_nat (by decide)).bind (.pure true)

theorem reads_dimension {length lower : Nat} (hlength : length < lengthLimit)
    (hlower : lower < lengthLimit) :
    Reads readDimension (bigEndian 4 length ++ bigEndian 4 lower) ⟨length, lower⟩ :=
  (reads_count hlength).bind ((reads_nat hlower).map _)

theorem reads_many {α : Type} {read : Reader α} {write : α → List UInt8} {items : List α}
    (h : ∀ x ∈ items, Reads read (write x) x) :
    Reads (readMany read items.length) (items.flatMap write) items := by
  induction items with
  | nil => exact .pure []
  | cons x items ih =>
    obtain ⟨hx, hitems⟩ := List.forall_mem_cons.mp h
    rw [List.length_cons, readMany, List.flatMap_cons]
    exact hx.bind ((ih hitems).map (x :: ·))

/-! ## Items -/

theorem reads_item {encoded : Encoded} (h : encoded.Fits) :
    Reads readItem (frame encoded) encoded := by
  cases encoded with
  | none => exact (reads_int (by decide) (by decide)).bind (.pure none)
  | some bytes =>
    have hne : (bytes.length : Int) ≠ -1 := by omega
    have hnext : Reads
        (if (bytes.length : Int) = -1 then pure none
          else if 0 ≤ (bytes.length : Int) then do
            return some (← readBytes (bytes.length : Int).toNat)
          else failure) bytes (some bytes) := by
      rw [if_neg hne, if_pos (Int.natCast_nonneg _), Int.toNat_natCast]
      exact (reads_bytes bytes).map some
    exact (reads_nat (h bytes rfl)).bind hnext

/-- An array as it is written is read to its end. -/
theorem readArray?_write {encodings : List Encoded} (hlength : encodings.length < lengthLimit)
    (hfits : ∀ encoded ∈ encodings, encoded.Fits) (hasNull : Bool) (member : UInt32)
    {lower : Nat} (hlower : lower < lengthLimit) :
    readArray? (arrayHeader hasNull member encodings.length lower ++ encodings.flatMap frame)
      = some ⟨[⟨encodings.length, lower⟩], hasNull, member, encodings⟩ := by
  have hdimensions : Reads (readMany readDimension 1)
      (bigEndian 4 encodings.length ++ bigEndian 4 lower) [⟨encodings.length, lower⟩] :=
    (reads_dimension hlength hlower).bind (.pure _)
  have hitems : Reads (readMany readItem (itemCount [⟨encodings.length, lower⟩]))
      (encodings.flatMap frame) encodings := by
    have hcount : itemCount [⟨encodings.length, lower⟩] = encodings.length := List.prod_singleton
    rw [hcount]
    exact reads_many fun encoded he => reads_item (hfits encoded he)
  have hread : Reads readArray _ _ :=
    (reads_count (by decide)).bind <| (reads_flag hasNull).bind <|
      (reads_typeNumber member).bind <| hdimensions.bind <| hitems.map _
  have hrun := hread []
  simp only [List.append_nil, ← List.append_assoc] at hrun
  rw [readArray?, arrayHeader, hrun]

/-! ## Lists -/

section

variable {T : Type} [DecidableEq T] {lib : Library T} {x : Value} {items : List Value}
  {member type : T} {encoded : Encoded} {encodings : List Encoded}

/-- All items that can be written have a length that can be written. -/
def Fit (lib : Library T) (member : T) (items : List Value) : Prop :=
  ∀ x ∈ items, ∀ bytes, lib.encode x member = .ok (some bytes) → bytes.length < lengthLimit

theorem Fit.enters (hfit : Fit lib member items) (hx : x ∈ items)
    (h : lib.encode x member = .ok encoded) : Enters (lib.encode x member) encoded :=
  ⟨h, fun bytes hbytes => hfit x hx bytes (h.trans (congrArg Except.ok hbytes))⟩

theorem lowerBound_lt (lib : Library T) (type : T) : lib.lowerBound type < lengthLimit := by
  unfold Library.lowerBound
  split <;> decide

variable (hscalars : lib.ScalarLaws) (harrays : lib.ArrayLaws)

include hscalars harrays

/-- Only null has no bytes. -/
theorem encode_eq_none_iff (h : lib.encode x type = .ok encoded) : encoded = none ↔ x = .null := by
  constructor
  · rintro rfl
    by_contra hnull
    cases x with
    | list items =>
      obtain ⟨member, encodings, -, -, hne⟩ := Library.exists_fills_of_encode_list harrays h
      exact hne rfl
    | _ => exact (Library.answers_encode hscalars rfl hnull type).ne_null h
  · rintro rfl
    rw [Library.encode] at h
    exact (Except.ok.inj h).symm

/-- An item of the array without bytes comes from a null of the list. -/
theorem any_isNone_iff (h : lib.Fills member items encodings) :
    encodings.any Option.isNone = true ↔ .null ∈ items := by
  induction h with
  | nil => simp
  | cons hx h ih =>
    rw [List.any_cons, Bool.or_eq_true, Option.isNone_iff_eq_none,
      encode_eq_none_iff hscalars harrays hx.1, ih, List.mem_cons]
    exact or_congr_left eq_comm

/-- A list is written if each of its items is, and is then read back as one dimension of the same
length, with null in the place of each null and with the bytes of its own in the place of each other
item.  If it is not written, the first item that cannot be written is why. -/
theorem list_read_back (hm : lib.member? type = some member) (hlength : items.length < lengthLimit)
    (hfit : Fit lib member items) :
    ((∃ encoded, lib.encode (.list items) type = .ok encoded) ↔
        ∀ x ∈ items, ∃ encoded, lib.encode x member = .ok encoded) ∧
      (∀ encoded, lib.encode (.list items) type = .ok encoded →
        ∃ bytes image, encoded = some bytes ∧ readArray? bytes = some image ∧
          image.dimensions = [⟨items.length,
            if type = lib.int2Vector ∨ type = lib.oidVector then 0 else 1⟩] ∧
          (image.hasNull = true ↔ .null ∈ items) ∧
          image.member = lib.number member ∧
          List.Forall₂
            (fun x item => lib.encode x member = .ok item ∧ (item = none ↔ x = .null))
            items image.items) ∧
      ∀ front x back e, items = front ++ x :: back →
        (∀ y ∈ front, ∃ encoded, lib.encode y member = .ok encoded) →
          lib.encode x member = .error e → lib.encode (.list items) type = .error e := by
  refine ⟨⟨?_, fun h => ?_⟩, fun encoded h => ?_, ?_⟩
  · rintro ⟨encoded, h⟩ x hx
    obtain ⟨encodings, hfills, -⟩ := (Library.encode_list_eq_ok_iff harrays hm hlength).mp h
    obtain ⟨item, hitem, -⟩ := Library.exists_fills_iff.mp ⟨encodings, hfills⟩ x hx
    exact ⟨item, hitem⟩
  · have henters : ∀ x ∈ items, ∃ encoded, Enters (lib.encode x member) encoded := by
      intro x hx
      obtain ⟨encoded, hencoded⟩ := h x hx
      exact ⟨encoded, hfit.enters hx hencoded⟩
    obtain ⟨encodings, hfills⟩ := Library.exists_fills_iff.mpr henters
    exact ⟨_, (Library.encode_list_eq_ok_iff harrays hm hlength).mpr ⟨encodings, hfills, rfl⟩⟩
  · obtain ⟨encodings, hfills, rfl⟩ := (Library.encode_list_eq_ok_iff harrays hm hlength).mp h
    have hlen : encodings.length = items.length := hfills.length_eq.symm
    have hread := readArray?_write (hlen ▸ hlength) (Library.fits_of_fills hfills)
      (encodings.any Option.isNone) (lib.number member) (lowerBound_lt lib type)
    rw [hlen] at hread
    refine ⟨_, _, rfl, hread, ?_, any_isNone_iff hscalars harrays hfills, rfl, ?_⟩
    · rw [Library.lowerBound]
      split <;> rfl
    · exact hfills.imp fun x item hx => ⟨hx.1, encode_eq_none_iff hscalars harrays hx.1⟩
  · rintro front x back e rfl hfront hx
    rw [Library.encode_list_eq_error_iff harrays hm hlength]
    refine ⟨front, x, back, rfl, fun y hy => ?_, hx ▸ .failure e⟩
    obtain ⟨encoded, hencoded⟩ := hfront y hy
    exact ⟨encoded, hfit.enters (by simp [hy]) hencoded⟩

end

/-- A vector with a null, numbered from zero. -/
theorem list_read_back_vector :
    let items : List Value := [.int (-2), .null, .uint 7]
    postgres.ScalarLaws ∧ postgres.ArrayLaws ∧ Fit postgres (.builtin .int2) items ∧
      ∃ bytes image, encode (.list items) (.builtin .int2Vector) = .ok (some bytes) ∧
        readArray? bytes = some image ∧ image.dimensions = [⟨3, 0⟩] ∧
        (image.hasNull = true ↔ .null ∈ items) ∧ image.member = 21 ∧
        List.Forall₂ (fun x item => encode x (.builtin .int2) = .ok item ∧ (item = none ↔ x = .null))
          items image.items := by
  intro items
  have hfit : Fit postgres (.builtin .int2) items := by
    intro x hx bytes hbytes
    simp only [items, List.mem_cons, List.not_mem_nil, or_false] at hx
    rcases hx with rfl | rfl | rfl <;> cases hbytes <;> decide
  have hall : ∀ x ∈ items, ∃ encoded, postgres.encode x (.builtin .int2) = .ok encoded := by
    intro x hx
    simp only [items, List.mem_cons, List.not_mem_nil, or_false] at hx
    rcases hx with rfl | rfl | rfl <;> exact ⟨_, rfl⟩
  have hm : postgres.member? (.builtin .int2Vector) = some (.builtin .int2) := rfl
  obtain ⟨hok, hread, -⟩ :=
    list_read_back scalarLaws_postgres arrayLaws_postgres hm (by decide) hfit
  obtain ⟨encoded, h⟩ := hok.mpr hall
  obtain ⟨bytes, image, rfl, himage⟩ := hread encoded h
  exact ⟨scalarLaws_postgres, arrayLaws_postgres, hfit, bytes, image, h, himage⟩

end Wire
end SqlClause
