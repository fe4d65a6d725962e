/-!
Numbers as rows of bytes, the most significant byte first.
-/

namespace SqlClause
namespace Wire

/-- The last `width` bytes of a natural number. -/
def bigEndian : Nat → Nat → List UInt8
  | 0, _ => []
  | width + 1, n => bigEndian width (n / 256) ++ [UInt8.ofNat n]

def ofBigEndian (bytes : List UInt8) : Nat := bytes.foldl (fun n b => n * 256 + b.toNat) 0

theorem length_bigEndian (width n : Nat) : (bigEndian width n).length = width := by
  induction width generalizing n with
  | zero => rfl
  | succ width ih => simp [bigEndian, ih]

/-- A number that fits is read back. -/
theorem ofBigEndian_bigEndian {width n : Nat} (h : n < Nat.pow 256 width) :
    ofBigEndian (bigEndian width n) = n := by
  induction width generalizing n with
  | zero =>
    obtain rfl : n = 0 := Nat.lt_one_iff.mp h
    rfl
  | succ width ih =>
    have hq : n / 256 < Nat.pow 256 width := by
      have hn : n < Nat.pow 256 width * 256 := h
      exact Nat.div_lt_of_lt_mul (by omega)
    have := ih hq
    simp only [ofBigEndian] at this
    simp only [bigEndian, ofBigEndian, List.foldl_append, this, List.foldl_cons, List.foldl_nil,
      UInt8.toNat_ofNat']
    omega

/-- A number with a sign, in two's complement. -/
def bigEndianInt (width : Nat) (n : Int) : List UInt8 :=
  bigEndian width (n % Nat.pow 256 width).toNat

def ofBigEndianInt (bytes : List UInt8) : Int :=
  (ofBigEndian bytes : Int).bmod (Nat.pow 256 bytes.length)

/-- A number that fits with its sign is read back. -/
theorem ofBigEndianInt_bigEndianInt {width : Nat} {n : Int}
    (hlower : -(Nat.pow 256 width : Int) ≤ 2 * n) (hupper : 2 * n < (Nat.pow 256 width : Int)) :
    ofBigEndianInt (bigEndianInt width n) = n := by
  have hpos : 0 < Nat.pow 256 width := Nat.pow_pos (by decide)
  have hnonneg : 0 ≤ n % (Nat.pow 256 width : Int) := Int.emod_nonneg n (by omega)
  have hlt : n % (Nat.pow 256 width : Int) < Nat.pow 256 width := Int.emod_lt_of_pos n (by omega)
  have hread : (ofBigEndian (bigEndianInt width n) : Int) = n % (Nat.pow 256 width : Int) := by
    rw [bigEndianInt, ofBigEndian_bigEndian (by omega), Int.toNat_of_nonneg hnonneg]
  have hlength : (bigEndianInt width n).length = width := length_bigEndian width _
  rw [ofBigEndianInt, hread, hlength, Int.emod_bmod]
  exact Int.bmod_eq_of_le_mul_two (by omega) (by omega)

def utf8 (text : String) : List UInt8 := text.toUTF8.toList

end Wire
end SqlClause
