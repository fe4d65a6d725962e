/-!
Numbers written with a least number of digits.
-/

namespace SqlClause
namespace Text

/-- The digits of `n` in a base up to sixteen, in lower case, with zeros in front up to `width`. -/
def digits (base width n : Nat) : String :=
  String.ofList ((Nat.toDigits base n).leftpad width '0')

def zeros (n : Nat) : String := String.ofList (List.replicate n '0')

end Text
end SqlClause
