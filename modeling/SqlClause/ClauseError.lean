/-!
What can be wrong with a clause that is handed to a database.
-/

namespace SqlClause

inductive ClauseError where
  | paramMismatch (placeholders values : Nat)
  | valueRange (value target : String)
  deriving DecidableEq

namespace ClauseError

def message : ClauseError → String
  | .paramMismatch placeholders values =>
    "Param mismatch: clause has " ++ toString placeholders ++ " '?', but " ++ toString values
      ++ " values provided"
  | .valueRange value target => "Value " ++ value ++ " out of range for " ++ target

def isParamMismatch : ClauseError → Bool
  | .paramMismatch .. => true
  | _ => false

def isValueRange : ClauseError → Bool
  | .valueRange .. => true
  | _ => false

end ClauseError
end SqlClause
