import Targeting.Value

/-!
Equality by value. Booleans count as zero and one, integers and binary64 numbers are compared
exactly, and objects are compared without the order of their fields. A value that is not a number is
the same as itself and as nothing else.
-/

namespace Targeting.Value

/-- The number a value counts as in a comparison. -/
def measure? : Value → Option Numeral
  | .bool b => some (.bool b)
  | .int n => some (.int n)
  | .float x => some (.float x)
  | _ => none

def sameMeasure (v w : Value) : Bool :=
  match v.measure?, w.measure? with
  | some a, some b => a.same b
  | _, _ => false

mutual

def same : Value → Value → Bool
  | .null, .null => true
  | .str s, .str t => s == t
  | .array vs, .array ws => sameAll vs ws
  | .object fs, .object gs => fs.length == gs.length && sameFields fs gs
  | .bool b, w => sameMeasure (.bool b) w
  | .int n, w => sameMeasure (.int n) w
  | .float x, w => sameMeasure (.float x) w
  | .foreign s, .foreign t => s == t
  | _, _ => false

def sameAll : List Value → List Value → Bool
  | [], [] => true
  | v :: vs, w :: ws => same v w && sameAll vs ws
  | _, _ => false

/-- Every field on the left has its equal on the right. -/
def sameFields : List (Key × Value) → List (Key × Value) → Bool
  | [], _ => true
  | (k, v) :: rest, gs => sameField v (Fields.find? k gs) && sameFields rest gs

def sameField : Value → Option Value → Bool
  | v, some w => same v w
  | _, none => false

end

end Targeting.Value
