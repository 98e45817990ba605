import Targeting.Value
import Targeting.Binary64.Shortest
import Targeting.Text.Quoted

/-!
The text of plain values, as it enters the string that is hashed. A string stands for itself, but
inside an array or an object it is quoted; everything else has one form.
-/

namespace Targeting

/-- How a binary64 number is written: which decimal points allow the positional form, and how many
digits an exponent has at least. -/
structure NumberLayout where
  leastPoint : Int
  greatestPoint : Int
  exponentWidth : Nat

/-- Numbers from `0.0001` to below `10 ^ 16` are written out; the others have an exponent with a
sign and two digits or more. -/
def Value.numberLayout : NumberLayout := ⟨-3, 16, 2⟩

def zeros (n : Nat) : String := String.ofList (List.replicate n '0')

namespace NumberLayout

def positional (digits : List Char) (point : Int) : String :=
  if point ≤ 0 then "0." ++ zeros (-point).toNat ++ String.ofList digits
  else
    let whole := point.toNat
    let fraction := digits.drop whole
    String.ofList (digits.take whole) ++ zeros (whole - digits.length) ++ "." ++
      (if fraction.isEmpty then "0" else String.ofList fraction)

def scientific (l : NumberLayout) (digits : List Char) (point : Int) : String :=
  let exponent := point - 1
  let tail := digits.drop 1
  let size := toString exponent.natAbs
  String.ofList (digits.take 1) ++ (if tail.isEmpty then "" else "." ++ String.ofList tail) ++
    (if exponent < 0 then "e-" else "e+") ++ zeros (l.exponentWidth - size.length) ++ size

def write (l : NumberLayout) (x : Binary64) : String :=
  if x.isNaN then "nan"
  else
    let sign := if x.isNegative then "-" else ""
    if !x.isFinite then sign ++ "inf"
    else
      let d := x.shortest
      let digits := Nat.toDigits 10 d.digits
      sign ++ (if l.leastPoint ≤ d.point ∧ d.point ≤ l.greatestPoint
        then positional digits d.point else l.scientific digits d.point)

end NumberLayout

def Key.quoted : Key → String
  | .null => "None"
  | .bool true => "True"
  | .bool false => "False"
  | .int n => toString n
  | .float x => Value.numberLayout.write x
  | .str s => Text.quoted s
  | .foreign text _ => text

namespace Value

mutual

/-- The form a value has inside an array or an object, where a scalar looks like a key. -/
def quoted : Value → String
  | .null => Key.null.quoted
  | .bool b => (Key.bool b).quoted
  | .int n => (Key.int n).quoted
  | .float x => (Key.float x).quoted
  | .str s => (Key.str s).quoted
  | .array vs => "[" ++ ", ".intercalate (quotedAll vs) ++ "]"
  | .object fs => "\x7b" ++ ", ".intercalate (quotedFields fs) ++ "\x7d"
  | .foreign x => x.text

def quotedAll : List Value → List String
  | [] => []
  | v :: rest => quoted v :: quotedAll rest

def quotedFields : List (Key × Value) → List String
  | [] => []
  | (k, v) :: rest => (k.quoted ++ ": " ++ quoted v) :: quotedFields rest

end

def text : Value → String
  | .str s => s
  | v => v.quoted

@[simp] theorem text_str (s : String) : (Value.str s).text = s := rfl

end Value

end Targeting
