import Targeting.Value.Text

/-!
Plain values as JSON text. Integers are written in full and binary64 numbers with the fewest digits
that read back; characters below the space are escaped by number. Every key becomes text, a scalar
the one that it has as a value.
-/

namespace Targeting.Json

def escapeChar (c : Char) : List Char :=
  if c = '"' ∨ c = '\\' then ['\\', c]
  else if c.toNat < 0x20 then '\\' :: 'u' :: Text.hexDigits 4 c.toNat
  else [c]

def writeString (s : String) : String :=
  String.ofList ('"' :: s.toList.flatMap escapeChar ++ ['"'])

/-- The text that a key is written as. -/
def keyText : Key → String
  | .null => "null"
  | .bool b => if b then "true" else "false"
  | .int n => toString n
  | .float x =>
    if x.isFinite then Value.numberLayout.write x
    else if x.isNaN then "NaN"
    else if x.isNegative then "-Infinity" else "Infinity"
  | .str s => s
  | .foreign text _ => text

mutual

def write : Value → String
  | .null => "null"
  | .bool b => if b then "true" else "false"
  | .int n => toString n
  | .float x => Value.numberLayout.write x
  | .str s => writeString s
  | .array vs => "[" ++ ",".intercalate (writeAll vs) ++ "]"
  | .object fs => "\x7b" ++ ",".intercalate (writeFields fs) ++ "\x7d"
  | .foreign x => writeString x.text

def writeAll : List Value → List String
  | [] => []
  | v :: rest => write v :: writeAll rest

def writeFields : List (Key × Value) → List String
  | [] => []
  | (k, v) :: rest => (writeString (keyText k) ++ ":" ++ write v) :: writeFields rest

end

end Targeting.Json
