import Targeting.Value

/-!
Reading plain values from JSON text. A number without a point and an exponent is an exact integer,
any other the nearest binary64 number. A key that an object repeats keeps its first place and takes
its last value. Text that is not JSON, or has something after the value, is refused.
-/

namespace Targeting.Json

abbrev Rest := List Char

def skipBlank (cs : List Char) : Rest :=
  cs.dropWhile fun c => c = ' ' ∨ c = '\n' ∨ c = '\r' ∨ c = '\t'

/-- The rest after a given text. -/
def skip : List Char → List Char → Option Rest
  | [], cs => some cs
  | e :: es, c :: cs => if e = c then skip es cs else none
  | _ :: _, [] => none

def hexValue (c : Char) : Option Nat :=
  if '0' ≤ c ∧ c ≤ '9' then some (c.toNat - '0'.toNat)
  else if 'a' ≤ c ∧ c ≤ 'f' then some (c.toNat - 'a'.toNat + 10)
  else if 'A' ≤ c ∧ c ≤ 'F' then some (c.toNat - 'A'.toNat + 10)
  else none

def hexNumber (cs : List Char) : Option Nat :=
  cs.foldlM (fun n c => (hexValue c).map (16 * n + ·)) 0

/-- A code unit in four hexadecimal digits. -/
def codeUnit (cs : List Char) : Option (Nat × Rest) :=
  if 4 ≤ cs.length then (hexNumber (cs.take 4)).map (·, cs.drop 4) else none

/-- The character of one code unit, or of a pair whose second half is spelled right after it. -/
def codePoint (cs : List Char) : Option (Char × Rest) := do
  let (high, rest) ← codeUnit cs
  if 0xd800 ≤ high ∧ high < 0xdc00 then
    let (low, rest) ← codeUnit (← skip ['\\', 'u'] rest)
    if 0xdc00 ≤ low ∧ low < 0xe000 then
      some (.ofNat (0x10000 + (high - 0xd800) * 0x400 + (low - 0xdc00)), rest)
    else none
  else some (.ofNat high, rest)

/-- The character after a backslash. -/
def escaped : List Char → Option (Char × Rest)
  | 'u' :: cs => codePoint cs
  | 'n' :: cs => some ('\n', cs)
  | 't' :: cs => some ('\t', cs)
  | 'r' :: cs => some ('\r', cs)
  | 'b' :: cs => some ('\x08', cs)
  | 'f' :: cs => some ('\x0c', cs)
  | c :: cs => if c = '"' ∨ c = '\\' ∨ c = '/' then some (c, cs) else none
  | [] => none

/-- The characters up to the closing quote, the ones read so far in reverse. -/
def stringBody : Nat → List Char → List Char → Option (String × Rest)
  | 0, _, _ => none
  | _ + 1, _, [] => none
  | fuel + 1, done, c :: cs =>
    if c = '"' then some (String.ofList done.reverse, cs)
    else if c = '\\' then do
      let (c, cs) ← escaped cs
      stringBody fuel (c :: done) cs
    else stringBody fuel (c :: done) cs

def string (cs : List Char) : Option (String × Rest) := do
  stringBody (cs.length + 1) [] (← skip ['"'] cs)

def digits (cs : List Char) : List Char × Rest := cs.span Char.isDigit

def decimalNumber (cs : List Char) : Nat := Nat.ofDigitChars 10 cs 0

/-- The digits after a point, if there is one. -/
def fractionPart : List Char → Option (List Char × Rest)
  | '.' :: cs => if (digits cs).1.isEmpty then none else some (digits cs)
  | cs => some ([], cs)

def exponentDigits (negative : Bool) (cs : List Char) : Option (Int × Rest) :=
  let (ds, rest) := digits cs
  let n : Int := decimalNumber ds
  if ds.isEmpty then none else some (if negative then -n else n, rest)

def exponentPart : List Char → Option (Option Int × Rest)
  | e :: cs =>
    if e = 'e' ∨ e = 'E' then
      let read := match cs with
        | '-' :: cs => exponentDigits true cs
        | '+' :: cs => exponentDigits false cs
        | cs => exponentDigits false cs
      read.map fun (n, rest) => (some n, rest)
    else some (none, e :: cs)
  | [] => some (none, [])

def unsigned (negative : Bool) (cs : List Char) : Option (Value × Rest) := do
  let (whole, rest) := digits cs
  if whole.isEmpty ∨ (1 < whole.length ∧ whole.head? = some '0') then none
  else
    let (fraction, rest) ← fractionPart rest
    let (exponent, rest) ← exponentPart rest
    let n := decimalNumber (whole ++ fraction)
    if fraction.isEmpty ∧ exponent.isNone then
      some (.int (if negative then -n else n), rest)
    else
      some (.float (.ofDecimal negative n (exponent.getD 0 - fraction.length)), rest)

def number : List Char → Option (Value × Rest)
  | '-' :: cs => unsigned true cs
  | cs => unsigned false cs

mutual

/-- One value. The first argument bounds the number of values and separators still to come. -/
def value : Nat → List Char → Option (Value × Rest)
  | 0, _ => none
  | fuel + 1, cs =>
    match skipBlank cs with
    | 'n' :: cs => (skip ['u', 'l', 'l'] cs).map (.null, ·)
    | 't' :: cs => (skip ['r', 'u', 'e'] cs).map (.bool true, ·)
    | 'f' :: cs => (skip ['a', 'l', 's', 'e'] cs).map (.bool false, ·)
    | '"' :: cs => (string ('"' :: cs)).map fun (s, rest) => (.str s, rest)
    | '[' :: cs =>
      match skipBlank cs with
      | ']' :: rest => some (.array [], rest)
      | cs => (elements fuel [] cs).map fun (vs, rest) => (.array vs, rest)
    | '{' :: cs =>
      match skipBlank cs with
      | '}' :: rest => some (.object [], rest)
      | cs => (members fuel [] cs).map fun (fs, rest) => (.object fs, rest)
    | cs => number cs

def elements : Nat → List Value → List Char → Option (List Value × Rest)
  | 0, _, _ => none
  | fuel + 1, done, cs => do
    let (v, rest) ← value fuel cs
    match skipBlank rest with
    | ',' :: cs => elements fuel (v :: done) cs
    | ']' :: rest => some ((v :: done).reverse, rest)
    | _ => none

def members : Nat → Fields → List Char → Option (Fields × Rest)
  | 0, _, _ => none
  | fuel + 1, done, cs => do
    let (key, rest) ← string (skipBlank cs)
    let (v, rest) ← value fuel (← skip [':'] (skipBlank rest))
    let done := done.put key v
    match skipBlank rest with
    | ',' :: cs => members fuel done cs
    | '}' :: rest => some (done, rest)
    | _ => none

end

/-- The one value that a text holds. -/
def read? (text : String) : Option Value :=
  match value (text.length + 1) text.toList with
  | some (v, rest) => if (skipBlank rest).isEmpty then some v else none
  | none => none

end Targeting.Json
