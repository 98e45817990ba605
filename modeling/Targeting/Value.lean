import Targeting.Key

/-!
Plain values: what a template or a context holds before anything is made of it. An object keeps its
fields in the order they were written; integers and binary64 numbers are different values even
where they are equal as numbers. Something that is no plain data can stand among them by a token.
-/

namespace Targeting

inductive Value where
  | null
  | bool (b : Bool)
  | int (n : Int)
  | float (x : Binary64)
  | str (s : String)
  | array (vs : List Value)
  | object (fs : List (Key × Value))
  | foreign (x : Token)
  deriving Repr, Inhabited

abbrev Fields := List (Key × Value)

namespace Fields

def find? (key : Key) : Fields → Option Value
  | [] => none
  | (k, v) :: rest => if k.same key then some v else find? key rest

/-- The value under a key, null where there is none. -/
def get (key : Key) (fs : Fields) : Value := (find? key fs).getD .null

/-- Replaces the value under a key in place; a new key goes to the end. -/
def put (key : Key) (v : Value) : Fields → Fields
  | [] => [(key, v)]
  | (k, w) :: rest => if k.same key then (k, v) :: rest else (k, w) :: put key v rest

/-- The fields under none of the given keys. -/
def without (keys : List Key) (fs : Fields) : Fields :=
  fs.filter fun f => !keys.any f.1.same

/-- A field that is left out where its value is null. -/
def given (key : Key) (v : Value) : Fields :=
  match v with
  | .null => []
  | v => [(key, v)]

theorem find?_put_self (key : Key) (v : Value) (fs : Fields) :
    find? key (put key v fs) = some v := by
  induction fs with
  | nil => simp [put, find?]
  | cons f rest ih =>
    obtain ⟨k, w⟩ := f
    by_cases h : k.same key = true <;> simp [put, find?, h, ih]

theorem find?_put_of_not_same {key other : Key} (h : key.same other = false) (v : Value)
    (fs : Fields) : find? other (put key v fs) = find? other fs := by
  induction fs with
  | nil => simp [put, find?, h]
  | cons f rest ih =>
    obtain ⟨k, w⟩ := f
    by_cases hk : k.same key = true
    · simp [put, find?, hk, Key.same_trans hk, h]
    · simp [put, find?, hk, ih]

end Fields

namespace Value

def isNull : Value → Bool
  | .null => true
  | _ => false

def isObject : Value → Bool
  | .object _ => true
  | _ => false

def ofNumeral : Numeral → Value
  | .bool b => .bool b
  | .int n => .int n
  | .float x => .float x

/-- The number a value is. Booleans are no numbers. -/
def number? : Value → Option Number
  | .int n => some (.ofInt n)
  | .float x => some x.toNumber
  | _ => none

/-- Whether a value counts as given: null, false, zero and everything empty do not. -/
def truthy : Value → Bool
  | .null => false
  | .bool b => b
  | .int n => n ≠ 0
  | .float x => x.toNumber ≠ .finite 0
  | .str s => s ≠ ""
  | .array vs => !vs.isEmpty
  | .object fs => !fs.isEmpty
  | .foreign _ => true

/-- The value that a key is. -/
def ofKey : Key → Value
  | .null => .null
  | .bool b => .bool b
  | .int n => .int n
  | .float x => .float x
  | .str s => .str s
  | .foreign text number => .foreign ⟨text, some number⟩

/-- The key that a value is: a scalar, or something with a number. -/
def key? : Value → Option Key
  | .null => some .null
  | .bool b => some (.bool b)
  | .int n => some (.int n)
  | .float x => some (.float x)
  | .str s => some (.str s)
  | .foreign ⟨text, some number⟩ => some (.foreign text number)
  | _ => none

@[simp] theorem key?_ofKey (k : Key) : (ofKey k).key? = some k := by cases k <;> rfl

/-- What a loop over a value visits: elements, characters or keys. -/
def elements? : Value → Option (List Value)
  | .array vs => some vs
  | .str s => some (s.toList.map fun c => .str (String.singleton c))
  | .object fs => some (fs.map fun f => ofKey f.1)
  | _ => none

/-- The value, or the default in place of null. -/
def orElse (v d : Value) : Value := if v.isNull then d else v

mutual

/-- How deep arrays and objects are nested in a value. -/
def height : Value → Nat
  | .array vs => heightAll vs + 1
  | .object fs => heightFields fs + 1
  | _ => 0

def heightAll : List Value → Nat
  | [] => 0
  | v :: rest => max (height v) (heightAll rest)

def heightFields : List (Key × Value) → Nat
  | [] => 0
  | (_, v) :: rest => max (height v) (heightFields rest)

end

end Value

end Targeting
