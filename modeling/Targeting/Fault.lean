import Targeting.Value.Identity
import Targeting.Value.Text

/-!
What can go wrong, by cause. Two of the causes are failures that callers are told about, with a code
and a message; a name that is missing or empty and a list of fields that is none are refused with a
message; the others say that something stands where something else is needed.
-/

namespace Targeting

/-- A failure as callers see it: a code for programs and a message for people. Both are text
wherever a failure arises here; one that is made elsewhere may hold anything. -/
structure Failure where
  code : Value
  message : Value
  deriving DecidableEq, Repr

namespace Failure

def text (f : Failure) : String := f.code.text ++ ": " ++ f.message.text

def quoted (f : Failure) : String :=
  "RemoteConfigError(code=" ++ f.code.quoted ++ ", message=" ++ f.message.quoted ++ ")"

def failedPrecondition : String := "failed-precondition"

def precondition (message : String) : Failure := ⟨.str failedPrecondition, .str message⟩

end Failure

inductive Fault where
  /-- A percent test has no usable comparison, or lacks the numbers for it. -/
  | invalidOperator
  /-- The context has no instance id to place in a bucket. -/
  | missingId
  | emptyName
  | missingField (key : Key)
  /-- A batch entry is no object. -/
  | notEntry (v : Value)
  /-- A conversion that reads fields was given no object. -/
  | notObject (v : Value)
  /-- A plain value was asked to do what only a typed one can. -/
  | untyped (v : Value)
  | notIterable (v : Value)
  /-- What is no scalar can be no key and can name no result. -/
  | unusableKey (v : Value)
  /-- Fields were listed, and the entry at this index has this many parts in place of two. -/
  | notPair (index size : Nat)
  | zeroModulus
  /-- Only text has a fingerprint, and only text names a field. -/
  | notText (v : Value)
  /-- Something other than a number was given as a level of nesting. -/
  | notLevel (v : Value)
  /-- Objects of a kind are made from its fields and no others. -/
  | unexpectedField (key : Key)
  /-- A field that the kind of an object requires was not given. -/
  | requiredField (name : String)
  | noField (name : String)
  /-- A field stands before something that an object could do. -/
  | hidden (name : String)
  | notIndexable
  | outOfRange
  deriving DecidableEq, Repr

namespace Fault

def failure? : Fault → Option Failure
  | .invalidOperator => some (.precondition "invalid operator in remote config server condition")
  | .missingId => some (.precondition "context argument is missing an \"id\" field.")
  | _ => none

/-- The message of a refusal. -/
def refusal? : Fault → Option String
  | .emptyName => some "Named condition requires a non-empty name"
  | .missingField key => some (Value.ofKey key).text
  | .notPair index size =>
    some ("dictionary update sequence element #" ++ toString index ++ " has length " ++
      toString size ++ "; 2 is required")
  | _ => none

end Fault

namespace Value

def toElements (v : Value) : Except Fault (List Value) :=
  match v.elements? with
  | some vs => .ok vs
  | none => .error (.notIterable v)

def toKey (v : Value) : Except Fault Key :=
  match v.key? with
  | some key => .ok key
  | none => .error (.unusableKey v)

/-- The field of a plain object by its key, with a value for when it is missing. -/
def look (v key default : Value) : Except Fault Value :=
  match v with
  | .object fs => do return (Fields.find? (← key.toKey) fs).getD default
  | v => .error (.untyped v)

/-- Reads pairs of a key and a value into fields, the first one at this index. -/
def pairs (index : Nat) (done : Fields) : List Value → Except Fault Fields
  | [] => .ok done
  | v :: rest =>
    match v.elements? with
    | some [key, w] => do pairs (index + 1) (done.put (← key.toKey) w) rest
    | some parts => .error (.notPair index parts.length)
    | none => .error (.notIterable v)

/-- The fields of an object, or those that a list of pairs spells. -/
def toFields : Value → Except Fault Fields
  | .object fs => .ok fs
  | v => do pairs 0 [] (← v.toElements)

@[simp] theorem toFields_object (fs : Fields) : (Value.object fs).toFields = .ok fs := rfl

end Value

end Targeting
