import Targeting.Batch
import Targeting.Kind

/-!
The objects that a session can hold, with their fields by name. A field is read and replaced as it
is: nothing is checked and nothing brought into order, so any field can come to hold anything, and
an object can come to have fields beside those of its kind.
Every record carries a number. Records with one number are one object that stands in several
places; they have the same fields, and a field is assigned in all of them.
-/

namespace Targeting

/-- A plain value is no array: the items of an array stay apart, so that some of them can be
records. A record lists the fields of its kind first. -/
inductive Item where
  | plain (v : Value)
  | list (xs : List Item)
  | comparison (c : Comparison)
  | record (kind : Kind) (number : Nat) (fields : List (String × Item))

namespace Item

mutual

def ofValue : Value → Item
  | .array vs => .list (ofValues vs)
  | v => .plain v

def ofValues : List Value → List Item
  | [] => []
  | v :: rest => ofValue v :: ofValues rest

end

/-- Replaces what a field holds; a new field goes to the end. -/
def put (field : String) (y : Item) : List (String × Item) → List (String × Item)
  | [] => [(field, y)]
  | (name, x) :: rest => if name = field then (name, y) :: rest else (name, x) :: put field y rest

/-! ### Parts -/

/-- The position that an index means in a list of this length; a negative one counts from the
end. -/
def position? (length : Nat) (i : Int) : Option Nat :=
  let n := if i < 0 then i + length else i
  if 0 ≤ n ∧ n < length then some n.toNat else none

/-- The element at an index. -/
def pick {α : Type} (xs : List α) (i : Int) : Except Fault α :=
  match (position? xs.length i).bind (xs[·]?) with
  | some x => .ok x
  | none => .error .outOfRange

def pickChar (s : String) (i : Int) : Except Fault Item := do
  return .plain (.str (String.singleton (← pick s.toList i)))

/-- The index that a step means. -/
def index? : Value → Option Int
  | .int i => some i
  | .bool b => some b.toInt
  | _ => none

/-- What a step that is no field name leads to. Only an index leads anywhere, and a plain object has
fields by number as it has them by text. -/
def element (x : Item) (step : Value) : Except Fault Item :=
  match x, index? step with
  | .list xs, some i => pick xs i
  | .plain (.str s), some i => pickChar s i
  | .comparison c, some i => pickChar c.word i
  | .plain (.object fs), some _ => do
    let key ← step.toKey
    match Fields.find? key fs with
    | some v => return ofValue v
    | none => throw (.missingField key)
  | _, _ => .error .notIndexable

/-- One step from an object to a part of it: text names a field, anything else an element. -/
def child : Item → Value → Except Fault Item
  | .record _ _ fs, .str name =>
    match fs.lookup name with
    | some x => .ok x
    | none => .error (.noField name)
  | .comparison c, .str name =>
    if Comparison.fields.contains name then .ok (.plain (.str c.word)) else .error (.noField name)
  | _, .str name => .error (.noField name)
  | x, step => x.element step

/-- The number of the object whose field is to be assigned. -/
def owner (field : String) : Item → Except Fault Nat
  | .record kind number _ => if kind.admits field then .ok number else .error (.noField field)
  | _ => .error (.noField field)

/-! ### Numbers -/

mutual

/-- Changes the fields of the object with a number, in all its places. -/
def revise (number : Nat) (change : List (String × Item) → List (String × Item)) : Item → Item
  | .record kind n fs =>
    let fs := reviseFields number change fs
    .record kind n (if n = number then change fs else fs)
  | .list xs => .list (reviseAll number change xs)
  | x => x

def reviseAll (number : Nat) (change : List (String × Item) → List (String × Item)) :
    List Item → List Item
  | [] => []
  | x :: rest => revise number change x :: reviseAll number change rest

def reviseFields (number : Nat) (change : List (String × Item) → List (String × Item)) :
    List (String × Item) → List (String × Item)
  | [] => []
  | (name, x) :: rest => (name, revise number change x) :: reviseFields number change rest

end

mutual

/-- Gives every record a number of its own, from `next` on, and tells the next one. -/
def renumber (next : Nat) : Item → Item × Nat
  | .record kind _ fs =>
    let (fs, after) := renumberFields (next + 1) fs
    (.record kind next fs, after)
  | .list xs =>
    let (xs, after) := renumberAll next xs
    (.list xs, after)
  | x => (x, next)

def renumberAll (next : Nat) : List Item → List Item × Nat
  | [] => ([], next)
  | x :: rest =>
    let (x, after) := renumber next x
    let (rest, after) := renumberAll after rest
    (x :: rest, after)

def renumberFields (next : Nat) : List (String × Item) → List (String × Item) × Nat
  | [] => ([], next)
  | (name, x) :: rest =>
    let (x, after) := renumber next x
    let (rest, after) := renumberFields after rest
    ((name, x) :: rest, after)

end

/-! ### Equality -/

mutual

/-- Equality of parts: records of one kind are equal by the fields of the kind, contexts only where
they are one object, and a comparison equals the word that spells it. -/
def same : Item → Item → Bool
  | .plain v, .plain w => v.same w
  | .list xs, .list ys => sameAll xs ys
  | .comparison c, .comparison d => c == d
  | .comparison c, .plain v | .plain v, .comparison c => v.same (.str c.word)
  | .record k m fs, .record l n gs =>
    k == l && if k = .context then m == n else sameFields k.fields.length fs gs
  | _, _ => false

def sameAll : List Item → List Item → Bool
  | [], [] => true
  | x :: xs, y :: ys => same x y && sameAll xs ys
  | _, _ => false

/-- Compares the first fields, so many of them. -/
def sameFields : Nat → List (String × Item) → List (String × Item) → Bool
  | count + 1, (_, x) :: fs, (_, y) :: gs => same x y && sameFields count fs gs
  | _, _, _ => true
termination_by structural _ fs => fs

end

/-- Equality of two objects. By itself, a value that is not a number does not even equal itself. -/
def equal : Item → Item → Bool
  | .plain (.float x), .plain (.float y) => x.toNumber.same y.toNumber
  | x, y => x.same y

end Item

/-! ### Typed objects as items -/

/-- What something typed becomes, and what stands in its place. -/
def Slot.toItem {α β : Type} (item : α → Item) : Slot α β → Item
  | .plain v => .ofValue v
  | .filled a => item a
  | .foreign x => .plain x.value

def Operator.toItem : Operator → Item
  | .plain v => .ofValue v
  | .known c => .comparison c

namespace Item

/-- A record whose number is still to be given. -/
def make (kind : Kind) (parts : List Item) : Item := .record kind 0 (kind.fields.zip parts)

end Item

def Bounds.toItem (b : Bounds) : Item := .make .bounds [.ofValue b.lower, .ofValue b.upper]

def Percent.toItem (p : Percent) : Item :=
  .make .percent [.ofValue p.seed, p.operator.toItem, .ofValue p.threshold,
    p.range.toItem Bounds.toItem]

mutual

def Condition.toItem : Condition → Item
  | .plain v => .ofValue v
  | .foreign x => .plain x.value
  | .node ⟨anyOf, allOf, always, never, percent, leftover⟩ =>
    .make .condition [Group.toItem .anyOf anyOf, Group.toItem .allOf allOf, .ofValue always,
      .ofValue never, percent.toItem Percent.toItem, .ofValue leftover]

def Group.toItem (kind : Kind) : Group Condition → Item
  | .plain v => .ofValue v
  | .filled m => .make kind [Members.toItem m]
  | .foreign x => .plain x.value

def Members.toItem : Members Condition → Item
  | .loose v => .ofValue v
  | .of cs => .list (conditionItems cs)

def conditionItems : List Condition → List Item
  | [] => []
  | c :: rest => Condition.toItem c :: conditionItems rest

end

def Named.toItem (n : Named) : Item := .make .named [.ofValue n.name, n.condition.toItem]

def Context.toItem (c : Context) : Item := .make .context [.ofValue c.id, .ofValue c.attributes]

end Targeting
