import Targeting.Condition

/-!
Condition trees and the objects that spell them in a template. Decoding never fails: a variant whose
value has the wrong shape is not built, and its field is kept with those that name no variant.
Encoding fails where a plain value stands for a typed part; an object of another kind is encoded by
its own.
-/

namespace Targeting

namespace Node

def variantKeys : List Key := ["or", "and", "true", "false", "percent"]

/-- Whether a value has the shape of a group: an object whose members are a list or not given. -/
def isGroup : Value → Bool
  | .object fs =>
    match Fields.get "conditions" fs with
    | .null | .array _ => true
    | _ => false
  | _ => false

/-- Whether a value marks a literal as set. -/
def isLiteral (v : Value) : Bool := v.isObject || v.truthy

/-- Whether a field value is well shaped for the variant its key names. -/
def fits (key : Key) (v : Value) : Bool :=
  if key = .str "or" ∨ key = .str "and" then isGroup v
  else if key = .str "true" ∨ key = .str "false" then isLiteral v
  else v.isObject

/-- The field of a variant that is given in the wrong shape. -/
def misfit (fs : Fields) (key : Key) : Fields :=
  let v := fs.get key
  if v.isNull || fits key v then [] else [(key, v)]

/-- What decoding leaves over: the fields that name no variant, then the misfits. -/
def leftoverOf (fs : Fields) : Value :=
  match fs.without variantKeys ++ variantKeys.flatMap (misfit fs) with
  | [] => .null
  | rest => .object rest

def literalOf (v : Value) : Value := if isLiteral v then .bool true else .null

def percentOf : Value → Test
  | .object fs => .filled (.ofFields fs)
  | _ => .unset

/-- A node for a value that is no object. -/
def stray (v : Value) : Node Condition :=
  { (empty : Node Condition) with leftover := .object [("condition", v)] }

/-- A node from its fields, given the groups that they hold. -/
def assemble (fs : Fields) (anyOf allOf : Group Condition) : Node Condition :=
  { anyOf, allOf
    always := literalOf (fs.get "true")
    never := literalOf (fs.get "false")
    percent := percentOf (fs.get "percent")
    leftover := leftoverOf fs }

end Node

mutual

def Node.decode : Value → Node Condition
  | .null => .empty
  | .object fs => .assemble fs (decodeGroupAt "or" fs) (decodeGroupAt "and" fs)
  | v => .stray v

/-- The group in the field of this key. -/
def decodeGroupAt (key : Key) : List (Key × Value) → Group Condition
  | [] => .unset
  | (k, v) :: rest => if k.same key then decodeGroup v else decodeGroupAt key rest

/-- A group, unset where the value has not the shape of one. -/
def decodeGroup : Value → Group Condition
  | .object fs => decodeMembersIn fs
  | _ => .unset

def decodeMembersIn : List (Key × Value) → Group Condition
  | [] => Group.loose .null
  | (k, v) :: rest => if k.same "conditions" then decodeMembers v else decodeMembersIn rest

def decodeMembers : Value → Group Condition
  | .null => Group.loose .null
  | .array vs => Group.of (decodeAll vs)
  | _ => .unset

def decodeAll : List Value → List Condition
  | [] => []
  | v :: rest => .node (Node.decode v) :: decodeAll rest

end

namespace Condition

def decode (v : Value) : Condition := .node (.decode v)

/-- The node of a condition; what is no node is decoded. -/
def toNode : Condition → Node Condition
  | .plain v => .decode v
  | .foreign x => .decode x.value
  | .node n => n

end Condition

theorem decodeAll_eq_map (vs : List Value) : decodeAll vs = vs.map Condition.decode := by
  induction vs with
  | nil => rfl
  | cons v rest ih => simp [decodeAll, Condition.decode, ih]

theorem decodeGroupAt_eq (key : Key) (fs : Fields) :
    decodeGroupAt key fs = decodeGroup (fs.get key) := by
  induction fs with
  | nil => simp [decodeGroupAt, Fields.get, Fields.find?, decodeGroup]
  | cons f rest ih =>
    obtain ⟨k, v⟩ := f
    by_cases h : k.same key = true <;> simp_all [decodeGroupAt, Fields.get, Fields.find?]

theorem decodeMembersIn_eq (fs : Fields) :
    decodeMembersIn fs = decodeMembers (fs.get "conditions") := by
  induction fs with
  | nil => simp [decodeMembersIn, Fields.get, Fields.find?, decodeMembers]
  | cons f rest ih =>
    obtain ⟨k, v⟩ := f
    by_cases h : k = .str "conditions" <;> simp_all [decodeMembersIn, Fields.get, Fields.find?]

theorem Node.decode_object (fs : Fields) : Node.decode (.object fs) =
    .assemble fs (decodeGroup (fs.get "or")) (decodeGroup (fs.get "and")) := by
  rw [Node.decode, decodeGroupAt_eq, decodeGroupAt_eq]

theorem decodeGroup_object (fs : Fields) :
    decodeGroup (.object fs) = decodeMembers (fs.get "conditions") := by
  rw [decodeGroup, decodeMembersIn_eq]

theorem decodeGroup_isSet (v : Value) : (decodeGroup v).isSet = Node.isGroup v := by
  cases v with
  | object fs =>
    rw [decodeGroup_object, Node.isGroup]
    cases Fields.get "conditions" fs <;>
      simp [decodeMembers, Group.loose, Group.of, Slot.isSet, Slot.unset, Value.isNull]
  | _ => simp [decodeGroup, Node.isGroup, Slot.isSet, Slot.unset, Value.isNull]

/-- A group given by itself: its members may be anything that a loop can visit. -/
def Group.ofValue : Value → Except Fault (Group Condition)
  | .object fs =>
    match Fields.get "conditions" fs with
    | .null => .ok (Group.loose .null)
    | v => do return Group.of ((← v.toElements).map Condition.decode)
  | v => .error (.notObject v)

mutual

def Node.encode : Node Condition → Except Fault Value
  | ⟨anyOf, allOf, always, never, percent, leftover⟩ => do
    let fs ← if leftover.truthy then leftover.toFields else .ok []
    let fs ← if anyOf.isSet then (Group.encode anyOf).map (Fields.put "or" · fs) else .ok fs
    let fs ← if allOf.isSet then (Group.encode allOf).map (Fields.put "and" · fs) else .ok fs
    let fs := if always.truthy then Fields.put "true" (.object []) fs else fs
    let fs := if never.truthy then Fields.put "false" (.object []) fs else fs
    let fs ← if percent.isSet then percent.encode.map (Fields.put "percent" · fs) else .ok fs
    return .object fs

def Condition.encode : Condition → Except Fault Value
  | .plain v => .error (.untyped v)
  | .foreign x => x.wire
  | .node n => Node.encode n

def Group.encode : Group Condition → Except Fault Value
  | .plain v => .error (.untyped v)
  | .filled m => Members.encode m
  | .foreign x => x.wire

def Members.encode : Members Condition → Except Fault Value
  | .loose .null => .ok (.object [])
  | .loose v => do
    match ← v.toElements with
    | [] => return .object [("conditions", .array [])]
    | first :: _ => .error (.untyped first)
  | .of cs => do return .object [("conditions", .array (← encodeAll cs))]

def encodeAll : List Condition → Except Fault (List Value)
  | [] => .ok []
  | c :: rest => do
    let v ← Condition.encode c
    let vs ← encodeAll rest
    return v :: vs

end

theorem encodeAll_eq_mapM (cs : List Condition) : encodeAll cs = cs.mapM Condition.encode := by
  induction cs with
  | nil => rfl
  | cons c rest ih => rw [encodeAll, List.mapM_cons, ih]

end Targeting
