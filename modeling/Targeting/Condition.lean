import Targeting.Percent

/-!
Condition trees. A node may have several variants set at once, and the first one set in a fixed
order decides what it means. Wherever a typed part belongs, something else may stand instead: a
plain value as an element of a group is decoded when it is reached, and an object of another kind
serves as a group or a test as far as it has the parts of one.
-/

namespace Targeting

/-- The members of a group: a list of them or a plain value in its place, null if they were never
given. -/
inductive Members (α : Type) where
  | loose (v : Value)
  | of (list : List α)

/-- A node. The values beside the typed parts are the two literals and the wire fields that form no
variant. -/
structure Node (α : Type) where
  anyOf : Slot (Members α) (Option (Members α))
  allOf : Slot (Members α) (Option (Members α))
  always : Value
  never : Value
  percent : Test
  leftover : Value

/-- What stands where a group belongs. Members are all that an evaluation wants of it. -/
abbrev Group (α : Type) := Slot (Members α) (Option (Members α))

inductive Condition where
  | plain (v : Value)
  | foreign (x : Foreign)
  | node (n : Node Condition)

namespace Members

variable {α : Type}

/-- Those that are listed. -/
def listed : Members α → List α
  | .loose _ => []
  | .of ms => ms

/-- Those an evaluation visits. A plain value counts as one element each for what a loop over it
visits, unless it is empty or not given. -/
def visited (ofValue : Value → α) : Members α → Except Fault (List α)
  | .loose v => if v.truthy then return (← v.toElements).map ofValue else return []
  | .of ms => .ok ms

end Members

namespace Group

variable {α : Type}

def of (members : List α) : Group α := .filled (.of members)

def loose (v : Value) : Group α := .filled (.loose v)

def members (g : Group α) : Except Fault (Members α) := g.part id id

/-- The members that are listed. -/
def listed : Group α → List α
  | .plain _ => []
  | .filled m => m.listed
  | .foreign ⟨_, _, _, some m⟩ => m.listed
  | .foreign ⟨_, _, _, none⟩ => []

end Group

/-- What a node means. -/
inductive Variant (α : Type) where
  | anyOf (g : Group α)
  | allOf (g : Group α)
  | always
  | never
  | percent (t : Test)
  | unknown

namespace Node

variable {α : Type}

def empty : Node α := ⟨.unset, .unset, .null, .null, .unset, .null⟩

instance : Inhabited (Node α) := ⟨empty⟩

def ofAny (members : List α) : Node α := { (empty : Node α) with anyOf := Group.of members }

def ofAll (members : List α) : Node α := { (empty : Node α) with allOf := Group.of members }

def literal (v : Value) : Node α :=
  if v.truthy then { (empty : Node α) with always := .bool true }
  else { (empty : Node α) with never := .bool true }

def variant (n : Node α) : Variant α :=
  if n.anyOf.isSet then .anyOf n.anyOf
  else if n.allOf.isSet then .allOf n.allOf
  else if n.always.truthy then .always
  else if n.never.truthy then .never
  else if n.percent.isSet then .percent n.percent
  else .unknown

end Node

instance : Inhabited Condition := ⟨.node .empty⟩

/-- Elements of a plain collection are conditions still to be decoded. -/
def Group.conditions (g : Group Condition) : Except Fault (List Condition) := do
  (← g.members).visited .plain

mutual

/-- An upper bound for how deep groups are nested in a condition, decoded ones included. -/
def Condition.height : Condition → Nat
  | .plain v => v.height
  | .foreign _ => 0
  | .node ⟨anyOf, allOf, _, _, _, _⟩ => max (Group.height anyOf) (Group.height allOf)

def Group.height : Group Condition → Nat
  | .plain _ => 0
  | .filled m => Members.height m + 1
  | .foreign ⟨_, _, _, some m⟩ => Members.height m + 1
  | .foreign ⟨_, _, _, none⟩ => 0

def Members.height : Members Condition → Nat
  | .loose v => v.height
  | .of cs => heightAll cs

def heightAll : List Condition → Nat
  | [] => 0
  | c :: rest => max (Condition.height c) (heightAll rest)

end

mutual

/-- What holds of all that is no node, and of a node once it holds of the listed members of its
groups, holds of every condition. -/
theorem Condition.induction {motive : Condition → Prop} (plain : ∀ v, motive (.plain v))
    (foreign : ∀ x, motive (.foreign x))
    (node : ∀ n, (∀ c ∈ Group.listed n.anyOf, motive c) → (∀ c ∈ Group.listed n.allOf, motive c) →
      motive (.node n)) : (c : Condition) → motive c
  | .plain v => plain v
  | .foreign x => foreign x
  | .node ⟨anyOf, allOf, _, _, _, _⟩ =>
    node _ (Group.induction_listed plain foreign node anyOf)
      (Group.induction_listed plain foreign node allOf)

theorem Group.induction_listed {motive : Condition → Prop} (plain : ∀ v, motive (.plain v))
    (foreign : ∀ x, motive (.foreign x))
    (node : ∀ n, (∀ c ∈ Group.listed n.anyOf, motive c) → (∀ c ∈ Group.listed n.allOf, motive c) →
      motive (.node n)) : (g : Group Condition) → ∀ c ∈ g.listed, motive c
  | .plain _ => by simp [Group.listed]
  | .filled m => Members.induction_listed plain foreign node m
  | .foreign ⟨_, _, _, some m⟩ => Members.induction_listed plain foreign node m
  | .foreign ⟨_, _, _, none⟩ => by simp [Group.listed]

theorem Members.induction_listed {motive : Condition → Prop} (plain : ∀ v, motive (.plain v))
    (foreign : ∀ x, motive (.foreign x))
    (node : ∀ n, (∀ c ∈ Group.listed n.anyOf, motive c) → (∀ c ∈ Group.listed n.allOf, motive c) →
      motive (.node n)) : (m : Members Condition) → ∀ c ∈ m.listed, motive c
  | .loose _ => by simp [Members.listed]
  | .of cs => induction_members plain foreign node cs

theorem induction_members {motive : Condition → Prop} (plain : ∀ v, motive (.plain v))
    (foreign : ∀ x, motive (.foreign x))
    (node : ∀ n, (∀ c ∈ Group.listed n.anyOf, motive c) → (∀ c ∈ Group.listed n.allOf, motive c) →
      motive (.node n)) : (cs : List Condition) → ∀ c ∈ cs, motive c
  | [] => by simp
  | c :: rest => by
    simpa using ⟨Condition.induction plain foreign node c,
      induction_members plain foreign node rest⟩

end

end Targeting
