import Targeting.Item

/-!
What an item amounts to where something typed is asked for. A record is the typed object of its own
kind. Everywhere else it is an object of another kind, which serves by the fields it has in common
with the kind that is asked for. A plain value stays one. The views of an item are made from the
views of its parts, and the wire form of an object is that of its own kind, wherever it stands.
-/

namespace Targeting

/-- An item as each of its possible places takes it: a plain value, an operator, the members of a
group, a group, and so on. `look` is what it answers when it is asked for a field by key, and `wire`
what it becomes when it is written. -/
structure View where
  value : Value
  operator : Operator
  members : Members Condition
  group : Group Condition
  condition : Condition
  range : Range
  percent : Test
  named : Slot Named
  context : Slot Context
  look : Value → Value → Except Fault Value
  wire : Except Fault Value

namespace View

/-! What objects are asked to do. A field of one of these names stands before it. -/

def writing : String := "to_dict"

def listing : String := "items"

def looking : String := "get"

def ofValue (v : Value) : View where
  value := v
  operator := .plain v
  members :=
    match v with
    | .array vs => .of (vs.map .plain)
    | v => .loose v
  group := .plain v
  condition := .plain v
  range := .plain v
  percent := .plain v
  named := .plain v
  context := .plain v
  look := v.look
  wire := .error (.untyped v)

/-- The elements of a list can be conditions, which makes it the members of a group. -/
def ofList (parts : List View) : View :=
  { ofValue (.array (parts.map (·.value))) with members := .of (parts.map (·.condition)) }

instance : Inhabited View := ⟨ofValue .null⟩

/-- What an object answers that cannot do what it is asked to. -/
def refuse {α : Type} (field? : String → Option View) (name : String) (f : Fault) :
    Except Fault α :=
  .error (if (field? name).isSome then .hidden name else f)

/-- An object where none of its kind is asked for, with the views of the fields that it has. -/
def ofForeign (token : Token) (wire : Except Fault Value) (field? : String → Option View) : View :=
  let value := Value.foreign token
  let part (name : String) : Option Value := (field? name).map (·.value)
  let having {β : Type} (parts : β) : Foreign β :=
    ⟨token, refuse field? listing (.notObject value), wire, parts⟩
  { value
    operator := .plain value
    members := .loose value
    group := .foreign (having ((field? "conditions").map (·.members)))
    condition := .foreign (having ())
    range := .foreign (having
      { lower := part "micro_percent_lower_bound"
        upper := part "micro_percent_upper_bound" })
    percent := .foreign (having
      { seed := part "seed"
        operator := (field? "operator").map (·.operator)
        threshold := part "micro_percent"
        range := (field? "micro_percent_range").map (·.range) })
    named := .foreign (having ())
    context := .foreign (having ())
    look := fun _ _ => refuse field? looking (.untyped value)
    wire }

/-! The typed objects that a record of each kind is, from the views of its fields. -/

section Typed

variable (field : String → View)

def nodeOf : Node Condition where
  anyOf := (field "or_condition").group
  allOf := (field "and_condition").group
  always := (field "true").value
  never := (field "false").value
  percent := (field "percent").percent
  leftover := (field "unknown").value

def groupOf : Group Condition := .filled (field "conditions").members

def percentOf : Percent where
  seed := (field "seed").value
  operator := (field "operator").operator
  threshold := (field "micro_percent").value
  range := (field "micro_percent_range").range

def boundsOf : Bounds where
  lower := (field "micro_percent_lower_bound").value
  upper := (field "micro_percent_upper_bound").value

def namedOf : Named where
  name := (field "name").value
  condition := (field "condition").condition

def contextOf : Context where
  id := (field "id").value
  attributes := (field "attributes").value

end Typed

/-- The view of a record. Among plain values it is known by its kind, and a context by its own text
and its number. -/
def ofRecord (kind : Kind) (number : Nat) (field? : String → Option View) : View :=
  let field (name : String) : View := (field? name).getD default
  match kind with
  | .condition =>
    let n := nodeOf field
    { ofForeign ⟨kind.name, none⟩ n.encode field? with condition := .node n }
  | .anyOf | .allOf =>
    let g := groupOf field
    { ofForeign ⟨kind.name, none⟩ g.encode field? with group := g }
  | .percent =>
    let p := percentOf field
    { ofForeign ⟨kind.name, none⟩ p.encode field? with percent := .filled p }
  | .bounds =>
    let b := boundsOf field
    { ofForeign ⟨kind.name, none⟩ (.ok b.encode) field? with range := .filled b }
  | .named =>
    let n := namedOf field
    { ofForeign ⟨kind.name, none⟩ n.encode field? with named := .filled n }
  | .context =>
    let c := contextOf field
    { ofForeign ⟨c.text, some number⟩ c.encode field? with
      context := .filled c
      look := Context.select c.id (field "attributes").look }

/-- The view of a record with a field of that name, which keeps it from being written. It serves as
before, part by part; what a condition has left over becomes something that cannot be written. -/
def ofHidden (kind : Kind) (field? : String → Option View) : View :=
  let field (name : String) : View := (field? name).getD default
  let v := ofForeign ⟨kind.name, none⟩ (.error (.hidden writing)) field?
  match kind with
  | .condition => { v with condition := .node { nodeOf field with leftover := v.value } }
  | .named => { v with named := .filled (namedOf field) }
  | _ => v

end View

namespace Item

mutual

def view : Item → View
  | .plain v => .ofValue v
  | .list xs => .ofList (viewAll xs)
  | .comparison c => { View.ofValue (.str c.word) with operator := .known c }
  | .record kind number fs =>
    let parts := viewFields fs
    let field? (name : String) : Option View := parts.lookup name
    if (field? View.writing).isSome then .ofHidden kind field? else .ofRecord kind number field?

def viewAll : List Item → List View
  | [] => []
  | x :: rest => view x :: viewAll rest

def viewFields : List (String × Item) → List (String × View)
  | [] => []
  | (name, x) :: rest => (name, view x) :: viewFields rest

end

end Item

end Targeting
