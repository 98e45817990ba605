import Targeting.Fault

/-!
The kinds of objects that a session can hold, each with the fields that all its objects have.
-/

namespace Targeting

inductive Kind where
  | condition
  | anyOf
  | allOf
  | percent
  | bounds
  | named
  | context
  deriving DecidableEq, Repr

namespace Kind

def all : List Kind := [.condition, .anyOf, .allOf, .percent, .bounds, .named, .context]

def name : Kind → String
  | .condition => "ServerCondition"
  | .anyOf => "OrCondition"
  | .allOf => "AndCondition"
  | .percent => "PercentCondition"
  | .bounds => "MicroPercentRange"
  | .named => "NamedCondition"
  | .context => "EvaluationContext"

def ofName? (s : String) : Option Kind := all.find? fun k => k.name == s

def fields : Kind → List String
  | .condition => ["or_condition", "and_condition", "true", "false", "percent", "unknown"]
  | .anyOf | .allOf => ["conditions"]
  | .percent => ["seed", "operator", "micro_percent", "micro_percent_range"]
  | .bounds => ["micro_percent_lower_bound", "micro_percent_upper_bound"]
  | .named => ["name", "condition"]
  | .context => ["id", "attributes"]

/-- The fields without which no object of the kind is made. -/
def required : Kind → List String
  | .named => ["name", "condition"]
  | _ => []

/-- Whether a field can be assigned; most kinds take fields beside their own. -/
def admits (k : Kind) (field : String) : Bool := k ≠ .context || k.fields.contains field

/-- Checks what an object of the kind is to be made from. -/
def check (k : Kind) (given : Fields) : Except Fault Unit := do
  match (given.map (·.1)).find? fun key => !(k.fields.map Key.str).contains key with
  | some key => throw (.unexpectedField key)
  | none => pure ()
  match k.required.find? fun name => (Fields.find? (.str name) given).isNone with
  | some name => throw (.requiredField name)
  | none => pure ()

end Kind

end Targeting
