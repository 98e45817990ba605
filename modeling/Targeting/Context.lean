import Targeting.Slot

/-!
The instance that conditions are evaluated for. Only its id takes part; the attributes are carried
along for callers.
-/

namespace Targeting

structure Context where
  id : Value
  attributes : Value
  deriving Repr

namespace Context

def idKeys : List Key := ["id", "randomizationId"]

/-- Attributes that are not given become an empty object. -/
def make (id attributes : Value) : Context :=
  ⟨id, if attributes.truthy then attributes else .object []⟩

/-- The id comes from its own field or else from its alias; neither of the two is an attribute. -/
def ofFields (fs : Fields) : Context :=
  make ((fs.get "id").orElse (fs.get "randomizationId")) (.object (fs.without idKeys))

def ofValue : Value → Except Fault Context
  | .object fs => .ok (ofFields fs)
  | v => .error (.notObject v)

/-- A context as it is, anything else converted from its fields. -/
def coerce : Slot Context → Except Fault Context
  | .filled c => .ok c
  | .plain v => ofValue v
  | .foreign x => ofFields <$> x.listing

/-- A field by name, with a value for when it is missing: the id, which is missing if it is null, or
else what a look into the attributes gives. -/
def select (id : Value) (look : Value → Value → Except Fault Value) (key default : Value) :
    Except Fault Value :=
  match key with
  | .str "id" => .ok (id.orElse default)
  | key => look key default

def get (c : Context) : Value → Value → Except Fault Value := select c.id c.attributes.look

def encode (c : Context) : Except Fault Value := do
  let fs ← c.attributes.toFields
  return .object (if c.id.isNull then fs else Fields.put "id" c.id fs)

def text (c : Context) : String := "EvaluationContext(id=" ++ c.id.quoted ++ ")"

end Context

end Targeting
