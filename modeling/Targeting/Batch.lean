import Targeting.Evaluator

/-!
Named conditions and their evaluation as a batch. Results stand in the order of the first mention of
their names; a name mentioned again changes the result and not the place. One failure ends the batch
without results.
-/

namespace Targeting

structure Named where
  name : Value
  condition : Condition

namespace Named

def make (name : Value) (condition : Condition) : Except Fault Named :=
  if name.truthy then .ok ⟨name, condition⟩ else .error .emptyName

def ofValue : Value → Except Fault Named
  | .object fs =>
    match Fields.find? "name" fs with
    | none => .error (.missingField "name")
    | some name => make name (.decode (Fields.get "condition" fs))
  | v => .error (.notEntry v)

/-- An entry of a batch as it is, a plain one converted. -/
def coerce : Slot Named → Except Fault Named
  | .filled n => .ok n
  | .plain v => ofValue v
  | .foreign x => .error (.notEntry x.value)

def encode (n : Named) : Except Fault Value := do
  return .object [("name", n.name), ("condition", ← n.condition.encode)]

end Named

/-- Results by name, where names that are one key are one name. -/
abbrev Results := List (Key × Bool)

namespace Results

def put (name : Key) (answer : Bool) : Results → Results
  | [] => [(name, answer)]
  | (n, a) :: rest =>
    if n.same name then (n, answer) :: rest else (n, a) :: put name answer rest

end Results

namespace Evaluator

/-- Evaluates the entries from left to right, adding to the results so far. -/
def collect (E : Evaluator) (context : Slot Context) : Results → List (Slot Named) → Run Results
  | results, [] => return results
  | results, entry :: rest => do
    let n ← Run.ofExcept (Named.coerce entry)
    let answer ← E.evaluate n.condition context (.int 0)
    let name ← Run.ofExcept n.name.toKey
    collect E context (results.put name answer) rest

/-- The entries of a batch: as listed, or what a loop over a plain value visits. -/
def entries : Slot (List (Slot Named)) → Except Fault (List (Slot Named))
  | .filled es => .ok es
  | .plain v => do return (← v.toElements).map .plain
  | .foreign x => .error (.notIterable x.value)

def evaluateAll (E : Evaluator) (batch : Slot (List (Slot Named))) (context : Slot Context) :
    Run Results := do
  let c ← Run.ofExcept (Context.coerce context)
  let results ← E.collect (.filled c) [] (← Run.ofExcept (entries batch))
  Run.note (.evaluated results.length c.id)
  return results

end Evaluator

end Targeting
