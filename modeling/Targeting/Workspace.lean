import Targeting.Item.View

/-!
The named objects of a session. Names that are one key are one name. Two names may stand for one
object, and an object that was put inside another stays the same object: every place of it is stored
in full, and an assignment changes all of them.
-/

namespace Targeting

/-- `next` is a number that no record in use has. -/
structure Workspace where
  items : List (Key × Item)
  next : Nat

namespace Workspace

def empty : Workspace := ⟨[], 0⟩

def find (W : Workspace) (name : Key) : Except Fault Item :=
  match W.items.find? fun entry => entry.1.same name with
  | some (_, x) => .ok x
  | none => .error (.missingField name)

/-- Takes in an object that was made anew, as one of its own. -/
def adopt (W : Workspace) (x : Item) : Item × Workspace :=
  let (x, next) := x.renumber W.next
  (x, { W with next })

/-- Gives a name to an object, instead of the one it had. -/
def bind (W : Workspace) (name : Key) (x : Item) : Workspace :=
  { W with items := (name, x) :: W.items.filter fun entry => !entry.1.same name }

/-- What a path leads to from a named object. -/
def reach (W : Workspace) (name : Key) (path : List Value) : Except Fault Item := do
  path.foldlM Item.child (← W.find name)

/-- Assigns a field of the object with a number. -/
def revise (W : Workspace) (number : Nat) (field : String) (y : Item) : Workspace :=
  { W with items := W.items.map fun (name, x) => (name, x.revise number (Item.put field y)) }

/-- Assigns a field of what a path has led to. A comparison takes any field but its own, and nothing
shows it. -/
def assign (W : Workspace) (target : Item) (field : String) (y : Item) :
    Except Fault Workspace := do
  match target with
  | .comparison _ => if Comparison.fields.contains field then throw (.noField field) else return W
  | target => return W.revise (← target.owner field) field y

end Workspace

end Targeting
