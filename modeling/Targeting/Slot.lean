import Targeting.Fault

/-!
A slot that is meant for something typed and may hold anything in its place: a plain value, or an
object of another kind. Such an object serves as far as it has the parts that are looked at, and is
written as what it is. A slot with null is not set.
-/

namespace Targeting

/-- An object of another kind than the one in question: its token, what it answers when its fields
are to be listed as those of a plain object, the wire form it has by its own kind, and what it has
of the wanted parts. -/
structure Foreign (β : Type := Unit) where
  token : Token
  listing : Except Fault Fields
  wire : Except Fault Value
  parts : β

namespace Foreign

variable {β : Type}

/-- What an object counts as among plain values. -/
def value (x : Foreign β) : Value := .foreign x.token

end Foreign

/-- `α` is what the slot is meant for, and `β` says which of its parts another object has. -/
inductive Slot (α : Type) (β : Type := Unit) where
  | plain (v : Value)
  | filled (a : α)
  | foreign (x : Foreign β)

namespace Slot

variable {α β γ : Type}

def unset : Slot α β := .plain .null

instance : Inhabited (Slot α β) := ⟨unset⟩

def isSet : Slot α β → Bool
  | .plain v => !v.isNull
  | _ => true

/-- What the slot is meant for; nothing else can stand in for it. -/
def typed : Slot α β → Except Fault α
  | .plain v => .error (.untyped v)
  | .filled a => .ok a
  | .foreign x => .error (.untyped x.value)

/-- One part of what the slot holds, which an object of another kind may lack. -/
def part (own : α → γ) (other : β → Option γ) : Slot α β → Except Fault γ
  | .plain v => .error (.untyped v)
  | .filled a => .ok (own a)
  | .foreign x =>
    match other x.parts with
    | some c => .ok c
    | none => .error (.untyped x.value)

@[simp] theorem part_filled (own : α → γ) (other : β → Option γ) (a : α) :
    (filled a).part own other = .ok (own a) := rfl

/-- The wire form of what the slot holds. Null has none, and counts as not given. -/
def encode (wire : α → Except Fault Value) : Slot α β → Except Fault Value
  | .plain .null => .ok .null
  | .plain v => .error (.untyped v)
  | .filled a => wire a
  | .foreign x => x.wire

end Slot

end Targeting
