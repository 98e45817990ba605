import Targeting.Comparison
import Targeting.Slot

/-!
Percent tests: whether the bucket of an instance lies on the wanted side of a threshold, or between
two bounds of which the lower one is excluded. Only the comparison is brought into order when a
test is made; every other part keeps whatever value it was given. What stands where a test or its
bounds belong is read part by part, so an object of another kind will do if it has the parts.
-/

namespace Targeting

/-- The lower bound is excluded and the upper one included. -/
structure Bounds where
  lower : Value
  upper : Value
  deriving Repr

namespace Bounds

def ofFields (fs : Fields) : Bounds :=
  ⟨fs.get "microPercentLowerBound", fs.get "microPercentUpperBound"⟩

def ofValue : Value → Except Fault Bounds
  | .object fs => .ok (ofFields fs)
  | v => .error (.notObject v)

def encode (b : Bounds) : Value :=
  .object (Fields.given "microPercentLowerBound" b.lower ++
    Fields.given "microPercentUpperBound" b.upper)

/-- Whether a bucket lies within; without two numbers there is no answer. -/
def contains? (b : Bounds) (bucket : Number) : Option Bool := do
  let lower ← b.lower.number?
  let upper ← b.upper.number?
  some (lower.lt bucket && bucket.le upper)

/-- What an object of another kind has of the two bounds. -/
structure Parts where
  lower : Option Value
  upper : Option Value
  deriving Repr

end Bounds

/-- What stands where bounds belong. -/
abbrev Range := Slot Bounds Bounds.Parts

namespace Range

def lower (r : Range) : Except Fault Value := r.part (·.lower) (·.lower)

def upper (r : Range) : Except Fault Value := r.part (·.upper) (·.upper)

/-- Whether a bucket lies within. The upper bound is looked at only if the lower one is a number. -/
def contains? (r : Range) (bucket : Number) : Except Fault (Option Bool) :=
  if !r.isSet then .ok none
  else do
    match (← r.lower).number? with
    | none => return none
    | some lower =>
      let upper ← r.upper
      return upper.number?.map fun upper => lower.lt bucket && bucket.le upper

@[simp] theorem contains?_unset (bucket : Number) : contains? .unset bucket = .ok none := rfl

@[simp] theorem contains?_filled (b : Bounds) (bucket : Number) :
    contains? (.filled b) bucket = .ok (b.contains? bucket) := by
  cases hl : b.lower.number? <;> cases hu : b.upper.number? <;>
    simp [contains?, lower, upper, Slot.isSet, Bounds.contains?, hl, hu, bind, Except.bind, pure,
      Except.pure]

end Range

structure Percent where
  seed : Value
  operator : Operator
  threshold : Value
  range : Range

namespace Percent

def make (seed : Value) (operator : Operator) (threshold : Value) (range : Range) : Percent :=
  ⟨seed, operator.settle, threshold, range⟩

/-- A range that is no object counts as none. -/
def rangeOf : Value → Range
  | .object fs => .filled (.ofFields fs)
  | _ => .unset

def ofFields (fs : Fields) : Percent :=
  make (fs.get "seed") (.plain (fs.get "operator")) (fs.get "microPercent")
    (rangeOf (fs.get "microPercentRange"))

def ofValue : Value → Except Fault Percent
  | .object fs => .ok (ofFields fs)
  | v => .error (.notObject v)

def encode (p : Percent) : Except Fault Value := do
  let range ← p.range.encode fun b => .ok b.encode
  return .object (Fields.given "seed" p.seed ++ Fields.given "operator" p.operator.value ++
    Fields.given "microPercent" p.threshold ++ Fields.given "microPercentRange" range)

/-- The answer for a bucket, none where the comparison lacks its numbers or there is no such
comparison. -/
def verdict (p : Percent) (bucket : Numeral) : Except Fault (Option Bool) :=
  let b := bucket.toNumber
  match p.operator.comparison? with
  | some .lessOrEqual => .ok (p.threshold.number?.map b.le)
  | some .greaterThan => .ok (p.threshold.number?.map fun t => t.lt b)
  | some .between => p.range.contains? b
  | _ => .ok none

/-- What an object of another kind has of the parts of a test. -/
structure Parts where
  seed : Option Value
  operator : Option Operator
  threshold : Option Value
  range : Option Range

end Percent

/-- What stands where a percent test belongs. -/
abbrev Test := Slot Percent Percent.Parts

namespace Test

def seed (t : Test) : Except Fault Value := t.part (·.seed) (·.seed)

def operator (t : Test) : Except Fault Operator := t.part (·.operator) (·.operator)

def threshold (t : Test) : Except Fault Value := t.part (·.threshold) (·.threshold)

def range (t : Test) : Except Fault Range := t.part (·.range) (·.range)

def encode (t : Test) : Except Fault Value := Slot.encode Percent.encode t

end Test

end Targeting
