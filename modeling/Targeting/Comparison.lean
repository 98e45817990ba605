import Targeting.Value.Identity

/-!
The comparisons of percent tests, and what is given for one. A word is brought into order when a
test is made; one that is assigned later stays as it is, and still counts as what it spells.
-/

namespace Targeting

inductive Comparison where
  | unknown
  | lessOrEqual
  | greaterThan
  | between
  deriving DecidableEq, Repr

namespace Comparison

/-- In the order they are listed to callers. -/
def all : List Comparison := [.unknown, .lessOrEqual, .greaterThan, .between]

def word : Comparison → String
  | .unknown => "UNKNOWN"
  | .lessOrEqual => "LESS_OR_EQUAL"
  | .greaterThan => "GREATER_THAN"
  | .between => "BETWEEN"

def ofWord? (s : String) : Option Comparison := all.find? fun c => c.word == s

/-- What can be read of a comparison, and never assigned. Each of them is its word. -/
def fields : List String := ["name", "value"]

theorem word_injective {c d : Comparison} (h : c.word = d.word) : c = d := by
  cases c <;> cases d <;> simp_all [word]

theorem ofWord?_word (c : Comparison) : ofWord? c.word = some c := by
  cases c <;> rfl

theorem word_of_ofWord? {s : String} {c : Comparison} (h : ofWord? s = some c) : c.word = s := by
  simpa using List.find?_some h

end Comparison

/-- The comparison of a test: one of the known ones, or a plain value as it was given. -/
inductive Operator where
  | plain (v : Value)
  | known (c : Comparison)
  deriving DecidableEq, Repr

namespace Operator

/-- A value that is not given stays what it is; a word of a comparison becomes that comparison, and
anything else the unknown one. -/
def settle : Operator → Operator
  | .known c => .known c
  | .plain (.str s) =>
    if s = "" then .plain (.str s) else .known ((Comparison.ofWord? s).getD .unknown)
  | .plain v => if v.truthy then .known .unknown else .plain v

def truthy : Operator → Bool
  | .known _ => true
  | .plain v => v.truthy

/-- The comparison an operator stands for; a plain word counts like the comparison it spells. -/
def comparison? : Operator → Option Comparison
  | .known c => some c
  | .plain (.str s) => Comparison.ofWord? s
  | .plain _ => none

def value : Operator → Value
  | .known c => .str c.word
  | .plain v => v

theorem truthy_settle (o : Operator) : o.settle.truthy = o.truthy := by
  cases o with
  | known c => rfl
  | plain v =>
    cases v with
    | str s => by_cases h : s = "" <;> simp [settle, truthy, Value.truthy, h]
    | _ => simp only [settle]; split <;> simp_all [truthy]

/-- Settling a word does not change which of the three usable comparisons it stands for. -/
theorem comparison?_settle (o : Operator) {c : Comparison} (hc : c ≠ .unknown) :
    o.settle.comparison? = some c ↔ o.comparison? = some c := by
  cases o with
  | known d => rfl
  | plain v =>
    cases v with
    | str s =>
      by_cases h : s = ""
      · simp [settle, h]
      · cases hw : Comparison.ofWord? s <;> simp [settle, comparison?, h, hw, Ne.symm hc]
    | _ => simp only [settle]; split <;> simp [comparison?, Ne.symm hc]

end Operator

end Targeting
