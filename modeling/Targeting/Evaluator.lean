import Targeting.Condition.Wire
import Targeting.Context
import Targeting.Fingerprint
import Targeting.Run
import Targeting.Value.Equality

/-!
Deciding a condition for one instance. The instance falls into one of a fixed number of buckets by
the fingerprint of its id, salted by the seed of the test; groups are tried member by member and
left as soon as they are decided. Nesting is limited: a node at the limit is false, whatever it is.
-/

namespace Targeting

structure Fingerprinter where
  name : String
  hash : String → Nat

def Fingerprinter.standard : Fingerprinter := ⟨"FarmHashFingerprinter()", Fingerprint.ofText⟩

/-- `buckets` is how many buckets instances fall into: a hundred percent in millionths. -/
structure Evaluator where
  fingerprinter : Fingerprinter := .standard
  maxDepth : Numeral := .int 10
  buckets : Numeral := .int (100 * 1000000)

/-- Counts the levels from one that is below the limit up to the limit, but at most so many. -/
def countLevels (limit : Numeral) : Nat → Numeral → Nat
  | 0, _ => 0
  | bound + 1, level =>
    if limit.toNumber.le level.toNumber then 0 else countLevels limit bound level.succ + 1

/-- How many levels are left below a limit. Between integers that is their distance; any other
limit may never be reached, so the count goes no further than the bound. -/
def levelsLeft (limit level : Numeral) (bound : Nat) : Nat :=
  match limit, level with
  | .int m, .int l => (m - l).toNat
  | limit, level => countLevels limit bound level

/-- Tries the elements in order and stops at the first that answers `stop`. -/
def sweep {α : Type} (stop : Bool) (judge : α → Run Bool) : List α → Run Bool
  | [] => return !stop
  | a :: rest => do
    if (← judge a) == stop then return stop else sweep stop judge rest

section Sweep

variable {α : Type} {stop : Bool} {judge : α → Run Bool} {a : α} {rest : List α}

@[simp] theorem sweep_nil : sweep stop judge [] = ⟨.ok !stop, [], []⟩ := rfl

theorem sweep_cons : sweep stop judge (a :: rest) =
    judge a >>= fun b => if b == stop then pure stop else sweep stop judge rest := rfl

theorem sweep_cons_of_stop (h : (judge a).outcome = .ok stop) :
    sweep stop judge (a :: rest) = judge a := by
  rcases hr : judge a with ⟨o, hs, l⟩
  simp_all [sweep_cons]

theorem sweep_cons_of_error {e : Fault} (h : (judge a).outcome = .error e) :
    sweep stop judge (a :: rest) = judge a := by
  rcases hr : judge a with ⟨o, hs, l⟩
  simp_all [sweep_cons]

theorem sweep_cons_of_pass (h : (judge a).outcome = .ok !stop) :
    sweep stop judge (a :: rest) =
      ⟨(sweep stop judge rest).outcome, (judge a).hashed ++ (sweep stop judge rest).hashed,
        (judge a).log ++ (sweep stop judge rest).log⟩ := by
  rcases hr : judge a with ⟨o, hs, l⟩
  cases stop <;> simp_all [sweep_cons]

end Sweep

namespace Evaluator

/-- The text that decides the bucket of an instance. -/
def saltedId (seed id : Value) : String :=
  (if seed.truthy then seed.text ++ "." else "") ++ id.text

/-- The bucket of an instance. The remainder is taken towards the floor. -/
def bucket (E : Evaluator) (seed id : Value) : Run Numeral := do
  let text := saltedId seed id
  Run.hash text
  match E.buckets.remainder? (E.fingerprinter.hash text) with
  | some b => return b
  | none => Run.fail .zeroModulus

/-- The comparison is looked at before the id, and both before anything is hashed. Each part of the
test is read only here, so one that is missing is found as late as it is needed. -/
def evaluatePercent (E : Evaluator) (context : Slot Context) (t : Test) : Run Bool := do
  let operator ← Run.ofExcept t.operator
  if !operator.truthy then Run.fail .invalidOperator
  else
    let c ← Run.ofExcept (Context.coerce context)
    if !c.id.truthy then Run.fail .missingId
    else
      let seed ← Run.ofExcept t.seed
      let b ← E.bucket seed c.id
      let threshold ← Run.ofExcept t.threshold
      let range ← Run.ofExcept t.range
      match ← Run.ofExcept (Percent.verdict ⟨seed, operator, threshold, range⟩ b) with
      | some answer => return answer
      | none => do
        Run.note (.percentRejected (← Run.ofExcept t.encode))
        Run.fail .invalidOperator

/-- Decides a condition with so many levels left, itself included. -/
def judge (E : Evaluator) (context : Slot Context) : Nat → Condition → Run Bool
  | 0, _ => do
    Run.note (.depthExceeded E.maxDepth)
    return false
  | levels + 1, c =>
    match c.toNode.variant with
    | .anyOf g => do sweep true (judge E context levels) (← Run.ofExcept g.conditions)
    | .allOf g => do sweep false (judge E context levels) (← Run.ofExcept g.conditions)
    | .always => return true
    | .never => return false
    | .percent t => E.evaluatePercent context t
    | .unknown => do
      Run.note (.unknownCondition (← Run.ofExcept c.toNode.encode))
      return false

/-- Decides a condition that stands at a given level of nesting. The limit matters only as far as
the condition is nested. -/
def evaluate (E : Evaluator) (c : Condition) (context : Slot Context) (level : Numeral) :
    Run Bool :=
  E.judge context (levelsLeft E.maxDepth level (c.height + 1)) c

/-- Decides a condition at whatever is given as a level. -/
def evaluateAt (E : Evaluator) (c : Condition) (context : Slot Context) (level : Value) :
    Run Bool :=
  match level.measure? with
  | some l => E.evaluate c context l
  | none => Run.fail (.notLevel level)

/-- A percent test that is one has all its parts. -/
theorem evaluatePercent_filled (E : Evaluator) (context : Slot Context) (p : Percent) :
    E.evaluatePercent context (.filled p) = (do
      if !p.operator.truthy then Run.fail .invalidOperator
      else
        let c ← Run.ofExcept (Context.coerce context)
        if !c.id.truthy then Run.fail .missingId
        else
          let b ← E.bucket p.seed c.id
          match ← Run.ofExcept (p.verdict b) with
          | some answer => return answer
          | none => do
            Run.note (.percentRejected (← Run.ofExcept p.encode))
            Run.fail .invalidOperator) := rfl

@[simp] theorem judge_zero (E : Evaluator) (context : Slot Context) (c : Condition) :
    E.judge context 0 c = ⟨.ok false, [], [.depthExceeded E.maxDepth]⟩ := rfl

theorem evaluate_int {E : Evaluator} {limit : Int} (h : E.maxDepth = .int limit) (level : Int)
    (c : Condition) (context : Slot Context) :
    E.evaluate c context (.int level) = E.judge context (limit - level).toNat c := by
  rw [evaluate, h, levelsLeft]

/-- A plain value and what it decodes to are decided alike. -/
theorem judge_decode (E : Evaluator) (context : Slot Context) (levels : Nat) (v : Value) :
    E.judge context levels (.decode v) = E.judge context levels (.plain v) := by
  cases levels <;> rfl

/-- What an evaluator writes when it is set up. -/
def announce (E : Evaluator) : Run Unit := Run.note (.initialized E.fingerprinter.name)

end Evaluator

end Targeting
