import Targeting.Proofs.Nesting

/-!
When a percent test has an answer. It needs a comparison, an id, a bucket and a verdict, and it has
the answer of the verdict then; in all else it fails. A test with the numbers that its comparison
needs asks whether the bucket lies in a piece of the line, and always has a verdict.
-/

namespace Targeting

namespace Run

variable {α β : Type}

@[simp] theorem ofExcept_outcome (x : Except Fault α) : (ofExcept x).outcome = x := by
  cases x <;> rfl

@[simp] theorem ofExcept_ok_bind (a : α) (f : α → Run β) : (ofExcept (.ok a) >>= f) = f a := rfl

/-- A run that goes on has an answer only by the answers of both its parts. -/
theorem bind_outcome_eq_ok {r : Run α} {f : α → Run β} {b : β} :
    (r >>= f).outcome = .ok b ↔ ∃ a, r.outcome = .ok a ∧ (f a).outcome = .ok b := by
  rcases r with ⟨_ | a, h, l⟩ <;> simp

end Run

theorem Operator.truthy_of_comparison? {o : Operator} {c : Comparison}
    (h : o.comparison? = some c) : o.truthy = true := by
  cases o with
  | known d => rfl
  | plain v =>
    cases v with
    | str s =>
      have hs : c.word = s := Comparison.word_of_ofWord? h
      subst hs
      cases c <;> decide
    | _ => cases h

namespace Percent

variable {p : Percent}

theorem verdict_lessOrEqual (h : p.operator.comparison? = some .lessOrEqual) (b : Numeral) :
    p.verdict b = .ok (p.threshold.number?.map b.toNumber.le) := by
  rw [verdict, h]

theorem verdict_greaterThan (h : p.operator.comparison? = some .greaterThan) (b : Numeral) :
    p.verdict b = .ok (p.threshold.number?.map fun t => t.lt b.toNumber) := by
  rw [verdict, h]

theorem verdict_between (h : p.operator.comparison? = some .between) (b : Numeral) :
    p.verdict b = p.range.contains? b.toNumber := by
  rw [verdict, h]

theorem comparison?_of_verdict {b : Numeral} {x : Bool} (h : p.verdict b = .ok (some x)) :
    p.operator.comparison? = some .lessOrEqual ∨ p.operator.comparison? = some .greaterThan ∨
      p.operator.comparison? = some .between := by
  unfold verdict at h
  split at h
  · exact Or.inl ‹_›
  · exact Or.inr (Or.inl ‹_›)
  · exact Or.inr (Or.inr ‹_›)
  · cases h

end Percent

theorem Bounds.contains?_eq_some {b : Bounds} {bucket : Number} {x : Bool} :
    b.contains? bucket = some x ↔ ∃ l u, b.lower.number? = some l ∧ b.upper.number? = some u ∧
      (l.lt bucket && bucket.le u) = x := by
  unfold contains?
  cases b.lower.number? <;> cases b.upper.number? <;> simp

/-! ### Usable tests -/

/-- A piece of the line of numbers. -/
inductive Arm where
  | upTo (a : Number)
  | between (a b : Number)
  | above (a : Number)
  deriving DecidableEq, Repr

namespace Arm

def contains : Arm → Number → Bool
  | upTo a, x => x.le a
  | between a b, x => a.lt x && x.le b
  | above a, x => a.lt x

end Arm

/-- A test that asks whether a bucket lies in a piece. Its other parts may be anything. -/
def Percent.AsksFor (p : Percent) : Arm → Prop
  | .upTo a => p.operator.comparison? = some .lessOrEqual ∧ p.threshold.number? = some a
  | .between a b => p.operator.comparison? = some .between ∧
    ∃ r, p.range = .filled r ∧ r.lower.number? = some a ∧ r.upper.number? = some b
  | .above a => p.operator.comparison? = some .greaterThan ∧ p.threshold.number? = some a

namespace Percent.AsksFor

variable {p : Percent} {arm : Arm}

theorem operator (h : p.AsksFor arm) : p.operator.truthy = true := by
  cases arm <;> exact Operator.truthy_of_comparison? h.1

theorem verdict (h : p.AsksFor arm) (b : Numeral) :
    p.verdict b = .ok (some (arm.contains b.toNumber)) := by
  cases arm with
  | upTo a =>
    rw [verdict_lessOrEqual h.1, h.2]
    rfl
  | between l u =>
    obtain ⟨r, hr, hl, hu⟩ := h.2
    rw [verdict_between h.1, hr, Range.contains?_filled,
      Bounds.contains?_eq_some.mpr ⟨l, u, hl, hu, rfl⟩]
    rfl
  | above a =>
    rw [verdict_greaterThan h.1, h.2]
    rfl

end Percent.AsksFor

namespace Evaluator

variable {E : Evaluator} {context : Slot Context}

theorem bucket_outcome_eq_ok {seed id : Value} {b : Numeral} :
    (E.bucket seed id).outcome = .ok b ↔
      E.buckets.remainder? (E.fingerprinter.hash (saltedId seed id)) = some b := by
  unfold bucket
  cases h : E.buckets.remainder? (E.fingerprinter.hash (saltedId seed id)) <;>
    simp [Run.hash_bind, Run.fail, h]

theorem evaluatePercent_outcome_eq_ok {p : Percent} {x : Bool} :
    (E.evaluatePercent context (.filled p)).outcome = .ok x ↔
      p.operator.truthy = true ∧ ∃ c, Context.coerce context = .ok c ∧ c.id.truthy = true ∧
        ∃ b, E.buckets.remainder? (E.fingerprinter.hash (saltedId p.seed c.id)) = some b ∧
          p.verdict b = .ok (some x) := by
  have hrejected : (Run.ofExcept p.encode >>= fun v =>
      Run.note (.percentRejected v) >>= fun _ => Run.fail .invalidOperator).outcome ≠ .ok x := by
    cases p.encode <;> simp [Run.ofExcept, Run.done, Run.fail, Run.note_bind]
  rw [evaluatePercent_filled]
  constructor
  · intro h
    split at h
    · cases h
    rename_i ho
    obtain ⟨c, hc, h⟩ := Run.bind_outcome_eq_ok.mp h
    split at h
    · cases h
    rename_i hi
    obtain ⟨b, hb, h⟩ := Run.bind_outcome_eq_ok.mp h
    obtain ⟨answer, hv, h⟩ := Run.bind_outcome_eq_ok.mp h
    cases answer with
    | none => exact absurd h hrejected
    | some y =>
      cases h
      exact ⟨by simpa using ho, c, by simpa using hc, by simpa using hi, b,
        bucket_outcome_eq_ok.mp hb, by simpa using hv⟩
  · rintro ⟨ho, c, hc, hi, b, hb, hv⟩
    rw [ho, if_neg (by decide)]
    refine Run.bind_outcome_eq_ok.mpr ⟨c, by simpa using hc, ?_⟩
    rw [hi, if_neg (by decide)]
    refine Run.bind_outcome_eq_ok.mpr ⟨b, bucket_outcome_eq_ok.mpr hb, ?_⟩
    exact Run.bind_outcome_eq_ok.mpr ⟨some x, by simpa using hv, rfl⟩

theorem evaluatePercent_of_asksFor {p : Percent} {arm : Arm} {c : Context} {b : Numeral}
    (hp : p.AsksFor arm) (hc : Context.coerce context = .ok c) (hi : c.id.truthy = true)
    (hb : E.buckets.remainder? (E.fingerprinter.hash (saltedId p.seed c.id)) = some b) :
    (E.evaluatePercent context (.filled p)).outcome = .ok (arm.contains b.toNumber) :=
  evaluatePercent_outcome_eq_ok.mpr ⟨hp.operator, c, hc, hi, b, hb, hp.verdict b⟩

end Evaluator

end Targeting
