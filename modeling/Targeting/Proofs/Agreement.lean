import Targeting.Proofs.Decoding
import Targeting.Proofs.Verdicts
import Mathlib.Data.List.Forall2

/-!
Two runs side by side. They agree through a map of answers if one has the answer of the other under
that map, or fails with the same fault, and hashes the same texts; what they write is not compared.
Agreement goes through sequels and sweeps, so two decisions agree as soon as their parts do.
-/

namespace Targeting

structure Run.Agrees (φ : Bool → Bool) (r s : Run Bool) : Prop where
  outcome : s.outcome = r.outcome.map φ
  hashed : s.hashed = r.hashed

variable {φ : Bool → Bool}

namespace Run.Agrees

theorem refl (r : Run Bool) : r.Agrees id r := ⟨(congrFun Except.map_id r.outcome).symm, rfl⟩

theorem pure (x : Bool) : Agrees φ (Pure.pure x) (Pure.pure (φ x)) := ⟨rfl, rfl⟩

theorem fail (e : Fault) : Agrees φ (Run.fail e) (Run.fail e) := ⟨rfl, rfl⟩

theorem bind {α : Type} {r : Run α} {f g : α → Run Bool}
    (h : ∀ a, r.outcome = .ok a → (f a).Agrees φ (g a)) : (r >>= f).Agrees φ (r >>= g) := by
  rcases r with ⟨e | a, hashed, log⟩
  · exact ⟨rfl, rfl⟩
  · obtain ⟨ho, hh⟩ := h a rfl
    exact ⟨ho, congrArg (hashed ++ ·) hh⟩

theorem outcome_eq {r s : Run Bool} (h : r.Agrees id s) : s.outcome = r.outcome := by
  rw [h.outcome, Except.map_id]
  rfl

end Run.Agrees

/-- Sweeps over elements that agree one by one stop at the same place, if no two answers are taken
for one. -/
theorem sweep_agrees (hφ : Function.Injective φ) {α β : Type} {stop : Bool} {f : α → Run Bool}
    {g : β → Run Bool} {as : List α} {bs : List β}
    (h : List.Forall₂ (fun a b => (f a).Agrees φ (g b)) as bs) :
    (sweep stop f as).Agrees φ (sweep (φ stop) g bs) := by
  have hpass : φ (!stop) = !φ stop := Bool.eq_not.mpr (hφ.ne (by simp))
  induction h with
  | nil => exact ⟨congrArg Except.ok hpass.symm, rfl⟩
  | @cons a b as bs hab _ ih =>
    have hout := hab.outcome
    cases hf : (f a).outcome with
    | error e =>
      have hg : (g b).outcome = .error e := by rw [hout, hf]; rfl
      rw [sweep_cons_of_error hf, sweep_cons_of_error hg]
      exact hab
    | ok x =>
      have hg : (g b).outcome = .ok (φ x) := by rw [hout, hf]; rfl
      by_cases hx : x = stop
      · subst hx
        rw [sweep_cons_of_stop hf, sweep_cons_of_stop hg]
        exact hab
      · have hx : x = !stop := Bool.eq_not.mpr hx
        subst hx
        rw [hpass] at hg
        rw [sweep_cons_of_pass hf, sweep_cons_of_pass hg]
        exact ⟨ih.outcome, by rw [hab.hashed, ih.hashed]⟩

/-- Tests of the same instances agree if their verdicts do. A test that is rejected fails alike
whatever it shows of itself. -/
theorem Evaluator.evaluatePercent_agrees {E : Evaluator} {context : Slot Context} {p q : Percent}
    (hp : p.range.WellFormed) (hq : q.range.WellFormed) (hseed : q.seed = p.seed)
    (hoperator : q.operator.truthy = p.operator.truthy)
    (hverdict : p.operator.truthy = true → ∀ id b, (E.bucket p.seed id).outcome = .ok b →
      q.verdict b = (p.verdict b).map (Option.map φ)) :
    (E.evaluatePercent context (.filled p)).Agrees φ (E.evaluatePercent context (.filled q)) := by
  rw [evaluatePercent_filled, evaluatePercent_filled, hoperator, hseed]
  by_cases ho : p.operator.truthy = true
  · rw [ho, Bool.not_true, if_neg Bool.false_ne_true, if_neg Bool.false_ne_true]
    refine Run.Agrees.bind fun c _ => ?_
    by_cases hi : c.id.truthy = true
    · rw [hi, Bool.not_true, if_neg Bool.false_ne_true, if_neg Bool.false_ne_true]
      refine Run.Agrees.bind fun b hb => ?_
      obtain ⟨answer, hv⟩ := p.verdict_of_wellFormed hp b
      rw [hverdict ho c.id b hb, hv]
      cases answer with
      | some x => exact .pure x
      | none =>
        obtain ⟨v, hv⟩ := p.encode_of_wellFormed hp
        obtain ⟨w, hw⟩ := q.encode_of_wellFormed hq
        rw [hv, hw]
        exact ⟨rfl, rfl⟩
    · rw [eq_false_of_ne_true hi]
      exact .fail .missingId
  · rw [eq_false_of_ne_true ho]
    exact .fail .invalidOperator

end Targeting
