import Targeting.Binary64

/-!
Numbers as thresholds see them. Integers of any size and binary64 numbers lie on one line of
rationals with an infinity at each end, so every comparison is exact. The value that is not a
number compares false with everything.
-/

namespace Targeting

inductive Number where
  | nan
  | negInf
  | finite (q : Rat)
  | posInf
  deriving DecidableEq, Repr

namespace Number

def ofInt (n : Int) : Number := .finite n

def le : Number → Number → Bool
  | .nan, _ | _, .nan => false
  | .negInf, _ | _, .posInf => true
  | .finite a, .finite b => a ≤ b
  | _, _ => false

def lt : Number → Number → Bool
  | .nan, _ | _, .nan => false
  | .negInf, .negInf | .posInf, .posInf => false
  | .negInf, _ | _, .posInf => true
  | .finite a, .finite b => a < b
  | _, _ => false

/-- Equal in value, which the value that is not a number is to nothing. -/
def same (a b : Number) : Bool := a.le b && b.le a

@[simp] theorem finite_le_finite {p q : Rat} : (finite p).le (finite q) = decide (p ≤ q) := rfl

@[simp] theorem finite_lt_finite {p q : Rat} : (finite p).lt (finite q) = decide (p < q) := rfl

@[simp] theorem le_nan (a : Number) : a.le .nan = false := by
  cases a <;> rfl

@[simp] theorem lt_nan (a : Number) : a.lt .nan = false := by
  cases a <;> rfl

@[simp] theorem ofInt_le_ofInt {a b : Int} : (ofInt a).le (ofInt b) = decide (a ≤ b) := by
  rw [ofInt, ofInt, finite_le_finite, decide_eq_decide]
  exact Rat.intCast_le_intCast

@[simp] theorem ofInt_lt_ofInt {a b : Int} : (ofInt a).lt (ofInt b) = decide (a < b) := by
  rw [ofInt, ofInt, finite_lt_finite, decide_eq_decide]
  exact Rat.intCast_lt_intCast

theorem not_le {a b : Number} (ha : a ≠ .nan) (hb : b ≠ .nan) : (!a.le b) = b.lt a := by
  cases a with
  | nan => exact absurd rfl ha
  | finite p =>
    cases b with
    | nan => exact absurd rfl hb
    | finite q =>
      rw [finite_le_finite, finite_lt_finite, ← decide_not, decide_eq_decide]
      exact Rat.not_le
    | _ => rfl
  | _ =>
    cases b with
    | nan => exact absurd rfl hb
    | _ => rfl

theorem le_trans {a b c : Number} (hab : a.le b = true) (hbc : b.le c = true) :
    a.le c = true := by
  -- An infinity in the middle leaves only itself for one of the ends.
  cases b with
  | nan => exact absurd hab (by simp)
  | negInf =>
    cases a with
    | negInf => exact hbc
    | _ => cases hab
  | posInf =>
    cases c with
    | posInf => exact hab
    | _ => cases hbc
  | finite q =>
    cases a with
    | negInf =>
      cases c with
      | finite r => rfl
      | posInf => rfl
      | _ => cases hbc
    | finite p =>
      cases c with
      | finite r =>
        rw [finite_le_finite, decide_eq_true_iff] at hab hbc ⊢
        exact Rat.le_trans hab hbc
      | posInf => rfl
      | _ => cases hbc
    | _ => cases hab

theorem lt_of_le_of_lt {a b c : Number} (hab : a.le b = true) (hbc : b.lt c = true) :
    a.lt c = true := by
  have ha : a ≠ .nan := by
    rintro rfl
    cases hab
  have hb : b ≠ .nan := by
    rintro rfl
    cases hbc
  have hc : c ≠ .nan := by
    rintro rfl
    exact absurd hbc (by simp)
  rw [← not_le hc hb] at hbc
  rw [← not_le hc ha]
  cases hca : c.le a with
  | false => rfl
  | true =>
    rw [le_trans hca hab] at hbc
    cases hbc

theorem same_self {a : Number} (h : a ≠ .nan) : a.same a = true := by
  cases a with
  | nan => exact absurd rfl h
  | finite q => simp [same]
  | _ => rfl

theorem eq_of_same {a b : Number} (h : a.same b = true) : a = b := by
  obtain ⟨hab, hba⟩ : a.le b = true ∧ b.le a = true := Bool.and_eq_true_iff.mp h
  cases a with
  | nan => cases hab
  | finite p =>
    cases b with
    | finite q =>
      rw [finite_le_finite, decide_eq_true_iff] at hab hba
      rw [Rat.le_antisymm hab hba]
    | posInf => cases hba
    | _ => cases hab
  | negInf =>
    cases b with
    | negInf => rfl
    | nan => cases hab
    | _ => cases hba
  | posInf =>
    cases b with
    | posInf => rfl
    | _ => cases hab

end Number

/-- The exact place of a binary64 number on the line; the two zeros share theirs. -/
def Binary64.toNumber (x : Binary64) : Number :=
  if x.isFinite then
    let steps : Int := x.significand * power 2 x.scale
    .finite (mkRat (if x.isNegative then -steps else steps) Binary64.stepsPerOne)
  else if x.isNaN then .nan
  else if x.isNegative then .negInf
  else .posInf

theorem Binary64.toNumber_eq_nan {x : Binary64} : x.toNumber = .nan ↔ x.isNaN = true := by
  unfold toNumber
  split
  · simp_all [isNaN]
  · split
    · simp_all
    · split <;> simp_all

theorem Binary64.toNumber_zero (negative : Bool) : (zero negative).toNumber = .finite 0 := by
  cases negative <;> decide +kernel

theorem Binary64.toNumber_infinity (negative : Bool) :
    (infinity negative).toNumber = if negative then .negInf else .posInf := by
  cases negative <;> decide +kernel

theorem Binary64.toNumber_nan : nan.toNumber = .nan := by
  decide +kernel

end Targeting
