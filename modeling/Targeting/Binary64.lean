/-!
Binary64 numbers, held as their 64 bits. A finite one is a significand times a power of two; the
power is counted from the smallest step, `2⁻¹⁰⁷⁴`, so no exponent here is negative. A decimal or a
ratio is rounded to the nearest binary64 number in integer arithmetic, a tie to the even
significand. Values that are no numbers differ in their payload, which tells them apart.
-/

namespace Targeting

/-- A power of natural numbers. -/
def power (base exponent : Nat) : Nat := base.pow exponent

structure Binary64 where
  bits : UInt64
  deriving DecidableEq, Repr

namespace Binary64

def fractionSize : Nat := power 2 52

/-- The exponent field that infinities and non-numbers carry. -/
def topExponent : Nat := 2047

/-- The value of the sign bit. -/
def signSize : Nat := power 2 63

/-- How many of the smallest steps make one. -/
def stepsPerOne : Nat := power 2 1074

def isNegative (x : Binary64) : Bool := signSize ≤ x.bits.toNat

def exponentField (x : Binary64) : Nat := x.bits.toNat / fractionSize % 2048

def fraction (x : Binary64) : Nat := x.bits.toNat % fractionSize

/-- The significand; below the normal range the leading one is missing. -/
def significand (x : Binary64) : Nat :=
  if x.exponentField = 0 then x.fraction else fractionSize + x.fraction

/-- The power of two that scales the significand, counted from the smallest step. -/
def scale (x : Binary64) : Nat := x.exponentField - 1

def isFinite (x : Binary64) : Bool := x.exponentField ≠ topExponent

def isNaN (x : Binary64) : Bool := !x.isFinite && x.fraction ≠ 0

def withSign (negative : Bool) (magnitude : Nat) : Binary64 :=
  ⟨.ofNat (if negative then signSize + magnitude else magnitude)⟩

def zero (negative : Bool) : Binary64 := withSign negative 0

def infinity (negative : Bool) : Binary64 := withSign negative (topExponent * fractionSize)

/-- The non-number that carries this payload; its first fraction bit is set in any case. -/
def nanWith (payload : Nat) : Binary64 :=
  withSign false (topExponent * fractionSize + fractionSize / 2 + payload % (fractionSize / 2))

def nan : Binary64 := nanWith 0

/-- The nearest integer to `num / den`, a tie going to the even one. -/
def roundQuotient (num den : Nat) : Nat :=
  let q := num / den
  let twice := 2 * (num % den)
  if twice < den then q
  else if den < twice then q + 1
  else if q % 2 = 0 then q else q + 1

/-- The magnitude bits nearest to `num / den`. Exponent field and fraction lie side by side, so a
significand that rounds up to the next power of two carries into the exponent by addition. -/
def nearestMagnitude (num den : Nat) : Nat :=
  let steps := num * stepsPerOne
  let scale := (steps / den).log2 - 52
  min (scale * fractionSize + roundQuotient steps (den * power 2 scale))
    (topExponent * fractionSize)

/-- The number nearest to `digits · 10 ^ exponent`. The first two cases decide what is far outside
the range before a large power is computed. -/
def ofDecimal (negative : Bool) (digits : Nat) (exponent : Int) : Binary64 :=
  if digits = 0 ∨ exponent + (digits.log2 / 3 + 1 : Nat) < -400 then zero negative
  else if 400 < exponent then infinity negative
  else
    let up := power 10 exponent.toNat
    let down := power 10 (-exponent).toNat
    withSign negative (nearestMagnitude (digits * up) down)

/-- The number nearest to a ratio; zero is the positive one. -/
def ofRat (q : Rat) : Binary64 :=
  withSign (q < 0) (nearestMagnitude q.num.natAbs q.den)

theorem toNat_withSign {negative : Bool} {magnitude : Nat} (h : magnitude < signSize) :
    (withSign negative magnitude).bits.toNat =
      if negative then signSize + magnitude else magnitude := by
  have hs : signSize = 2 ^ 63 := by decide
  rw [hs] at h ⊢
  rw [withSign, hs, UInt64.toNat_ofNat', Nat.mod_eq_of_lt]
  split <;> omega

/-- A magnitude up to that of infinity is that of a number. -/
theorem isNaN_withSign {negative : Bool} {magnitude : Nat}
    (h : magnitude ≤ topExponent * fractionSize) : (withSign negative magnitude).isNaN = false := by
  have ht : topExponent = 2047 := rfl
  have hf : fractionSize = 2 ^ 52 := by decide
  have hs : signSize = 2 ^ 63 := by decide
  rw [ht, hf] at h
  have hbits : (withSign negative magnitude).bits.toNat = _ := toNat_withSign (by omega)
  rw [hs] at hbits
  simp only [isNaN, isFinite, exponentField, fraction, hbits, ht, hf, Bool.and_eq_false_iff,
    Bool.not_eq_false', decide_eq_true_eq, decide_eq_false_iff_not, ne_eq, Decidable.not_not]
  split <;> omega

theorem isNaN_ofRat (q : Rat) : (ofRat q).isNaN = false :=
  isNaN_withSign (Nat.min_le_right _ _)

end Binary64

end Targeting
