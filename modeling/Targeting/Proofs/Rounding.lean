import Mathlib.Algebra.Order.Field.Basic
import Mathlib.Algebra.Order.Ring.Rat
import Mathlib.Tactic.Ring
import Targeting.Numeral

/-!
Rounding to binary64 does not pass a number that needs none. So one more than a number is never
rounded to less than the number itself, however large it is and whatever is lost of the one.
-/

namespace Targeting

theorem power_eq_pow (base exponent : Nat) : power base exponent = base ^ exponent := rfl

namespace Binary64

/-- How many of the smallest steps a number lies away from zero. -/
def steps (x : Binary64) : Nat := x.significand * power 2 x.scale

theorem fractionSize_eq : fractionSize = 2 ^ 52 := by decide

theorem stepsPerOne_pos : 0 < stepsPerOne := by decide +kernel

/-! ### Significands -/

theorem fields_withSign (negative : Bool) {m : Nat} (hm : m < 2 ^ 63) :
    let x := withSign negative m
    x.isNegative = negative ∧ x.exponentField = m / fractionSize ∧
      x.fraction = m % fractionSize := by
  intro x
  have hsign : signSize = 2 ^ 63 := by decide
  have hbits : x.bits.toNat = if negative then 2 ^ 63 + m else m := by
    rw [← hsign]
    exact toNat_withSign (hsign ▸ hm)
  refine ⟨?_, ?_, ?_⟩
  · rw [isNegative, hbits, hsign]
    cases negative
    · simp
      omega
    · simp
  · rw [exponentField, hbits, fractionSize_eq]
    split <;> omega
  · rw [fraction, hbits, fractionSize_eq]
    split <;> omega

/-- A significand above the normal range stands for one that is scaled a step further. -/
theorem steps_withSign (negative : Bool) {scale r : Nat} (hr : r ≤ 2 ^ 53)
    (hn : scale = 0 ∨ 2 ^ 52 ≤ r) (hs : scale * fractionSize + r < topExponent * fractionSize) :
    let x := withSign negative (scale * fractionSize + r)
    x.isFinite = true ∧ x.isNegative = negative ∧ x.steps = r * power 2 scale := by
  intro x
  have ht : topExponent = 2047 := rfl
  rw [ht, fractionSize_eq] at hs
  obtain ⟨hnegative, hexponent, hfraction⟩ := fields_withSign negative
    (m := scale * fractionSize + r) (by rw [fractionSize_eq]; omega)
  refine ⟨?_, hnegative, ?_⟩
  · rw [isFinite, hexponent, fractionSize_eq, ht]
    simp
    omega
  · rw [steps, significand, Binary64.scale, hexponent, hfraction, power_eq_pow, power_eq_pow,
      fractionSize_eq]
    obtain hlow | htop | ⟨hnormal, hlt⟩ : r < 2 ^ 52 ∨ r = 2 ^ 53 ∨ 2 ^ 52 ≤ r ∧ r < 2 ^ 53 := by
      omega
    · have hzero : scale = 0 := by omega
      subst hzero
      have hfield : (0 * 2 ^ 52 + r) / 2 ^ 52 = 0 := by omega
      rw [hfield, if_pos rfl]
      omega
    · have hfield : (scale * 2 ^ 52 + r) / 2 ^ 52 = scale + 2 := by omega
      have hrest : (scale * 2 ^ 52 + r) % 2 ^ 52 = 0 := by omega
      have hscale : scale + 2 - 1 = scale + 1 := by omega
      rw [hfield, hrest, if_neg (by omega), htop, hscale, Nat.pow_succ]
      omega
    · have hfield : (scale * 2 ^ 52 + r) / 2 ^ 52 = scale + 1 := by omega
      have hrest : 2 ^ 52 + (scale * 2 ^ 52 + r) % 2 ^ 52 = r := by omega
      rw [hfield, hrest, if_neg (by omega)]
      rfl

/-- The significand of a finite number, of which only the smallest are below the normal range. -/
theorem significand_bounds {x : Binary64} (h : x.isFinite = true) :
    x.significand < 2 ^ 53 ∧ (x.scale = 0 ∨ 2 ^ 52 ≤ x.significand) ∧ x.scale ≤ 2045 := by
  have hfraction : x.fraction < 2 ^ 52 := by
    rw [fraction, fractionSize_eq]
    omega
  have hexponent : x.exponentField < 2047 := by
    have hlt : x.exponentField < 2048 := Nat.mod_lt _ (by decide)
    have hne : x.exponentField ≠ 2047 := of_decide_eq_true h
    omega
  rw [significand, scale, fractionSize_eq]
  split <;> omega

/-! ### Rounding -/

theorem le_roundQuotient {n num den : Nat} (hd : 0 < den) (h : n * den ≤ num) :
    n ≤ roundQuotient num den := by
  have hq : n ≤ num / den := (Nat.le_div_iff_mul_le hd).mpr h
  unfold roundQuotient
  dsimp only
  repeat' split
  all_goals omega

theorem roundQuotient_le {n num den : Nat} (hd : 0 < den) (h : num ≤ n * den) :
    roundQuotient num den ≤ n := by
  have hq : num / den ≤ n := Nat.div_le_of_le_mul (by rwa [Nat.mul_comm] at h)
  -- A remainder means that the bound is not met exactly.
  have hlt (hr : num % den ≠ 0) : num / den < n := by
    rcases Nat.lt_or_eq_of_le hq with hlt | heq
    · exact hlt
    · have hdiv := Nat.div_add_mod num den
      rw [heq, Nat.mul_comm] at hdiv
      omega
  unfold roundQuotient
  dsimp only
  by_cases hr : num % den = 0
  · rw [hr, if_pos (by omega)]
    exact hq
  · have := hlt hr
    repeat' split
    all_goals omega

/-- A ratio is rounded to a significand of the normal range, or to one below it without a scale, and
no whole number lies between them at that scale. -/
structure Rounds (a den scale r : Nat) : Prop where
  le {n : Nat} (h : a ≤ n * (den * 2 ^ scale)) : r ≤ n
  ge {n : Nat} (h : n * (den * 2 ^ scale) ≤ a) : n ≤ r
  top : r ≤ 2 ^ 53
  normal : scale = 0 ∨ 2 ^ 52 ≤ r ∧ 2 ^ (52 + scale) * den ≤ a

theorem rounds_nearest {a den scale : Nat} (hd : 0 < den) (hs : scale = (a / den).log2 - 52) :
    Rounds a den scale (roundQuotient a (den * 2 ^ scale)) := by
  have hpos : 0 < den * 2 ^ scale := Nat.mul_pos hd (Nat.two_pow_pos scale)
  have hsplit (k : Nat) : 2 ^ (k + scale) * den = 2 ^ k * (den * 2 ^ scale) := by ring
  refine ⟨roundQuotient_le hpos, le_roundQuotient hpos, roundQuotient_le hpos ?_, ?_⟩
  · have hlog : a / den < 2 ^ ((a / den).log2 + 1) := Nat.lt_log2_self
    have hle : 2 ^ ((a / den).log2 + 1) ≤ 2 ^ (53 + scale) :=
      Nat.pow_le_pow_right (by decide) (by omega)
    rw [← hsplit]
    exact Nat.le_of_lt ((Nat.div_lt_iff_lt_mul hd).mp (Nat.lt_of_lt_of_le hlog hle))
  · by_cases hzero : scale = 0
    · exact Or.inl hzero
    · have hne : a / den ≠ 0 := by
        intro h
        rw [h] at hs
        exact hzero hs
      have hlog : 2 ^ (52 + scale) ≤ a / den := by
        have hself : 2 ^ (a / den).log2 ≤ a / den := Nat.log2_self_le hne
        rwa [show (a / den).log2 = 52 + scale by omega] at hself
      have hle : 2 ^ (52 + scale) * den ≤ a := (Nat.le_div_iff_mul_le hd).mp hlog
      exact Or.inr ⟨le_roundQuotient hpos (hsplit 52 ▸ hle), hle⟩

namespace Rounds

variable {a den scale r s c : Nat}

/-- A significand at a scale that a ratio reaches is reached by what the ratio is rounded to. -/
theorem le_scaled (h : Rounds a den scale r) (hs : s < 2 ^ 53) (ha : s * 2 ^ c * den ≤ a) :
    s * 2 ^ c ≤ r * 2 ^ scale := by
  rcases Nat.lt_or_ge c scale with hlt | hle
  · have hr : 2 ^ 52 ≤ r := by
      rcases h.normal with hzero | ⟨hr, -⟩
      · omega
      · exact hr
    calc s * 2 ^ c ≤ 2 ^ 53 * 2 ^ c := Nat.mul_le_mul_right _ (Nat.le_of_lt hs)
      _ = 2 ^ 52 * 2 ^ (c + 1) := by ring
      _ ≤ 2 ^ 52 * 2 ^ scale := Nat.mul_le_mul_left _ (Nat.pow_le_pow_right (by decide) hlt)
      _ ≤ r * 2 ^ scale := Nat.mul_le_mul_right _ hr
  · obtain ⟨k, rfl⟩ := Nat.exists_eq_add_of_le hle
    have hr : s * 2 ^ k ≤ r := h.ge (by rw [← Nat.mul_assoc]; convert ha using 1; ring)
    calc s * 2 ^ (scale + k) = s * 2 ^ k * 2 ^ scale := by ring
      _ ≤ r * 2 ^ scale := Nat.mul_le_mul_right _ hr

/-- A significand at a scale that a ratio does not exceed is not exceeded either by what the ratio
is rounded to, nor are its magnitude bits. -/
theorem scaled_le (h : Rounds a den scale r) (hd : 0 < den) (hs : s < 2 ^ 53)
    (hn : c = 0 ∨ 2 ^ 52 ≤ s) (ha : a ≤ s * 2 ^ c * den) :
    r * 2 ^ scale ≤ s * 2 ^ c ∧ scale * 2 ^ 52 + r ≤ c * 2 ^ 52 + s := by
  rcases Nat.lt_or_ge c scale with hlt | hle
  · rcases h.normal with hzero | ⟨-, hlow⟩
    · omega
    · have hpow : 2 ^ 53 * 2 ^ c ≤ 2 ^ (52 + scale) := by
        rw [← Nat.pow_add]
        exact Nat.pow_le_pow_right (by decide) (by omega)
      have hsc : s * 2 ^ c < 2 ^ 53 * 2 ^ c := Nat.mul_lt_mul_of_pos_right hs (Nat.two_pow_pos c)
      have hcontra : s * 2 ^ c * den < a :=
        Nat.lt_of_lt_of_le (Nat.mul_lt_mul_of_pos_right (Nat.lt_of_lt_of_le hsc hpow) hd) hlow
      omega
  · obtain ⟨k, rfl⟩ := Nat.exists_eq_add_of_le hle
    have hr : r ≤ s * 2 ^ k := h.le (by convert ha using 1; ring)
    refine ⟨?_, ?_⟩
    · calc r * 2 ^ scale ≤ s * 2 ^ k * 2 ^ scale := Nat.mul_le_mul_right _ hr
        _ = s * 2 ^ (scale + k) := by ring
    · have htop := h.top
      rcases Nat.eq_zero_or_pos k with rfl | hk
      · simpa using hr
      · omega

end Rounds

section Nearest

variable {x : Binary64} {num den : Nat}

theorem exists_rounds (num : Nat) (hd : 0 < den) : ∃ scale r,
    Rounds (num * stepsPerOne) den scale r ∧
      nearestMagnitude num den = min (scale * fractionSize + r) (topExponent * fractionSize) :=
  ⟨_, _, rounds_nearest hd rfl, rfl⟩

/-- A ratio that is no nearer to zero than a finite number is rounded to none that is nearer. -/
theorem steps_le_nearest (hx : x.isFinite = true) (hd : 0 < den)
    (h : x.steps * den ≤ num * stepsPerOne) (negative : Bool) :
    let y := withSign negative (nearestMagnitude num den)
    y = infinity negative ∨ y.isFinite = true ∧ y.isNegative = negative ∧ x.steps ≤ y.steps := by
  obtain ⟨scale, r, hr, hm⟩ := exists_rounds num hd
  rw [hm]
  by_cases hlt : scale * fractionSize + r < topExponent * fractionSize
  · rw [Nat.min_eq_left (Nat.le_of_lt hlt)]
    obtain ⟨hfinite, hsign, hsteps⟩ :=
      steps_withSign negative hr.top (hr.normal.imp id And.left) hlt
    refine Or.inr ⟨hfinite, hsign, ?_⟩
    rw [hsteps]
    exact hr.le_scaled (significand_bounds hx).1 h
  · rw [Nat.min_eq_right (Nat.le_of_not_lt hlt)]
    exact Or.inl rfl

/-- A ratio that is no farther from zero than a finite number is rounded to none that is farther. -/
theorem nearest_le_steps (hx : x.isFinite = true) (hd : 0 < den)
    (h : num * stepsPerOne ≤ x.steps * den) (negative : Bool) :
    let y := withSign negative (nearestMagnitude num den)
    y.isFinite = true ∧ y.isNegative = negative ∧ y.steps ≤ x.steps := by
  obtain ⟨scale, r, hr, hm⟩ := exists_rounds num hd
  obtain ⟨hs, hn, hc⟩ := significand_bounds hx
  obtain ⟨hle, hmagnitude⟩ := hr.scaled_le hd hs hn h
  have hlt : scale * fractionSize + r < topExponent * fractionSize := by
    have ht : topExponent = 2047 := rfl
    rw [ht, fractionSize_eq]
    omega
  rw [hm, Nat.min_eq_left (Nat.le_of_lt hlt)]
  obtain ⟨hfinite, hsign, hsteps⟩ :=
    steps_withSign negative hr.top (hr.normal.imp id And.left) hlt
  exact ⟨hfinite, hsign, hsteps ▸ hle⟩

end Nearest

/-! ### One more -/

/-- The distance from zero with its sign. -/
def signedSteps (x : Binary64) : Int := if x.isNegative then -x.steps else x.steps

theorem signedSteps_le (x : Binary64) : x.signedSteps ≤ x.steps := by
  unfold signedSteps
  split <;> omega

theorem signedSteps_of_neg {x : Binary64} (h : x.signedSteps < 0) : x.signedSteps = -x.steps := by
  rw [signedSteps] at h ⊢
  by_cases hs : x.isNegative = true
  · rw [if_pos hs]
  · rw [if_neg hs] at h
    omega

theorem signedSteps_of_nonneg {x : Binary64} (h : 0 ≤ x.signedSteps) :
    x.signedSteps = x.steps := by
  rw [signedSteps] at h ⊢
  by_cases hs : x.isNegative = true
  · rw [if_pos hs] at h ⊢
    omega
  · rw [if_neg hs]

theorem toNumber_of_isFinite {x : Binary64} (h : x.isFinite = true) :
    x.toNumber = .finite (mkRat x.signedSteps stepsPerOne) := by
  rw [toNumber, if_pos h]
  rfl

theorem isFinite_of_toNumber {x : Binary64} {q : Rat} (h : x.toNumber = .finite q) :
    x.isFinite = true := by
  unfold toNumber at h
  split at h
  · assumption
  · split at h
    · cases h
    · split at h <;> cases h

theorem toNumber_le_of_signedSteps_le {x y : Binary64} (hx : x.isFinite = true)
    (hy : y.isFinite = true) (h : x.signedSteps ≤ y.signedSteps) :
    x.toNumber.le y.toNumber = true := by
  rw [toNumber_of_isFinite hx, toNumber_of_isFinite hy]
  rw [Number.finite_le_finite, decide_eq_true_iff, Rat.mkRat_eq_div, Rat.mkRat_eq_div]
  have hpos : (0 : Rat) < stepsPerOne := by exact_mod_cast stepsPerOne_pos
  exact div_le_div_of_nonneg_right (by exact_mod_cast h) hpos.le

/-- A ratio that is at least the distance of a finite number from zero is rounded to no less than
any number up to that distance. -/
theorem le_nearest {x z : Binary64} {num den : Nat} (hx : x.isFinite = true)
    (hz : z.isFinite = true) (hd : 0 < den) (h : z.steps * den ≤ num * stepsPerOne)
    (hxz : x.signedSteps ≤ z.steps) :
    x.toNumber.le (withSign false (nearestMagnitude num den)).toNumber = true := by
  rcases steps_le_nearest hz hd h false with hinf | ⟨hfinite, hsign, hsteps⟩
  · rw [hinf, toNumber_infinity, toNumber_of_isFinite hx]
    rfl
  · refine toNumber_le_of_signedSteps_le hx hfinite ?_
    rw [signedSteps.eq_def (withSign _ _), hsign, if_neg Bool.false_ne_true]
    omega

section Succ

variable {x : Binary64} {q : Rat} (h : x.toNumber = .finite q)

include h

/-- The sum of a finite number and one, as a ratio of smallest steps. -/
theorem num_succ : (q + 1).num * stepsPerOne =
    x.signedSteps * (q + 1).den + stepsPerOne * (q + 1).den := by
  rw [toNumber_of_isFinite (isFinite_of_toNumber h), Number.finite.injEq, Rat.mkRat_eq_div] at h
  have hpos : (stepsPerOne : Rat) ≠ 0 := by exact_mod_cast stepsPerOne_pos.ne'
  have hnum : ((q + 1).num : Rat) = (q + 1) * (q + 1).den := (Rat.mul_den_eq_num _).symm
  have hsum : ((q + 1).num : Rat) * stepsPerOne =
      x.signedSteps * (q + 1).den + stepsPerOne * (q + 1).den := by
    rw [hnum, ← h, mul_right_comm, add_mul, div_mul_cancel₀ _ hpos, one_mul, add_mul]
  exact_mod_cast hsum

theorem signedSteps_lt_num_succ : x.signedSteps * (q + 1).den < (q + 1).num * stepsPerOne := by
  have hpos : (0 : Int) < stepsPerOne * (q + 1).den := by
    exact_mod_cast Nat.mul_pos stepsPerOne_pos (q + 1).den_pos
  rw [num_succ h]
  exact Int.lt_add_of_pos_right _ hpos

/-- Below zero the sum lies no farther from zero than the number. -/
theorem le_ofRat_succ_of_neg (hneg : q + 1 < 0) :
    x.toNumber.le (ofRat (q + 1)).toNumber = true := by
  have hx := isFinite_of_toNumber h
  have hlt := signedSteps_lt_num_succ h
  have hnum : ((q + 1).num.natAbs : Int) = -(q + 1).num :=
    Int.ofNat_natAbs_of_nonpos (Rat.num_neg.mpr hneg).le
  have hbelow : x.signedSteps < 0 := by
    have hprod : (q + 1).num * stepsPerOne < 0 :=
      Int.mul_neg_of_neg_of_pos (Rat.num_neg.mpr hneg) (by exact_mod_cast stepsPerOne_pos)
    by_contra hnonneg
    exact absurd (Int.lt_trans hlt hprod)
      (Int.not_lt.mpr (Int.mul_nonneg (Int.not_lt.mp hnonneg) (Int.natCast_nonneg _)))
  have hsteps := signedSteps_of_neg hbelow
  have hle : (q + 1).num.natAbs * stepsPerOne ≤ x.steps * (q + 1).den := by
    rw [hsteps, Int.neg_mul] at hlt
    have hint : ((q + 1).num.natAbs : Int) * stepsPerOne ≤ x.steps * (q + 1).den := by
      rw [hnum, Int.neg_mul]
      exact Int.neg_le_of_neg_le hlt.le
    exact_mod_cast hint
  obtain ⟨hfinite, hsign, hnearer⟩ := nearest_le_steps hx (q + 1).den_pos hle true
  rw [ofRat, decide_eq_true hneg]
  refine toNumber_le_of_signedSteps_le hx hfinite ?_
  rw [hsteps, signedSteps, hsign, if_pos rfl]
  omega

/-- From zero on the sum lies no nearer to zero than the number, unless the number is below zero. -/
theorem le_ofRat_succ_of_nonneg (hnonneg : ¬q + 1 < 0) :
    x.toNumber.le (ofRat (q + 1)).toNumber = true := by
  have hx := isFinite_of_toNumber h
  have hd : 0 < (q + 1).den := (q + 1).den_pos
  have hnum : ((q + 1).num.natAbs : Int) = (q + 1).num :=
    Int.natAbs_of_nonneg (Rat.num_nonneg.mpr (Rat.not_lt.mp hnonneg))
  rw [ofRat, decide_eq_false hnonneg]
  by_cases hbelow : x.signedSteps < 0
  · have hzero : (zero false).steps = 0 := by decide +kernel
    refine le_nearest (z := zero false) hx (by decide +kernel) hd ?_ ?_ <;> rw [hzero]
    · omega
    · exact hbelow.le
  · refine le_nearest hx hx hd ?_ (signedSteps_le x)
    have hle : (x.steps : Int) * (q + 1).den ≤ (q + 1).num.natAbs * stepsPerOne := by
      rw [hnum, ← signedSteps_of_nonneg (Int.not_lt.mp hbelow)]
      exact (signedSteps_lt_num_succ h).le
    exact_mod_cast hle

/-- One more than a number is not rounded to less than it. -/
theorem le_ofRat_succ : x.toNumber.le (ofRat (q + 1)).toNumber = true := by
  by_cases hneg : q + 1 < 0
  · exact le_ofRat_succ_of_neg h hneg
  · exact le_ofRat_succ_of_nonneg h hneg

end Succ

end Binary64

/-- A limit that a number reaches is reached by one more than the number. -/
theorem Numeral.le_succ {limit level : Numeral} (h : limit.toNumber.le level.toNumber = true) :
    limit.toNumber.le level.succ.toNumber = true := by
  cases level with
  | bool b => exact Number.le_trans h (by simp [toNumber, succ])
  | int n => exact Number.le_trans h (by simp [toNumber, succ])
  | float x =>
    rw [succ]
    split
    · rename_i q hq
      exact Number.le_trans h (Binary64.le_ofRat_succ hq)
    · exact h

end Targeting
