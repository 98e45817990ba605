import Targeting.Proofs.Outcomes
import Mathlib.Data.EReal.Operations
import Mathlib.Data.Rat.Floor

/-!
How many buckets a percent test lets in. The buckets below a modulus are counted for which the test
is true if the fingerprint of the instance is the bucket. The count depends on the thresholds only
by their whole parts, and is exact for all of them: fractions, negative ones, those out of order or
beyond the last bucket, and the two infinities.
-/

namespace Targeting

/-! ### Whole parts -/

theorem EReal.intCast_max (a b : Int) : ((max a b : Int) : ℝ) = max ((a : ℝ) : EReal) (b : ℝ) := by
  rw [Int.cast_max]
  exact EReal.coe_strictMono.monotone.map_max

theorem EReal.intCast_min (a b : Int) : ((min a b : Int) : ℝ) = min ((a : ℝ) : EReal) (b : ℝ) := by
  rw [Int.cast_min]
  exact EReal.coe_strictMono.monotone.map_min

theorem EReal.natCast_sub_one (M : Nat) : (M : EReal) - 1 = ((M - 1 : Int) : ℝ) := by
  push_cast
  rfl

/-- The greatest integer up to a number; either infinity is its own whole part. -/
inductive Number.HasFloor : Number → EReal → Prop where
  | negInf : HasFloor .negInf ⊥
  | finite (q : Rat) : HasFloor (.finite q) ((⌊q⌋ : Int) : ℝ)
  | posInf : HasFloor .posInf ⊤

namespace Number.HasFloor

variable {m : Number} {x : EReal}

theorem ne_nan (h : m.HasFloor x) : m ≠ .nan := by
  rintro rfl
  cases h

/-- Below a modulus a number bounds from above like an integer: the lesser of its whole part and the
last bucket, or minus one in place of an infinity. -/
theorem exists_upper (h : m.HasFloor x) (M : Nat) :
    ∃ b : Int, b ≤ M - 1 ∧ (∀ n < M, (ofInt n).le m = true ↔ (n : Int) ≤ b) ∧
      (min x (M - 1) = (b : ℝ) ∨ min x (M - 1) = ⊥ ∧ b = -1) := by
  rw [EReal.natCast_sub_one]
  cases h with
  | negInf =>
    refine ⟨-1, by omega, ?_, ?_⟩
    · intro n hn
      simp [ofInt, le]
      omega
    · right
      exact ⟨bot_inf_eq _, rfl⟩
  | finite q =>
    refine ⟨min ⌊q⌋ (M - 1), by omega, ?_, ?_⟩
    · intro n hn
      have hfloor : (ofInt n).le (.finite q) = true ↔ (n : Int) ≤ ⌊q⌋ := by
        rw [Int.le_floor]
        simp [ofInt]
      rw [hfloor]
      omega
    · left
      exact (EReal.intCast_min _ _).symm
  | posInf =>
    refine ⟨M - 1, by omega, ?_, ?_⟩
    · intro n hn
      simp [ofInt, le]
      omega
    · left
      exact top_inf_eq _

/-- It bounds from below like the greater of its whole part and minus one, or like the modulus in
place of an infinity. -/
theorem exists_lower (h : m.HasFloor x) (M : Nat) :
    ∃ a : Int, -1 ≤ a ∧ (∀ n < M, m.lt (ofInt n) = true ↔ a < (n : Int)) ∧
      (max x (-1) = (a : ℝ) ∨ max x (-1) = ⊤ ∧ a = M) := by
  have hone : (-1 : EReal) = ((-1 : Int) : ℝ) := by
    push_cast
    rfl
  rw [hone]
  cases h with
  | negInf =>
    refine ⟨-1, by omega, ?_, ?_⟩
    · intro n hn
      simp [ofInt, lt]
      omega
    · left
      exact bot_sup_eq _
  | finite q =>
    refine ⟨max ⌊q⌋ (-1), by omega, ?_, ?_⟩
    · intro n hn
      have hfloor : (Number.finite q).lt (ofInt n) = true ↔ ⌊q⌋ < (n : Int) := by
        rw [Int.floor_lt]
        simp [ofInt]
      rw [hfloor]
      omega
    · left
      exact (EReal.intCast_max _ _).symm
  | posInf =>
    refine ⟨M, by omega, ?_, ?_⟩
    · intro n hn
      simp [ofInt, lt]
      omega
    · right
      exact ⟨top_sup_eq _, rfl⟩

end Number.HasFloor

/-! ### Counting -/

theorem countP_range_between (a b : Int) (M : Nat) :
    ((List.range M).countP fun n : Nat => decide (a < (n : Int) ∧ (n : Int) ≤ b) : Int) =
      max 0 (min b (M - 1) - max a (-1)) := by
  induction M with
  | zero => simp
  | succ M ih =>
    rw [List.range_succ, List.countP_append, List.countP_singleton, Nat.cast_add, ih]
    by_cases h : a < (M : Int) ∧ (M : Int) ≤ b
    · rw [decide_eq_true h, if_pos rfl]
      omega
    · rw [decide_eq_false h, if_neg Bool.false_ne_true]
      omega

namespace Arm

variable {m l u : Number} {x y : EReal}

/-- How many of the buckets below a modulus lie in a piece of the line. -/
def size (arm : Arm) (M : Nat) : Nat := (List.range M).countP fun n : Nat => arm.contains (.ofInt n)

theorem size_between (hl : l.HasFloor x) (hu : u.HasFloor y) (M : Nat) :
    ((between l u).size M : EReal) = max 0 (min y (M - 1) - max x (-1)) := by
  obtain ⟨a, ha, hlower, hx⟩ := hl.exists_lower M
  obtain ⟨b, hb, hupper, hy⟩ := hu.exists_upper M
  have hcount : (between l u).size M =
      (List.range M).countP fun n : Nat => decide (a < (n : Int) ∧ (n : Int) ≤ b) := by
    unfold size
    apply List.countP_congr
    intro n hn
    have hn : n < M := List.mem_range.mp hn
    rw [contains, Bool.and_eq_true, hlower n hn, hupper n hn, decide_eq_true_iff]
  have hsize : ((between l u).size M : Int) = max 0 (b - a) := by
    rw [hcount, countP_range_between]
    omega
  have hcast : ((between l u).size M : EReal) = ((max 0 (b - a) : Int) : ℝ) := by
    rw [← hsize]
    simp
  -- Where either bound is replaced by that of no bucket, none lies between.
  have hnone (h : b ≤ a) : ((between l u).size M : EReal) = 0 := by
    rw [hcast, max_eq_left (by omega)]
    simp
  rcases hx with hx | ⟨hx, rfl⟩
  · rcases hy with hy | ⟨hy, rfl⟩
    · rw [hcast, hx, hy, EReal.intCast_max, Int.cast_sub]
      simp
    · rw [hnone (by omega), hy, EReal.bot_sub, max_eq_left bot_le]
  · rw [hnone (by omega), hx, EReal.sub_top, max_eq_left bot_le]

theorem size_upTo (h : m.HasFloor x) (M : Nat) :
    ((upTo m).size M : EReal) = max 0 (min x (M - 1) + 1) := by
  have hbetween : (upTo m).size M = (between .negInf m).size M := by
    unfold size
    apply List.countP_congr
    intro n _
    simp [contains, Number.lt, Number.ofInt]
  rw [hbetween, size_between .negInf h, max_eq_right bot_le]
  simp [sub_eq_add_neg]

/-- What is not up to a number is above it. -/
theorem size_add_size (h : m ≠ .nan) (M : Nat) : (upTo m).size M + (above m).size M = M := by
  have habove (n : Nat) : (above m).contains (.ofInt n) = !(upTo m).contains (.ofInt n) := by
    have hn : Number.ofInt n ≠ .nan := nofun
    exact (Number.not_le hn h).symm
  have hlength := List.length_eq_countP_add_countP (fun n : Nat => (upTo m).contains (.ofInt n))
    (l := List.range M)
  simpa [size, habove] using hlength.symm

theorem size_above (h : m.HasFloor x) (M : Nat) :
    ((above m).size M : EReal) = M - max 0 (min x (M - 1) + 1) := by
  rw [← size_upTo h]
  have hsum := size_add_size h.ne_nan M
  have hcast : (M : EReal) = (above m).size M + (((upTo m).size M : ℝ) : EReal) := by
    rw [EReal.coe_natCast, ← Nat.cast_add, Nat.add_comm, hsum]
  rw [hcast, ← EReal.coe_natCast (n := (upTo m).size M), EReal.add_sub_cancel_right]

end Arm

/-! ### Tests -/

namespace Evaluator

variable {E : Nat → Evaluator} {M : Nat} {context : Slot Context} {i : Value} {p : Percent}

/-- A test is true for as many fingerprints below the modulus as there are buckets in the piece that
it selects. -/
theorem countP_evaluatePercent (hc : Context.Names context i) (hi : i.truthy = true)
    (hE : ∀ n < M, (E n).buckets = .int M ∧
      (E n).fingerprinter.hash (saltedId p.seed i) = n) {arm : Arm} (h : p.Selects arm) :
    ((List.range M).countP fun n =>
      ((E n).evaluatePercent context (.filled p)).outcome = .ok true) = arm.size M := by
  unfold Arm.size
  apply List.countP_congr
  intro n hn
  have hn : n < M := List.mem_range.mp hn
  obtain ⟨hbuckets, hhash⟩ := hE n hn
  have hb : (E n).buckets.remainder? ((E n).fingerprinter.hash (saltedId p.seed i)) =
      some (.int n) := by
    rw [hbuckets, hhash, Numeral.remainder?_int_of_pos (by omega), Int.emod_eq_of_lt (by omega)]
    omega
  have ho : p.operator.truthy = true := (Percent.selects_iff_asksFor.mp h).operator
  rw [evaluatePercent_of_selects hc ho hi hb h]
  simp [Numeral.toNumber]

/-- The exact shares of the three comparisons. With each number below the modulus in its turn for
the fingerprint of the instance, the test is true as often as its thresholds say, which count by
their whole parts as far as there are buckets. -/
theorem evaluatePercent_share (hc : Context.Names context i) (hi : i.truthy = true)
    (hE : ∀ n < M, (E n).buckets = .int M ∧
      (E n).fingerprinter.hash (saltedId p.seed i) = n) :
    let share : Nat := (List.range M).countP fun n =>
      ((E n).evaluatePercent context (.filled p)).outcome = .ok true
    (∀ m x, p.Selects (.upTo m) → m.HasFloor x →
      (share : EReal) = max 0 (min x (M - 1) + 1)) ∧
    (∀ m x, p.Selects (.above m) → m.HasFloor x →
      (share : EReal) = M - max 0 (min x (M - 1) + 1)) ∧
    ∀ l u x y, p.Selects (.between l u) → l.HasFloor x → u.HasFloor y →
      (share : EReal) = max 0 (min y (M - 1) - max x (-1)) := by
  intro share
  refine ⟨?_, ?_, ?_⟩
  · intro m x hp hm
    have hshare : share = (Arm.upTo m).size M := countP_evaluatePercent hc hi hE hp
    rw [hshare, Arm.size_upTo hm]
  · intro m x hp hm
    have hshare : share = (Arm.above m).size M := countP_evaluatePercent hc hi hE hp
    rw [hshare, Arm.size_above hm]
  · intro l u x y hp hl hu
    have hshare : share = (Arm.between l u).size M := countP_evaluatePercent hc hi hE hp
    rw [hshare, Arm.size_between hl hu]

/-- Of ten buckets, seven lie between minus infinity and six and a half. -/
theorem evaluatePercent_share_open :
    let E (n : Nat) : Evaluator := { fingerprinter := ⟨"constant", fun _ => n⟩, buckets := .int 10 }
    let context : Slot Context := .plain (.object [("id", .str "u")])
    let upper : Binary64 := .ofDecimal false 65 (-1)
    let p : Percent := ⟨.str "s", .plain (.str "BETWEEN"), .bool true,
      .filled ⟨.float (.infinity true), .float upper⟩⟩
    ((List.range 10).countP fun n =>
      ((E n).evaluatePercent context (.filled p)).outcome = .ok true) = 7 := by
  intro E context upper p
  have hc : Context.Names context (.str "u") := .own nofun
  have hE : ∀ n < 10, (E n).buckets = .int (10 : Nat) ∧
      (E n).fingerprinter.hash (saltedId p.seed (.str "u")) = n := fun n _ => ⟨rfl, rfl⟩
  have hlower : (Binary64.infinity true).toNumber = .negInf := by decide +kernel
  have hupper : upper.toNumber = .finite (13 / 2) := by decide +kernel
  have hp : p.Selects (.between .negInf (.finite (13 / 2))) := by
    rw [← hlower, ← hupper]
    exact .between (.word .between) rfl (.float _) (.float _)
  have hfloor : ⌊(13 / 2 : Rat)⌋ = 6 := by norm_num [Int.floor_eq_iff]
  have hmin : min 6 ((10 : Nat) - 1 : Int) = 6 := by decide
  have hseven : (((6 : Int) : ℝ) : EReal) - -1 = ((7 : Nat) : EReal) := by
    rw [sub_eq_add_neg, neg_neg]
    norm_cast
  have hpositive : (0 : EReal) ≤ ((7 : Nat) : EReal) := by exact_mod_cast Nat.zero_le 7
  obtain ⟨-, -, hbetween⟩ := evaluatePercent_share (p := p) hc rfl hE
  have hshare := hbetween _ _ _ _ hp .negInf (.finite (13 / 2))
  rw [hfloor, EReal.natCast_sub_one, ← EReal.intCast_min, hmin, max_eq_right bot_le, hseven,
    max_eq_right hpositive] at hshare
  exact_mod_cast hshare

end Evaluator

end Targeting
