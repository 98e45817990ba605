import Targeting.Proofs.Decoding
import Targeting.Proofs.Instances
import Targeting.Proofs.Verdicts

/-!
Every way a percent test can end. The comparison is asked for first and the id second, and a test
that lacks either fails with nothing hashed. Any other test hashes one text. It then answers just
where it selects a piece of the line, by whether the bucket lies in that piece, and is rejected with
a record where it selects none. What a test selects is read off its parts as they were given.
-/

namespace Targeting

/-- The integers and binary64 numbers measure themselves, and nothing else measures anything. -/
inductive Value.Measures : Value → Number → Prop where
  | int (n : Int) : Measures (.int n) (.finite n)
  | float (x : Binary64) : Measures (.float x) x.toNumber

theorem Value.number?_eq_some_iff {v : Value} {m : Number} : v.number? = some m ↔ v.Measures m := by
  constructor
  · intro h
    cases v with
    | int n => cases h; exact .int n
    | float x => cases h; exact .float x
    | _ => cases h
  · rintro (n | x) <;> rfl

/-- A comparison is given as itself or by its word. -/
inductive Operator.Spells : Operator → Comparison → Prop where
  | member (c : Comparison) : Spells (.known c) c
  | word (c : Comparison) : Spells (.plain (.str c.word)) c

theorem Operator.comparison?_eq_some_iff {o : Operator} {c : Comparison} :
    o.comparison? = some c ↔ o.Spells c := by
  constructor
  · intro h
    cases o with
    | known d => cases h; exact .member c
    | plain v =>
      cases v with
      | str s => rw [← Comparison.word_of_ofWord? h]; exact .word c
      | _ => cases h
  · rintro (_ | _)
    · rfl
    · exact Comparison.ofWord?_word c

/-- The numbers at which a piece of the line ends. -/
def Arm.ends : Arm → List Number
  | upTo a => [a]
  | between a b => [a, b]
  | above a => [a]

/-- No bucket lies in a piece one end of which is no number. -/
theorem Arm.contains_of_nan_mem_ends {arm : Arm} (h : .nan ∈ arm.ends) (x : Number) :
    arm.contains x = false := by
  have hlt (a : Number) : a.lt .nan = false := by cases a <;> rfl
  have hle (a : Number) : a.le .nan = false := by cases a <;> rfl
  cases arm with
  | upTo a =>
    obtain rfl : Number.nan = a := by simpa [ends] using h
    exact hle x
  | above a =>
    obtain rfl : Number.nan = a := by simpa [ends] using h
    rfl
  | between a b =>
    obtain rfl | rfl : Number.nan = a ∨ Number.nan = b := by simpa [ends] using h
    · rfl
    · simp [contains, hle x]

/-- The piece of the line that the parts of a test select. The threshold counts for two of the
comparisons and the range for the third; whichever does not count may be anything. -/
inductive Percent.Selects (p : Percent) : Arm → Prop where
  | upTo {m : Number} (operator : p.operator.Spells .lessOrEqual)
      (threshold : p.threshold.Measures m) : Selects p (.upTo m)
  | above {m : Number} (operator : p.operator.Spells .greaterThan)
      (threshold : p.threshold.Measures m) : Selects p (.above m)
  | between {b : Bounds} {l u : Number} (operator : p.operator.Spells .between)
      (range : p.range = .filled b) (lower : b.lower.Measures l) (upper : b.upper.Measures u) :
      Selects p (.between l u)

namespace Percent

variable {p : Percent}

theorem selects_iff_asksFor {arm : Arm} : p.Selects arm ↔ p.AsksFor arm := by
  constructor
  · rintro (⟨ho, ht⟩ | ⟨ho, ht⟩ | ⟨ho, hr, hl, hu⟩)
    · exact ⟨Operator.comparison?_eq_some_iff.mpr ho, Value.number?_eq_some_iff.mpr ht⟩
    · exact ⟨Operator.comparison?_eq_some_iff.mpr ho, Value.number?_eq_some_iff.mpr ht⟩
    · exact ⟨Operator.comparison?_eq_some_iff.mpr ho, _, hr, Value.number?_eq_some_iff.mpr hl,
        Value.number?_eq_some_iff.mpr hu⟩
  · intro h
    have hop {c : Comparison} : p.operator.comparison? = some c → p.operator.Spells c :=
      Operator.comparison?_eq_some_iff.mp
    cases arm with
    | upTo m => exact .upTo (hop h.1) (Value.number?_eq_some_iff.mp h.2)
    | above m => exact .above (hop h.1) (Value.number?_eq_some_iff.mp h.2)
    | between l u =>
      obtain ⟨ho, b, hr, hl, hu⟩ := h
      exact .between (hop ho) hr (Value.number?_eq_some_iff.mp hl) (Value.number?_eq_some_iff.mp hu)

/-- Only a test that selects a piece has an answer. -/
theorem exists_selects_of_verdict (hr : p.range.WellFormed) {b : Numeral} {x : Bool}
    (h : p.verdict b = .ok (some x)) : ∃ arm, p.Selects arm := by
  have hthreshold {f : Number → Bool}
      (h : (.ok (p.threshold.number?.map f) : Except Fault (Option Bool)) = .ok (some x)) :
      ∃ m, p.threshold.number? = some m := by
    cases ht : p.threshold.number? with
    | none => rw [ht] at h; cases h
    | some m => exact ⟨m, rfl⟩
  obtain ho | ho | ho := comparison?_of_verdict h
  · obtain ⟨m, hm⟩ := hthreshold (verdict_lessOrEqual ho b ▸ h)
    exact ⟨.upTo m, selects_iff_asksFor.mpr ⟨ho, hm⟩⟩
  · obtain ⟨m, hm⟩ := hthreshold (verdict_greaterThan ho b ▸ h)
    exact ⟨.above m, selects_iff_asksFor.mpr ⟨ho, hm⟩⟩
  · rw [verdict_between ho] at h
    cases hrange : p.range with
    | plain v => rw [hrange] at hr h; cases hr; cases h
    | foreign y => rw [hrange] at hr; cases hr
    | filled bounds =>
      rw [hrange, Range.contains?_filled] at h
      obtain ⟨l, u, hl, hu, -⟩ := Bounds.contains?_eq_some.mp (Except.ok.inj h)
      exact ⟨.between l u, selects_iff_asksFor.mpr ⟨ho, bounds, hrange, hl, hu⟩⟩

end Percent

/-! ### Runs -/

theorem Numeral.remainder?_int_of_pos {n : Nat} {m : Int} (h : 0 < m) :
    remainder? n (.int m) = some (.int (n % m)) := by
  rw [remainder?_int (Int.ne_of_gt h), Int.fmod_eq_emod_of_nonneg _ (Int.le_of_lt h)]

namespace Evaluator

variable {E : Evaluator} {context : Slot Context} {p : Percent}

theorem evaluatePercent_of_no_operator (h : p.operator.truthy = false) :
    E.evaluatePercent context (.filled p) = Run.fail .invalidOperator := by
  rw [evaluatePercent_filled, h]
  rfl

theorem evaluatePercent_of_no_id {i : Value} (hc : Context.Names context i)
    (ho : p.operator.truthy = true) (hi : i.truthy = false) :
    E.evaluatePercent context (.filled p) = Run.fail .missingId := by
  obtain ⟨c, hcoerce, rfl⟩ := hc.coerce
  rw [evaluatePercent_filled, ho, hcoerce, Run.ofExcept_ok_bind, hi]
  rfl

theorem bucket_of_remainder {seed id : Value} {b : Numeral}
    (hb : E.buckets.remainder? (E.fingerprinter.hash (saltedId seed id)) = some b) :
    E.bucket seed id = ⟨.ok b, [saltedId seed id], []⟩ := by
  rw [bucket, Run.hash_bind, hb]
  rfl

section Verdict

variable {i : Value} {b : Numeral} (hc : Context.Names context i) (ho : p.operator.truthy = true)
  (hi : i.truthy = true)
  (hb : E.buckets.remainder? (E.fingerprinter.hash (saltedId p.seed i)) = some b)

include hc ho hi hb

/-- A test with a comparison and an id hashes one text, and goes on to its verdict on the bucket of
that text. -/
theorem evaluatePercent_of_bucket : E.evaluatePercent context (.filled p) =
    ((⟨.ok b, [saltedId p.seed i], []⟩ : Run Numeral) >>= fun b => do
      match ← Run.ofExcept (p.verdict b) with
      | some answer => return answer
      | none => do
        Run.note (.percentRejected (← Run.ofExcept p.encode))
        Run.fail .invalidOperator) := by
  obtain ⟨c, hcoerce, rfl⟩ := hc.coerce
  rw [evaluatePercent_filled, ho, hcoerce, Run.ofExcept_ok_bind, hi, bucket_of_remainder hb]
  rfl

theorem evaluatePercent_of_selects {arm : Arm} (h : p.Selects arm) :
    E.evaluatePercent context (.filled p) =
      ⟨.ok (arm.contains b.toNumber), [saltedId p.seed i], []⟩ := by
  rw [evaluatePercent_of_bucket hc ho hi hb, Run.mk_ok_bind,
    (Percent.selects_iff_asksFor.mp h).verdict b]
  rfl

theorem evaluatePercent_of_not_selects (hr : p.range.WellFormed) (h : ¬∃ arm, p.Selects arm)
    {v : Value} (he : p.encode = .ok v) :
    E.evaluatePercent context (.filled p) =
      ⟨.error .invalidOperator, [saltedId p.seed i], [.percentRejected v]⟩ := by
  have hnone : p.verdict b = .ok none := by
    obtain ⟨_ | x, hx⟩ := Percent.verdict_of_wellFormed hr b
    · exact hx
    · exact absurd (Percent.exists_selects_of_verdict hr hx) h
  rw [evaluatePercent_of_bucket hc ho hi hb, Run.mk_ok_bind, hnone, he]
  rfl

/-- Whether or not a piece is selected, the text is hashed, and an answer means that one is. -/
theorem evaluatePercent_answers_iff (hr : p.range.WellFormed) :
    (E.evaluatePercent context (.filled p)).hashed = [saltedId p.seed i] ∧
      ((∃ x, (E.evaluatePercent context (.filled p)).outcome = .ok x) ↔
        ∃ arm, p.Selects arm) := by
  by_cases h : ∃ arm, p.Selects arm
  · obtain ⟨arm, harm⟩ := h
    rw [evaluatePercent_of_selects hc ho hi hb harm]
    exact ⟨rfl, fun _ => ⟨arm, harm⟩, fun _ => ⟨_, rfl⟩⟩
  · obtain ⟨v, hv⟩ := Percent.encode_of_wellFormed hr
    rw [evaluatePercent_of_not_selects hc ho hi hb hr h hv]
    refine ⟨rfl, iff_of_false ?_ h⟩
    rintro ⟨x, hx⟩
    cases hx

end Verdict

/-- How a percent test ends, in the order in which it can. Without a comparison and without an id
it fails before it hashes, and in these cases alone. Otherwise it hashes the id behind the seed, and
the bucket, the remainder of the fingerprint, decides: the test answers if and only if it selects a
piece of the line, which never holds the bucket if an end is no number; and it is rejected, with its
own record, if it selects none. -/
theorem evaluatePercent_law (E : Evaluator) {context : Slot Context} {i : Value} {p : Percent}
    (hE : (Number.ofInt 0).lt E.buckets.toNumber = true) (hc : Context.Names context i)
    (hr : p.range.WellFormed) :
    let run := E.evaluatePercent context (.filled p)
    let text := (if p.seed.truthy then p.seed.text ++ "." else "") ++ i.text
    (run.outcome = .error .invalidOperator ∧ run.hashed = [] ↔ p.operator.truthy = false) ∧
    (p.operator.truthy = true →
      (run.outcome = .error .missingId ∧ run.hashed = [] ↔ i.truthy = false)) ∧
    (run.hashed = [] → run.log = []) ∧
    (p.operator.truthy = true → i.truthy = true →
      ∃ b, E.buckets.remainder? (E.fingerprinter.hash text) = some b ∧
        (∀ m, E.buckets = .int m → b = .int (E.fingerprinter.hash text % m)) ∧
        run.hashed = [text] ∧
        ((∃ x, run.outcome = .ok x) ↔ ∃ arm, p.Selects arm) ∧
        (∀ arm, p.Selects arm →
          run = ⟨.ok (arm.contains b.toNumber), [text], []⟩ ∧
          (.nan ∈ arm.ends → arm.contains b.toNumber = false)) ∧
        ((¬∃ arm, p.Selects arm) →
          ∃ v, p.encode = .ok v ∧
            run = ⟨.error .invalidOperator, [text], [.percentRejected v]⟩)) := by
  intro run text
  cases ho : p.operator.truthy with
  | false =>
    have hrun : run = Run.fail .invalidOperator := evaluatePercent_of_no_operator ho
    simp [hrun, Run.fail]
  | true =>
    cases hi : i.truthy with
    | false =>
      have hrun : run = Run.fail .missingId := evaluatePercent_of_no_id hc ho hi
      simp [hrun, Run.fail]
    | true =>
      obtain ⟨b, hb, -⟩ := Numeral.remainder?_of_pos hE (E.fingerprinter.hash text)
      obtain ⟨v, hv⟩ := Percent.encode_of_wellFormed hr
      have hint (m : Int) (hm : E.buckets = .int m) :
          b = .int (E.fingerprinter.hash text % m) := by
        rw [hm] at hb hE
        rw [Numeral.remainder?_int_of_pos (by simpa [Numeral.toNumber] using hE)] at hb
        exact (Option.some.inj hb).symm
      obtain ⟨hhashed, hanswers⟩ := evaluatePercent_answers_iff hc ho hi hb hr
      have hne : run.hashed ≠ [] := hhashed ▸ List.cons_ne_nil _ _
      refine ⟨iff_of_false (fun h => hne h.2) Bool.false_ne_true.symm,
        fun _ => iff_of_false (fun h => hne h.2) Bool.false_ne_true.symm,
        fun h => absurd h hne, fun _ _ => ⟨b, hb, hint, hhashed, hanswers, ?_, ?_⟩⟩
      · exact fun arm h => ⟨evaluatePercent_of_selects hc ho hi hb h,
          fun hnan => Arm.contains_of_nan_mem_ends hnan b.toNumber⟩
      · exact fun h => ⟨v, hv, evaluatePercent_of_not_selects hc ho hi hb hr h hv⟩

/-- A comparison given by its word answers within bounds of either kind of number, and a truth value
is no threshold. -/
theorem evaluatePercent_law_words :
    let E : Evaluator := { fingerprinter := ⟨"constant", fun _ => 107⟩, buckets := .int 100 }
    let context : Slot Context := .plain (.object [("id", .str "u")])
    let p : Percent := ⟨.str "s", .plain (.str "BETWEEN"), .null,
      .filled ⟨.int 6, .float (.ofRat (15 / 2))⟩⟩
    let q : Percent := ⟨.null, .plain (.str "LESS_OR_EQUAL"), .bool true, .unset⟩
    (Number.ofInt 0).lt E.buckets.toNumber = true ∧ Context.Names context (.str "u") ∧
      p.range.WellFormed ∧ q.range.WellFormed ∧
      p.Selects (.between (.finite 6) (.finite (15 / 2))) ∧ (¬∃ arm, q.Selects arm) ∧
      E.evaluatePercent context (.filled p) = ⟨.ok true, ["s.u"], []⟩ ∧
      E.evaluatePercent context (.filled q) = ⟨.error .invalidOperator, ["u"], [.percentRejected
        (.object [("operator", .str "LESS_OR_EQUAL"), ("microPercent", .bool true)])]⟩ := by
  intro E context p q
  have hE : (Number.ofInt 0).lt E.buckets.toNumber = true := by decide
  have hc : Context.Names context (.str "u") := .own nofun
  have hp : p.range.WellFormed := .filled _
  have hq : q.range.WellFormed := .unset
  have hupper : (Binary64.ofRat (15 / 2)).toNumber = .finite (15 / 2) := by decide +kernel
  have hselects : p.Selects (.between (.finite 6) (.finite (15 / 2))) :=
    .between (.word .between) rfl (.int 6) (hupper ▸ .float _)
  have hnone : ¬∃ arm, q.Selects arm := by
    rintro ⟨_, ⟨_, ht⟩ | ⟨_, ht⟩ | ⟨_, hr, _, _⟩⟩
    · cases ht
    · cases ht
    · cases hr
  obtain ⟨b, -, hb, -, -, hanswer, -⟩ := (evaluatePercent_law E hE hc hp).2.2.2 rfl rfl
  obtain ⟨_, -, -, -, -, -, hrejected⟩ := (evaluatePercent_law E hE hc hq).2.2.2 rfl rfl
  have hseven : b = .int (107 % 100) := hb 100 rfl
  subst hseven
  obtain ⟨v, hv, hrun⟩ := hrejected hnone
  obtain rfl : v = _ := (Except.ok.inj hv).symm
  have hcontains : (Arm.between (.finite 6) (.finite (15 / 2))).contains
      (Numeral.int (107 % 100)).toNumber = true := by decide +kernel
  have hrun' : E.evaluatePercent context (.filled p) = ⟨.ok true, ["s.u"], []⟩ := by
    rw [(hanswer _ hselects).1, hcontains]
    rfl
  exact ⟨hE, hc, hp, hq, hselects, hnone, hrun', hrun⟩

end Evaluator

end Targeting
