import Targeting.Proofs.Widening

/-!
Raising the limit of nesting. Nodes that were cut off take part then, so members come to answers
that they did not have and groups are left at other members. Still nothing that was true becomes
false. It may come to fail, by a percent test that was not asked before.
-/

namespace Targeting

/-! ### The tests that are asked -/

/-- The evaluation of a condition asks a percent test at a place. A node below the limit asks its
test if that is what decides it, and otherwise what the members ask that it enters. -/
inductive Evaluator.Asks (E : Evaluator) (context : Slot Context) :
    Condition → Numeral → List Nat → Test → Prop where
  | here {c : Condition} {level : Numeral} {t : Test}
    (below : E.maxDepth.toNumber.le level.toNumber = false) (test : c.toNode.variant = .percent t) :
    Asks E context c level [] t
  | member {c m : Condition} {level : Numeral} {i : Nat} {place : List Nat} {t : Test}
    (below : E.maxDepth.toNumber.le level.toNumber = false)
    (entered : (c.toNode.entered fun m => E.evaluate m context level.succ)[i]? = some m)
    (asks : Asks E context m level.succ place t) : Asks E context c level (i :: place) t

namespace Node

variable {test : Test → Run Bool} {member : Condition → Run Bool} {n : Node Condition}

theorem sweep_conditions_error {stop : Bool} {g : Group Condition} (hg : g.WellFormed)
    (hs : g.isSet = true) {e : Fault}
    (h : (do sweep stop member (← Run.ofExcept g.conditions)).outcome = .error e) :
    ∃ (i : Nat) (m : Condition), (tried stop member g.visited)[i]? = some m ∧
      (member m).outcome = .error e := by
  have hc := hg.conditions hs
  rw [hc, Run.ofExcept_ok_bind] at h
  rw [Group.visited_of_ok hc]
  exact exists_tried_of_error h

/-- One level: a well-formed node fails by its test or by a member that it enters. -/
theorem WellFormed.dispatch_error (hn : n.WellFormed) {e : Fault}
    (h : (n.dispatch test member).outcome = .error e) :
    (∃ t, n.variant = .percent t ∧ (test t).outcome = .error e) ∨
      ∃ (i : Nat) (m : Condition), (n.entered member)[i]? = some m ∧
        (member m).outcome = .error e := by
  unfold dispatch at h
  unfold entered
  cases hv : n.variant with
  | anyOf g =>
    obtain ⟨hs, rfl⟩ := variant_eq_anyOf hv
    rw [hv] at h
    exact Or.inr (sweep_conditions_error hn.anyOf hs h)
  | allOf g =>
    obtain ⟨-, hs, rfl⟩ := variant_eq_allOf hv
    rw [hv] at h
    exact Or.inr (sweep_conditions_error hn.allOf hs h)
  | always => rw [hv] at h; cases h
  | never => rw [hv] at h; cases h
  | percent t =>
    rw [hv] at h
    exact Or.inl ⟨t, rfl, h⟩
  | unknown =>
    obtain ⟨v, hw⟩ := hn.encode_of_unknown hv
    rw [hv] at h
    dsimp only at h
    rw [hw] at h
    cases h

end Node

namespace Evaluator

variable {E : Evaluator} {context : Slot Context} {c : Condition} {level : Numeral}

/-- What fails asks a test that fails. -/
theorem exists_asks_of_error (hw : c.WellFormed) {e : Fault}
    (h : (E.evaluate c context level).outcome = .error e) :
    ∃ place t, E.Asks context c level place t ∧ (E.evaluatePercent context t).outcome = .error e := by
  induction c using Condition.members_induction generalizing level with
  | step c ih =>
    rw [evaluate_step] at h
    by_cases hl : E.maxDepth.toNumber.le level.toNumber = true
    · rw [if_pos hl] at h
      cases h
    · rw [if_neg hl] at h
      rw [Bool.not_eq_true] at hl
      rcases hw.toNode.dispatch_error h with ⟨t, hv, ht⟩ | ⟨i, m, hm, he⟩
      · exact ⟨[], t, .here hl hv, ht⟩
      · have hmem := Node.mem_members_of_entered (List.mem_of_getElem? hm)
        obtain ⟨place, t, hasks, ht⟩ := ih m hmem (hw.of_mem_members hmem) he
        exact ⟨i :: place, t, .member hl hm hasks, ht⟩

theorem not_asks_of_limit (h : E.maxDepth.toNumber.le level.toNumber = true) (place : List Nat)
    (t : Test) : ¬E.Asks context c level place t := by
  intro hasks
  cases hasks with
  | here below => rw [h] at below; cases below
  | member below => rw [h] at below; cases below

/-! ### Two limits -/

variable {limit : Numeral}

/-- More levels uphold what is true with fewer. -/
theorem judge_upholds_of_le (limit : Numeral) {m n : Nat} (h : m ≤ n) :
    (E.judge context m c).Upholds ({ E with maxDepth := limit }.judge context n c) := by
  induction m generalizing n c with
  | zero =>
    intro htrue
    cases htrue
  | succ m ih =>
    obtain ⟨n, rfl⟩ := Nat.exists_eq_add_of_le' (Nat.lt_of_lt_of_le (Nat.succ_pos m) h)
    rw [judge_succ, judge_succ]
    have hself : c.toNode.Matches Eq Eq Eq c.toNode := .refl (fun _ => rfl) (fun _ => rfl) _
    refine hself.dispatch_upholds (fun _ => rfl) ?_ ?_ ?_
    · rintro s t rfl
      rfl
    · rintro s t rfl htrue
      rw [htrue]
      decide
    · rintro d k rfl
      exact ih (Nat.le_of_succ_le_succ h)

theorem evaluate_upholds (hlimit : E.maxDepth.toNumber.le limit.toNumber = true) :
    (E.evaluate c context level).Upholds ({ E with maxDepth := limit }.evaluate c context level) := by
  rw [evaluate_eq_judge_countLevels, evaluate_eq_judge_countLevels]
  exact judge_upholds_of_le limit (countLevels_mono hlimit _ level)

/-- A condition that has an answer and fails under a greater limit fails by a test that was not
asked for the answer. -/
theorem exists_asks_of_error_above (hlimit : E.maxDepth.toNumber.le limit.toNumber = true)
    (hw : c.WellFormed) {x : Bool} {e : Fault}
    (hx : (E.evaluate c context level).outcome = .ok x)
    (he : ({ E with maxDepth := limit }.evaluate c context level).outcome = .error e) :
    ∃ place t, { E with maxDepth := limit }.Asks context c level place t ∧
      (E.evaluatePercent context t).outcome = .error e ∧
      ∀ s, ¬E.Asks context c level place s := by
  induction c using Condition.members_induction generalizing level x with
  | step c ih =>
    by_cases hl : E.maxDepth.toNumber.le level.toNumber = true
    · obtain ⟨place, t, hasks, ht⟩ := exists_asks_of_error hw he
      exact ⟨place, t, hasks, ht, fun s => not_asks_of_limit hl place s⟩
    · have hl' : ¬limit.toNumber.le level.toNumber = true := fun h =>
        hl (Number.le_trans hlimit h)
      rw [evaluate_step, if_neg hl] at hx
      rw [evaluate_step, if_neg hl'] at he
      rw [Bool.not_eq_true] at hl hl'
      have hself : c.toNode.Matches Eq Eq Eq c.toNode := .refl (fun _ => rfl) (fun _ => rfl) _
      obtain ⟨i, m, hm, hf, hother⟩ := hself.dispatch_fails (fun _ => rfl)
        (by rintro s t rfl; rfl) (by rintro s t rfl h; exact ⟨x, h⟩) hx he
      have hmem := Node.mem_members_of_entered (List.mem_of_getElem? hm)
      cases hn : (c.toNode.entered fun m => E.evaluate m context level.succ)[i]? with
      | none =>
        obtain ⟨place, t, hasks, ht⟩ := exists_asks_of_error (hw.of_mem_members hmem) hf
        refine ⟨i :: place, t, .member hl' hm hasks, ht, fun s hs => ?_⟩
        cases hs with
        | member _ entered => rw [hn] at entered; cases entered
      | some d =>
        obtain ⟨rfl, y, hy⟩ := hother d hn
        obtain ⟨place, t, hasks, ht, hnot⟩ := ih d hmem (hw.of_mem_members hmem) hy hf
        refine ⟨i :: place, t, .member hl' hm hasks, ht, fun s hs => ?_⟩
        cases hs with
        | member _ entered asks =>
          rw [hn] at entered
          cases entered
          exact hnot s asks

/-- A greater limit never turns a condition from true to false. If a well-formed one fails then, it
does so by a percent test to which the evaluation under the smaller limit did not come, and in a
documented way. -/
theorem evaluate_deepen (E : Evaluator) {limit : Numeral}
    (hlimit : E.maxDepth.toNumber.le limit.toNumber = true) (c : Condition)
    (context : Slot Context) (level : Numeral)
    (hx : (E.evaluate c context level).outcome = .ok true) :
    let deeper := { E with maxDepth := limit }
    (deeper.evaluate c context level).outcome ≠ .ok false ∧
      (c.WellFormed → ∀ e, (deeper.evaluate c context level).outcome = .error e →
        (∃ place t, deeper.Asks context c level place t ∧
          (deeper.evaluatePercent context t).outcome = .error e ∧
          ∀ s, ¬E.Asks context c level place s) ∧
        (E.buckets.toNumber ≠ .ofInt 0 → ∀ ctx, Context.coerce context = .ok ctx →
          ∃ failure ∈ Failure.documented, e.failure? = some failure)) := by
  intro deeper
  refine ⟨evaluate_upholds hlimit hx, fun hw e he => ⟨?_, fun hE ctx hc => ?_⟩⟩
  · exact exists_asks_of_error_above hlimit hw hx he
  · have hdocumented : (deeper.evaluate c context level).Documented :=
      judge_documented (E := deeper) hE hc hw _
    exact hdocumented e he

/-- A literal answers for the group before it, of which the limit cuts the members off. One level
more uncovers a test without a comparison there. -/
theorem evaluate_deepen_uncovered :
    let c : Condition := .node (.ofAny
      [.node (.ofAll [.node (.ofTest (.make .null (.plain .null) .null .unset))]),
        .node (.literal (.bool true))])
    let E : Evaluator := { maxDepth := .int 2 }
    let deeper := { E with maxDepth := .float (.ofDecimal false 25 (-1)) }
    let context : Slot Context := .plain (.object [("id", .str "u")])
    E.maxDepth.toNumber.le deeper.maxDepth.toNumber = true ∧
      (E.evaluate c context (.int 0)).outcome = .ok true ∧ c.WellFormed ∧
      (deeper.evaluate c context (.int 0)).outcome = .error .invalidOperator ∧
      (∃ place t, deeper.Asks context c (.int 0) place t ∧
        (deeper.evaluatePercent context t).outcome = .error .invalidOperator ∧
        ∀ s, ¬E.Asks context c (.int 0) place s) ∧
      ∃ failure ∈ Failure.documented, Fault.failure? .invalidOperator = some failure := by
  intro c E deeper context
  have hlimit : E.maxDepth.toNumber.le deeper.maxDepth.toNumber = true := by decide +kernel
  have htrue : (E.evaluate c context (.int 0)).outcome = .ok true := by decide +kernel
  have hliteral : (Condition.node (.literal (.bool true))).WellFormed :=
    .node ⟨.unset, .unset, .unset, Or.inl rfl⟩ nofun nofun
  have hw : c.WellFormed :=
    .ofAny (List.forall_mem_cons.mpr ⟨.ofAll (List.forall_mem_singleton.mpr (.ofTest .unset)),
      List.forall_mem_singleton.mpr hliteral⟩)
  have herror : (deeper.evaluate c context (.int 0)).outcome = .error .invalidOperator := by
    decide +kernel
  obtain ⟨-, hfails⟩ := evaluate_deepen E hlimit c context (.int 0) htrue
  obtain ⟨hasks, hdocumented⟩ := hfails hw _ herror
  exact ⟨hlimit, htrue, hw, herror, hasks, hdocumented (by decide) ⟨.str "u", .object []⟩ rfl⟩

end Evaluator

end Targeting
