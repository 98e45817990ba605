import Targeting.Proofs.Agreement
import Targeting.Proofs.RoundTrips

/-!
Saving a condition and loading it again. Its parts need not be in order for that: a literal may be
any value, and the comparison of a test whatever was assigned to it. Loading brings them into order,
leaves out what is not set and moves what is left over. No decision tells the difference.
-/

namespace Targeting

/-! ### What no decision tells apart -/

/-- Tests that agree for every instance. -/
def Test.Interchangeable (s t : Test) : Prop :=
  ∀ (E : Evaluator) (context : Slot Context),
    (E.evaluatePercent context s).Agrees id (E.evaluatePercent context t)

/-- Conditions that agree for every instance, at every level and under every limit. -/
def Condition.Interchangeable (c d : Condition) : Prop :=
  ∀ (E : Evaluator) (context : Slot Context) (level : Numeral),
    (E.evaluate c context level).Agrees id (E.evaluate d context level)

/-- A node that can be saved. Its literals and the parts of its test may be any values. What it has
left over is fields or counts as none, and none of them is taken for a variant that is not set. -/
structure Node.Reloadable (n : Node Condition) : Prop where
  anyOf : Group.WellFormed n.anyOf
  allOf : Group.WellFormed n.allOf
  percent : n.percent.WellFormed
  leftover : ∃ fs, n.extras = .ok fs ∧
    ∀ key ∈ Node.variantKeys, n.sets key = false → Node.fits key (Fields.get key fs) = false

/-- A condition that can be saved: every member at every depth is a node that can. A member that is
still a plain value has no wire form. -/
inductive Condition.Reloadable : Condition → Prop where
  | node {n : Node Condition} (parts : n.Reloadable)
    (anyOf : ∀ c ∈ Group.listed n.anyOf, Reloadable c)
    (allOf : ∀ c ∈ Group.listed n.allOf, Reloadable c) : Reloadable (.node n)

/-! ### Percent tests -/

namespace Operator

theorem truthy_value (o : Operator) : (Operator.plain o.value).truthy = o.truthy := by
  cases o with
  | known c => cases c <;> rfl
  | plain v => rfl

theorem comparison?_value (o : Operator) : (Operator.plain o.value).comparison? = o.comparison? := by
  cases o with
  | known c => exact Comparison.ofWord?_word c
  | plain v => rfl

end Operator

namespace Percent

variable {p q : Percent} {b : Numeral}

theorem verdict_of_no_comparison
    (h : ∀ c, c ≠ .unknown → p.operator.comparison? ≠ some c) : p.verdict b = .ok none := by
  rw [verdict]
  rcases hc : p.operator.comparison? with _ | c
  · rfl
  · have hunknown : c = .unknown := by
      by_contra hne
      exact h c hne hc
    rw [hunknown]

/-- Only the three usable comparisons matter to a verdict, and only the numbers they look at. -/
theorem verdict_congr (hc : ∀ c, c ≠ .unknown →
      (q.operator.comparison? = some c ↔ p.operator.comparison? = some c))
    (ht : q.threshold.number? = p.threshold.number?)
    (hr : q.range.contains? b.toNumber = p.range.contains? b.toNumber) :
    q.verdict b = p.verdict b := by
  by_cases hp : ∃ c, c ≠ .unknown ∧ p.operator.comparison? = some c
  · obtain ⟨c, hne, hp⟩ := hp
    have hq : q.operator.comparison? = some c := (hc c hne).mpr hp
    rw [verdict, verdict, hp, hq, ht, hr]
  · have hnone (c : Comparison) (hne : c ≠ .unknown) : p.operator.comparison? ≠ some c :=
      fun h => hp ⟨c, hne, h⟩
    rw [verdict_of_no_comparison hnone,
      verdict_of_no_comparison fun c hne h => hnone c hne ((hc c hne).mp h)]

theorem truthy_settled (p : Percent) : p.settled.operator.truthy = p.operator.truthy :=
  (Operator.truthy_settle _).trans (Operator.truthy_value _)

theorem verdict_settled (p : Percent) (b : Numeral) : p.settled.verdict b = p.verdict b := by
  refine verdict_congr (fun c hc => ?_) rfl rfl
  rw [← Operator.comparison?_value p.operator]
  exact Operator.comparison?_settle _ hc

/-- A test with its comparison brought into order asks for the same, and fails alike. -/
theorem interchangeable_settled (h : p.range.WellFormed) :
    Test.Interchangeable (.filled p) (.filled p.settled) := by
  intro E context
  refine Evaluator.evaluatePercent_agrees h h rfl p.truthy_settled fun _ _ b _ => ?_
  rw [verdict_settled]
  cases p.verdict b <;> simp [Except.map]

end Percent

/-! ### Nodes -/

namespace Node

variable {R : Condition → Condition → Prop} {T : Test → Test → Prop} {test : Test → Run Bool}
  {f g : Condition → Run Bool} {n m : Node Condition}

theorem sweep_conditions_agrees {stop : Bool} {G K : Group Condition} (h : G.Matches R K)
    (hR : ∀ c, R c c) (hm : ∀ c d, R c d → (f c).Agrees id (g d)) :
    (do sweep stop f (← Run.ofExcept G.conditions)).Agrees id
      (do sweep stop g (← Run.ofExcept K.conditions)) := by
  rcases h.conditions hR with ⟨e, hG, hK⟩ | ⟨cs, ds, hG, hK, hall⟩
  · rw [hG, hK]
    exact .fail e
  · rw [hG, hK]
    exact sweep_agrees Function.injective_id (hall.imp hm)

/-- One level: nodes that mean matching things agree if their tests and members do. What they show
of themselves where they mean nothing does not matter, as long as they can be shown. -/
theorem dispatch_agrees (h : n.variant.Matches R T m.variant) (hR : ∀ c, R c c)
    (hn : n.variant = .unknown → ∃ v, n.encode = .ok v)
    (hm : m.variant = .unknown → ∃ v, m.encode = .ok v)
    (ht : ∀ s t, T s t → (test s).Agrees id (test t))
    (hf : ∀ c d, R c d → (f c).Agrees id (g d)) :
    (n.dispatch test f).Agrees id (m.dispatch test g) := by
  unfold dispatch
  generalize n.variant = a at h hn
  generalize m.variant = b at h hm
  cases h with
  | anyOf h => exact sweep_conditions_agrees h hR hf
  | allOf h => exact sweep_conditions_agrees h hR hf
  | always => exact .refl _
  | never => exact .refl _
  | percent h => exact ht _ _ h
  | unknown =>
    obtain ⟨v, hv⟩ := hn rfl
    obtain ⟨w, hw⟩ := hm rfl
    rw [hv, hw]
    exact ⟨rfl, rfl⟩

/-- What has been written of a node that can be saved is decoded to one that means a matching
thing. -/
theorem Reloadable.decode_encode (h : n.Reloadable)
    (ha : ∀ c ∈ Group.listed n.anyOf, ∃ w, c.encode = .ok w ∧ R c (.decode w))
    (hb : ∀ c ∈ Group.listed n.allOf, ∃ w, c.encode = .ok w ∧ R c (.decode w)) :
    ∃ w, n.encode = .ok w ∧ n.variant.Matches R Test.Interchangeable (decode w).variant := by
  obtain ⟨rest, hextras, hrest⟩ := h.leftover
  obtain ⟨out, hout, -, hset, hfits⟩ := exists_written hextras
    (fun _ => own_fits h.anyOf h.allOf h.percent ha hb) hrest
  have hunset (key : Key) (hk : key ∈ variantKeys) (hs : n.sets key = false) :
      fits key (Fields.get key out) = false := (hfits key hk).trans hs
  refine ⟨.object out, hout, ?_⟩
  rw [decode_object]
  refine variant_matches ?_ ?_ ?_ ?_ ?_ fun hs => ?_
  · exact h.anyOf.decodeGroup_written ha (hset "or") (hunset "or" (by decide))
  · exact h.allOf.decodeGroup_written hb (hset "and") (hunset "and" (by decide))
  · exact (truthy_literalOf _).trans (hfits "true" (by decide))
  · exact (truthy_literalOf _).trans (hfits "false" (by decide))
  · exact (isSet_percentOf _).trans (hfits "percent" (by decide))
  · obtain ⟨p, w, hp, hrange, hw, -, hq⟩ := h.percent.percentOf_encode hs
    have hget : n.percent.encode = .ok (Fields.get "percent" out) := hset "percent" hs
    have hpercent : percentOf (Fields.get "percent" out) = .filled p.settled := by
      rw [hw] at hget
      cases hget
      exact hq
    dsimp only [assemble]
    rw [hp, hpercent]
    exact p.interchangeable_settled hrange

end Node

/-! ### Conditions -/

namespace Condition

theorem Interchangeable.refl (c : Condition) : c.Interchangeable c :=
  fun _ _ _ => .refl _

theorem Reloadable.interchangeable {c : Condition} (h : c.Reloadable) :
    ∃ w, c.encode = .ok w ∧ c.Interchangeable (.decode w) := by
  induction h with
  | @node n parts _ _ anyOf allOf =>
    obtain ⟨w, hw, hv⟩ := parts.decode_encode anyOf allOf
    obtain ⟨v, hd, -⟩ := (decode_regular w).matches_decode
    refine ⟨w, hw, fun E context level => ?_⟩
    -- Both nodes stand at one level, so the limit cuts off both or neither.
    rw [Evaluator.evaluate_step, Evaluator.evaluate_step]
    by_cases hl : E.maxDepth.toNumber.le level.toNumber = true
    · rw [if_pos hl, if_pos hl]
      exact .refl _
    · rw [if_neg hl, if_neg hl]
      exact Node.dispatch_agrees hv .refl (fun _ => ⟨w, hw⟩) (fun _ => ⟨v, hd⟩)
        (fun _ _ h => h E context) fun _ _ h => h E context level.succ

end Condition

/-- Whatever can be saved is decided as before once it is loaded again, whether it is decoded at
once or left as it was written: with the same answer or the same failure, and with the same texts
hashed. -/
theorem Evaluator.evaluate_reload {c : Condition} (hc : c.Reloadable) :
    ∃ w, c.encode = .ok w ∧ ∀ d, d = .decode w ∨ d = .plain w →
      ∀ (E : Evaluator) (context : Slot Context) (level : Numeral),
        (E.evaluate d context level).outcome = (E.evaluate c context level).outcome ∧
          (E.evaluate d context level).hashed = (E.evaluate c context level).hashed := by
  obtain ⟨w, hw, hsame⟩ := hc.interchangeable
  refine ⟨w, hw, fun d hd E context level => ?_⟩
  have hd : E.evaluate d context level = E.evaluate (.decode w) context level := by
    rcases hd with rfl | rfl
    · rfl
    · exact (E.evaluate_decode w context level).symm
  rw [hd]
  exact ⟨(hsame E context level).outcome_eq, (hsame E context level).hashed⟩

/-- Words assigned for comparisons, a literal that is a text, and left-over fields of which one is
no group and another gives way to the test of its node. The last test is rejected both times. -/
theorem Evaluator.evaluate_reload_unsettled :
    let test (word : String) (threshold : Value) (rest : Fields) : Condition :=
      .node { (Node.empty : Node Condition) with
        percent := .filled ⟨.int 5, .plain (.str word), threshold, .unset⟩
        leftover := .object rest }
    let loud : Condition := .node { (Node.empty : Node Condition) with
      always := .str "yes"
      leftover := .object [("or", .int 3), ("false", .null), ("note", .str "x")] }
    let above : Condition := test "GREATER_THAN" (.int 6) [("percent", .object [])]
    let c : Condition := .node (.ofAll [loud, .node (.ofAny [above]), test "foo" (.int 6) []])
    let E : Evaluator :=
      { fingerprinter := ⟨"seven", fun _ => 107⟩, maxDepth := .int 5, buckets := .int 100 }
    let context : Slot Context := .plain (.object [("id", .str "u")])
    c.Reloadable ∧ ∃ w, c.encode = .ok w ∧ ∀ d, d = .decode w ∨ d = .plain w →
      (E.evaluate d context (.int 0)).outcome = .error .invalidOperator ∧
      (E.evaluate d context (.int 0)).hashed = ["5.u", "5.u"] := by
  intro test loud above c E context
  have htest (word : String) (threshold : Value) {rest : Fields}
      (h : ∀ key ∈ Node.variantKeys, key ≠ .str "percent" →
        Node.fits key (Fields.get key rest) = false) : (test word threshold rest).Reloadable := by
    refine .node ⟨.unset, .unset, .filled _ .unset, rest, ?_, fun key hk hs => h key hk ?_⟩ nofun
      nofun
    · cases rest <;> rfl
    · rintro rfl
      cases hs
  have hloud : loud.Reloadable := by
    refine .node ⟨.unset, .unset, .unset, _, rfl, fun key hk hs => ?_⟩ nofun nofun
    rcases Node.mem_variantKeys.mp hk with rfl | rfl | rfl | rfl | rfl
    · rfl
    · rfl
    · cases hs
    · rfl
    · rfl
  have habove : above.Reloadable := htest _ _ (by decide)
  have hinner : (Condition.node (.ofAny [above])).Reloadable :=
    .node ⟨.listed _, .unset, .unset, [], rfl, by decide⟩ (List.forall_mem_singleton.mpr habove) nofun
  have hc : c.Reloadable := by
    refine .node ⟨.unset, .listed _, .unset, [], rfl, by decide⟩ nofun ?_
    exact List.forall_mem_cons.mpr ⟨hloud, List.forall_mem_cons.mpr ⟨hinner,
      List.forall_mem_singleton.mpr (htest _ _ (by decide))⟩⟩
  have houtcome : (E.evaluate c context (.int 0)).outcome = .error .invalidOperator := by
    decide +kernel
  have hhashed : (E.evaluate c context (.int 0)).hashed = ["5.u", "5.u"] := by decide +kernel
  obtain ⟨w, hw, hsame⟩ := evaluate_reload hc
  refine ⟨hc, w, hw, fun d hd => ?_⟩
  obtain ⟨ho, hh⟩ := hsame d hd E context (.int 0)
  exact ⟨ho.trans houtcome, hh.trans hhashed⟩

end Targeting
