import Targeting.Proofs.Agreement
import Targeting.Proofs.RoundTrips

/-!
Groups of one kind and of the other are duals. Turning every node of a condition around, groups and
literals and the comparisons with one threshold, turns its answer around and nothing else: the same
members are tried and the same texts hashed, and what fails still fails in the same way.
-/

namespace Targeting

/-! ### Turning around -/

def Comparison.dual : Comparison → Comparison
  | .lessOrEqual => .greaterThan
  | .greaterThan => .lessOrEqual
  | c => c

def Operator.dual : Operator → Operator
  | .known c => .known c.dual
  | .plain v => .plain v

def Percent.dual (p : Percent) : Percent := { p with operator := p.operator.dual }

def Test.dual : Test → Test
  | .filled p => .filled p.dual
  | t => t

mutual

/-- The condition with every node turned around. -/
def Condition.dual : Condition → Condition
  | .node ⟨anyOf, allOf, always, never, percent, leftover⟩ =>
    .node ⟨Group.dual allOf, Group.dual anyOf, never, always, Test.dual percent, leftover⟩
  | c => c

def Group.dual : Group Condition → Group Condition
  | .filled m => .filled (Members.dual m)
  | g => g

def Members.dual : Members Condition → Members Condition
  | .of cs => .of (dualAll cs)
  | m => m

def dualAll : List Condition → List Condition
  | [] => []
  | c :: rest => Condition.dual c :: dualAll rest

end

def Node.dual (n : Node Condition) : Node Condition :=
  ⟨Group.dual n.allOf, Group.dual n.anyOf, n.never, n.always, n.percent.dual, n.leftover⟩

theorem Condition.dual_node (n : Node Condition) : (Condition.node n).dual = .node n.dual := rfl

def Variant.dual : Variant Condition → Variant Condition
  | .anyOf g => .allOf g.dual
  | .allOf g => .anyOf g.dual
  | .always => .never
  | .never => .always
  | .percent t => .percent t.dual
  | .unknown => .unknown

theorem dualAll_eq_map (cs : List Condition) : dualAll cs = cs.map Condition.dual := by
  induction cs with
  | nil => rfl
  | cons c rest ih => rw [dualAll, List.map_cons, ih]

namespace Group

variable {g : Group Condition}

theorem isSet_dual (g : Group Condition) : (dual g).isSet = g.isSet := by
  cases g <;> rfl

theorem WellFormed.conditions_dual (h : g.WellFormed) (hs : g.isSet = true) :
    (dual g).conditions = .ok (g.listed.map Condition.dual) := by
  cases h with
  | unset => cases hs
  | missing => rfl
  | listed cs =>
    rw [of, dual, Members.dual, dualAll_eq_map]
    rfl

end Group

/-- A test of which the answer turns around with the comparison. -/
structure Percent.Reversible (p : Percent) : Prop where
  operator : p.operator.Settled
  range : p.range.WellFormed
  threshold : p.threshold.number? ≠ some .nan
  bounds : p.operator = .known .between → ∀ b, p.range = .filled b →
    b.lower.number? = none ∨ b.upper.number? = none

/-- A condition of which every node means one thing alone, and every test is reversible. -/
inductive Condition.Reversible : Condition → Prop where
  | node {n : Node Condition} (parts : n.WellFormed)
    (single : Node.variantKeys.countP n.sets = 1)
    (test : ∀ p, n.percent = .filled p → p.Reversible)
    (anyOf : ∀ c ∈ Group.listed n.anyOf, Reversible c)
    (allOf : ∀ c ∈ Group.listed n.allOf, Reversible c) : Reversible (.node n)

/-- No node lies at the limit or beyond it, where the root stands at a level and the members of each
group one level further down. -/
inductive Condition.Below (limit : Numeral) : Numeral → Condition → Prop where
  | intro {level : Numeral} {c : Condition} (here : limit.toNumber.le level.toNumber = false)
    (members : ∀ m ∈ c.toNode.members, Below limit level.succ m) : Below limit level c

/-! ### Percent tests -/

theorem Test.isSet_dual (t : Test) : t.dual.isSet = t.isSet := by
  cases t <;> rfl

theorem Operator.truthy_dual (o : Operator) : o.dual.truthy = o.truthy := by
  cases o <;> rfl

namespace Percent

variable {p : Percent}

theorem comparison?_dual {c : Comparison} (h : p.operator = .known c) :
    p.dual.operator.comparison? = some c.dual := by
  rw [dual, h]
  rfl

/-- A test that compares with bounds has no answer, for lack of one of them. -/
theorem Reversible.contains?_eq_none (h : p.Reversible) (hop : p.operator = .known .between)
    (b : Number) : p.range.contains? b = .ok none := by
  have hbounds := h.bounds hop
  have hrange := h.range
  generalize p.range = r at hbounds hrange ⊢
  cases hrange with
  | unset => rfl
  | filled d =>
    rw [Range.contains?_filled]
    rcases hc : d.contains? b with _ | x
    · rfl
    · obtain ⟨l, u, hl, hu, -⟩ := Bounds.contains?_eq_some.mp hc
      rcases hbounds d rfl with hn | hn
      · rw [hn] at hl
        cases hl
      · rw [hn] at hu
        cases hu

/-- A bucket that is a number lies on one side of a threshold or on the other. -/
theorem Reversible.verdict_dual (h : p.Reversible) {c : Comparison} (hop : p.operator = .known c)
    {b : Numeral} (hb : b.toNumber ≠ .nan) :
    p.dual.verdict b = (p.verdict b).map (Option.map not) := by
  have hside (t : Number) (ht : p.threshold.number? = some t) :
      (!b.toNumber.le t) = t.lt b.toNumber :=
    Number.not_le hb fun hn => h.threshold (hn ▸ ht)
  have hdual := comparison?_dual hop
  have hown : p.operator.comparison? = some c := by rw [hop]; rfl
  have hthreshold : p.dual.threshold = p.threshold := rfl
  cases c with
  | unknown => rw [verdict, verdict, hown, hdual]; rfl
  | lessOrEqual =>
    rw [verdict_lessOrEqual hown, verdict_greaterThan hdual, hthreshold]
    rcases ht : p.threshold.number? with _ | t
    · rfl
    · simp only [Except.map, Option.map_some, hside t ht]
  | greaterThan =>
    rw [verdict_greaterThan hown, verdict_lessOrEqual hdual, hthreshold]
    rcases ht : p.threshold.number? with _ | t
    · rfl
    · simp only [Except.map, Option.map_some, ← hside t ht, Bool.not_not]
  | between =>
    rw [verdict_between hown, verdict_between hdual, h.contains?_eq_none hop]
    exact h.contains?_eq_none hop _

end Percent

namespace Evaluator

variable {E : Evaluator} {context : Slot Context}

theorem toNumber_bucket_ne_nan (hpos : (Number.ofInt 0).lt E.buckets.toNumber = true)
    {seed id : Value} {b : Numeral} (h : (E.bucket seed id).outcome = .ok b) :
    b.toNumber ≠ .nan := by
  obtain ⟨r, hr, hn⟩ := Numeral.remainder?_of_pos hpos (E.fingerprinter.hash (saltedId seed id))
  rw [bucket_outcome_eq_ok.mp h] at hr
  cases hr
  exact hn

theorem evaluatePercent_dual (hpos : (Number.ofInt 0).lt E.buckets.toNumber = true) {p : Percent}
    (h : p.Reversible) : (E.evaluatePercent context (.filled p)).Agrees not
      (E.evaluatePercent context (.filled p.dual)) := by
  refine evaluatePercent_agrees h.range h.range rfl (Operator.truthy_dual _) fun ho id b hb => ?_
  rcases hop : p.operator with v | c
  · have hsettled := h.operator
    rw [hop] at hsettled ho
    cases hsettled with
    | absent hv =>
      rw [Operator.truthy, hv] at ho
      cases ho
  · exact h.verdict_dual hop (toNumber_bucket_ne_nan hpos hb)

end Evaluator

/-! ### Nodes -/

namespace Node

variable {n : Node Condition}

theorem countP_sets (n : Node Condition) : variantKeys.countP n.sets =
    n.anyOf.isSet.toNat + n.allOf.isSet.toNat + n.always.truthy.toNat + n.never.truthy.toNat +
      n.percent.isSet.toNat := by
  have hnat (b : Bool) : (if b = true then 1 else 0) = b.toNat := by cases b <;> rfl
  simp [variantKeys, List.countP_cons, sets, hnat]
  omega

theorem variant_dual (h : variantKeys.countP n.sets = 1) : n.dual.variant = n.variant.dual := by
  rw [countP_sets] at h
  have hpercent : n.percent.dual.isSet = n.percent.isSet := Test.isSet_dual _
  cases ha : n.anyOf.isSet <;> cases hb : n.allOf.isSet <;> cases hc : n.always.truthy <;>
    cases hd : n.never.truthy <;> cases he : n.percent.isSet <;>
    simp [ha, hb, hc, hd, he] at h <;>
    simp [variant, dual, Variant.dual, Group.isSet_dual, hpercent, ha, hb, hc, hd, he]

theorem variant_ne_unknown (h : variantKeys.countP n.sets = 1) : n.variant ≠ .unknown := by
  intro hv
  rw [countP_sets] at h
  unfold variant at hv
  repeat' split at hv
  all_goals cases hv
  simp_all

theorem sweep_conditions_dual {stop : Bool} {f : Condition → Run Bool} {g : Group Condition}
    (hg : g.WellFormed) (hs : g.isSet = true)
    (h : ∀ m ∈ g.visited, (f m).Agrees not (f m.dual)) :
    (do sweep stop f (← Run.ofExcept g.conditions)).Agrees not
      (do sweep (!stop) f (← Run.ofExcept (Group.dual g).conditions)) := by
  have hc := hg.conditions hs
  rw [Group.visited_of_ok hc] at h
  rw [hc, hg.conditions_dual hs, Run.ofExcept_ok_bind, Run.ofExcept_ok_bind]
  refine sweep_agrees (fun _ _ => Bool.not_inj) ?_
  rw [List.forall₂_map_right_iff]
  exact List.forall₂_same.mpr h

/-- One level: a node that means one thing turns around if its test and its members do. -/
theorem dispatch_dual (hn : n.WellFormed) (hs : variantKeys.countP n.sets = 1)
    {test : Test → Run Bool} {f : Condition → Run Bool}
    (ht : ∀ p, n.percent = .filled p → (test (.filled p)).Agrees not (test (.filled p.dual)))
    (hm : ∀ m ∈ n.members, (f m).Agrees not (f m.dual)) :
    (n.dispatch test f).Agrees not (n.dual.dispatch test f) := by
  unfold members at hm
  rw [dispatch, dispatch, variant_dual hs]
  cases hv : n.variant with
  | anyOf g =>
    obtain ⟨hset, rfl⟩ := variant_eq_anyOf hv
    rw [hv] at hm
    exact sweep_conditions_dual hn.anyOf hset hm
  | allOf g =>
    obtain ⟨-, hset, rfl⟩ := variant_eq_allOf hv
    rw [hv] at hm
    exact sweep_conditions_dual hn.allOf hset hm
  | always => exact .pure true
  | never => exact .pure false
  | percent t =>
    obtain ⟨rfl, hset⟩ := variant_eq_percent hv
    obtain ⟨p, hp, -⟩ := hn.percent.filled_of_isSet hset
    dsimp only [Variant.dual]
    rw [hp]
    exact ht p hp
  | unknown => exact absurd hv (variant_ne_unknown hs)

end Node

/-! ### Conditions -/

namespace Condition.Reversible

theorem ofTest {p : Percent} (h : p.Reversible) : Reversible (.node (.ofTest p)) := by
  refine .node ⟨.unset, .unset, .filled p h.range, Or.inl rfl⟩ ?_ (fun q hq => ?_) nofun nofun
  · rw [Node.countP_sets]
    rfl
  · cases hq
    exact h

theorem ofAny {cs : List Condition} (h : ∀ c ∈ cs, c.Reversible) :
    Reversible (.node (.ofAny cs)) := by
  refine .node ⟨.listed cs, .unset, .unset, Or.inl rfl⟩ ?_ (fun _ hp => by cases hp) h nofun
  rw [Node.countP_sets]
  rfl

theorem ofAll {cs : List Condition} (h : ∀ c ∈ cs, c.Reversible) :
    Reversible (.node (.ofAll cs)) := by
  refine .node ⟨.unset, .listed cs, .unset, Or.inl rfl⟩ ?_ (fun _ hp => by cases hp) nofun h
  rw [Node.countP_sets]
  rfl

end Condition.Reversible

namespace Evaluator

variable {E : Evaluator} {context : Slot Context} {c : Condition} {level : Numeral}

theorem evaluate_agrees_dual (hpos : (Number.ofInt 0).lt E.buckets.toNumber = true)
    (hc : c.Reversible) (hl : c.Below E.maxDepth level) :
    (E.evaluate c context level).Agrees not (E.evaluate c.dual context level) := by
  induction hc generalizing level with
  | @node n parts single test _ _ anyOf allOf =>
    cases hl with
    | intro here members =>
      rw [evaluate_step, evaluate_step, here, if_neg Bool.false_ne_true, if_neg Bool.false_ne_true,
        Condition.dual_node]
      refine Node.dispatch_dual parts single
        (fun p hp => evaluatePercent_dual hpos (test p hp)) fun m hm => ?_
      rcases parts.listed_of_mem_members hm with hlisted | hlisted
      · exact anyOf m hlisted (members m hm)
      · exact allOf m hlisted (members m hm)

/-- A condition and its dual have opposite answers or one failure, and hash the same texts in the
same order, wherever the limit of nesting lies beyond all nodes. -/
theorem evaluate_dual (E : Evaluator) (hpos : (Number.ofInt 0).lt E.buckets.toNumber = true)
    {c : Condition} (hc : c.Reversible) {level : Numeral} (hl : c.Below E.maxDepth level)
    (context : Slot Context) :
    (∀ x, (E.evaluate c context level).outcome = .ok x →
        (E.evaluate c.dual context level).outcome = .ok !x) ∧
      (∀ e, (E.evaluate c context level).outcome = .error e →
        (E.evaluate c.dual context level).outcome = .error e) ∧
      (E.evaluate c.dual context level).hashed = (E.evaluate c context level).hashed := by
  obtain ⟨ho, hh⟩ : (E.evaluate c context level).Agrees not (E.evaluate c.dual context level) :=
    evaluate_agrees_dual hpos hc hl
  refine ⟨fun x hx => ?_, fun e he => ?_, hh⟩
  · rw [ho, hx]
    rfl
  · rw [ho, he]
    rfl

/-- Below both kinds of groups: a test at its threshold, one without a number behind a literal that
keeps it from being reached, and a group without members at the last level. -/
theorem evaluate_dual_at_seven :
    let test (c : Comparison) (threshold : Value) (range : Range) : Condition :=
      .node (.ofTest (.make .null (.known c) threshold range))
    let inner : Condition := .node (.ofAll
      [test .lessOrEqual (.int 7) .unset, .node (.ofAny []), test .greaterThan .null .unset])
    let c : Condition := .node (.ofAny
      [inner, test .greaterThan (.float (.ofDecimal false 65 (-1))) .unset,
        test .between .null (.filled ⟨.int 0, .null⟩)])
    let E : Evaluator :=
      { fingerprinter := ⟨"seven", fun _ => 107⟩, maxDepth := .int 5, buckets := .int 100 }
    let context : Slot Context := .plain (.object [("id", .str "u")])
    (Number.ofInt 0).lt E.buckets.toNumber = true ∧ c.Reversible ∧ c.Below E.maxDepth (.int 2) ∧
      (E.evaluate c context (.int 2)).outcome = .ok true ∧
      (E.evaluate c context (.int 2)).hashed = ["u", "u"] ∧
      (E.evaluate c.dual context (.int 2)).outcome = .ok false ∧
      (E.evaluate c.dual context (.int 2)).hashed = ["u", "u"] := by
  intro test inner c E context
  have hpos : (Number.ofInt 0).lt E.buckets.toNumber = true := by decide
  have hempty : (Condition.node (.ofAny [])).Reversible := .ofAny nofun
  have hinner : inner.Reversible := by
    refine .ofAll (List.forall_mem_cons.mpr ⟨.ofTest ?_, List.forall_mem_cons.mpr ⟨hempty,
      List.forall_mem_singleton.mpr (.ofTest ?_)⟩⟩)
    · exact ⟨.known _, .unset, nofun, nofun⟩
    · exact ⟨.known _, .unset, nofun, nofun⟩
  have hc : c.Reversible := by
    refine .ofAny (List.forall_mem_cons.mpr ⟨hinner, List.forall_mem_cons.mpr ⟨.ofTest ?_,
      List.forall_mem_singleton.mpr (.ofTest ?_)⟩⟩)
    · exact ⟨.known _, .unset, by decide +kernel, nofun⟩
    · refine ⟨.known _, .filled _, nofun, fun _ b hb => ?_⟩
      cases hb
      exact Or.inr rfl
  have hleaf {level : Numeral} {n : Node Condition}
      (h : E.maxDepth.toNumber.le level.toNumber = false) (hn : n.members = []) :
      (Condition.node n).Below E.maxDepth level := by
    refine .intro h fun m hm => ?_
    have hm : m ∈ n.members := hm
    rw [hn] at hm
    cases hm
  have hl : c.Below E.maxDepth (.int 2) := by
    refine .intro (by decide) (List.forall_mem_cons.mpr ⟨.intro (by decide)
      (List.forall_mem_cons.mpr ⟨hleaf (by decide) rfl, List.forall_mem_cons.mpr
        ⟨hleaf (by decide) rfl, List.forall_mem_singleton.mpr (hleaf (by decide) rfl)⟩⟩),
      List.forall_mem_cons.mpr ⟨hleaf (by decide) rfl,
        List.forall_mem_singleton.mpr (hleaf (by decide) rfl)⟩⟩)
  have htrue : (E.evaluate c context (.int 2)).outcome = .ok true := by decide +kernel
  have hhashed : (E.evaluate c context (.int 2)).hashed = ["u", "u"] := by decide +kernel
  obtain ⟨hanswer, -, hsame⟩ := evaluate_dual E hpos hc hl context
  exact ⟨hpos, hc, hl, htrue, hhashed, hanswer true htrue, hsame.trans hhashed⟩

end Evaluator

end Targeting
