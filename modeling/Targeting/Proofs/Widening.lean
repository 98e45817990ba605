import Targeting.Proofs.Failures
import Targeting.Proofs.Matching
import Targeting.Proofs.Pruning
import Targeting.Proofs.Verdicts

/-!
Widening a rollout. Thresholds of percent tests that move outwards let in at least as many
instances, and what was true before does not become false. It may come to fail, but only at a place
to which the decision did not come before.
-/

namespace Targeting

/-! ### Wider tests -/

/-- Numbers in order, or one value twice. -/
inductive Value.AtMost : Value → Value → Prop where
  | same (v : Value) : AtMost v v
  | number {v w : Value} {a b : Number} (hv : v.number? = some a) (hw : w.number? = some b)
    (h : a.le b = true) : AtMost v w

inductive Range.WidensTo : Range → Range → Prop where
  | same (r : Range) : WidensTo r r
  | bounds {b d : Bounds} (lower : d.lower.AtMost b.lower) (upper : b.upper.AtMost d.upper) :
    WidensTo (.filled b) (.filled d)

/-- The second test has seed and comparison of the first and the same thresholds or wider ones. What
the comparison does not look at may be anything. -/
structure Percent.WidensTo (p q : Percent) : Prop where
  seed : q.seed = p.seed
  operator : q.operator = p.operator
  atMost : p.operator.comparison? = some .lessOrEqual → p.threshold.AtMost q.threshold
  above : p.operator.comparison? = some .greaterThan → q.threshold.AtMost p.threshold
  within : p.operator.comparison? = some .between → p.range.WidensTo q.range

inductive Test.WidensTo : Test → Test → Prop where
  | same (t : Test) : WidensTo t t
  | filled {p q : Percent} (h : p.WidensTo q) : WidensTo (.filled p) (.filled q)

/-- The second condition is the first one with tests widened at any places. -/
def Condition.WidensTo : Condition → Condition → Prop := Condition.Matches Test.WidensTo Eq

namespace Value.AtMost

variable {v w : Value}

theorem le_of_le {a : Number} (h : v.AtMost w) (hv : v.number? = some a) :
    ∃ b, w.number? = some b ∧ ∀ x : Number, x.le a = true → x.le b = true := by
  cases h with
  | same => exact ⟨a, hv, fun _ hx => hx⟩
  | number hv' hw h =>
    cases hv.symm.trans hv'
    exact ⟨_, hw, fun _ hx => Number.le_trans hx h⟩

theorem lt_of_lt {b : Number} (h : v.AtMost w) (hw : w.number? = some b) :
    ∃ a, v.number? = some a ∧ ∀ x : Number, b.lt x = true → a.lt x = true := by
  cases h with
  | same => exact ⟨b, hw, fun _ hx => hx⟩
  | number hv hw' h =>
    cases hw.symm.trans hw'
    exact ⟨_, hv, fun _ hx => Number.lt_of_le_of_lt h hx⟩

end Value.AtMost

/-- A wider test has a verdict where the narrower one has, and lets in whatever that one does. -/
theorem Percent.WidensTo.verdict {p q : Percent} (h : p.WidensTo q) {b : Numeral} {x : Bool}
    (hv : p.verdict b = .ok (some x)) :
    ∃ y, q.verdict b = .ok (some y) ∧ (x = true → y = true) := by
  rcases comparison?_of_verdict hv with hop | hop | hop
  · have hoq : q.operator.comparison? = some .lessOrEqual := by rw [h.operator, hop]
    rw [verdict_lessOrEqual hop, Except.ok.injEq, Option.map_eq_some_iff] at hv
    obtain ⟨a, ha, rfl⟩ := hv
    obtain ⟨a', ha', hle⟩ := (h.atMost hop).le_of_le ha
    exact ⟨b.toNumber.le a', by rw [verdict_lessOrEqual hoq, ha']; rfl, hle b.toNumber⟩
  · have hoq : q.operator.comparison? = some .greaterThan := by rw [h.operator, hop]
    rw [verdict_greaterThan hop, Except.ok.injEq, Option.map_eq_some_iff] at hv
    obtain ⟨a, ha, rfl⟩ := hv
    obtain ⟨a', ha', hlt⟩ := (h.above hop).lt_of_lt ha
    exact ⟨a'.lt b.toNumber, by rw [verdict_greaterThan hoq, ha']; rfl, hlt b.toNumber⟩
  · have hoq : q.operator.comparison? = some .between := by rw [h.operator, hop]
    rw [verdict_between hop] at hv
    rw [verdict_between hoq]
    have hr := h.within hop
    generalize p.range = r at hr hv
    generalize q.range = s at hr
    cases hr with
    | same => exact ⟨x, hv, id⟩
    | bounds lower upper =>
      rw [Range.contains?_filled, Except.ok.injEq, Bounds.contains?_eq_some] at hv
      obtain ⟨l, u, hl, hu, rfl⟩ := hv
      obtain ⟨l', hl', hlt⟩ := lower.lt_of_lt hl
      obtain ⟨u', hu', hle⟩ := upper.le_of_le hu
      refine ⟨l'.lt b.toNumber && b.toNumber.le u', ?_, ?_⟩
      · rw [Range.contains?_filled, Bounds.contains?_eq_some.mpr ⟨l', u', hl', hu', rfl⟩]
      · simp only [Bool.and_eq_true]
        exact fun ⟨hx, hy⟩ => ⟨hlt _ hx, hle _ hy⟩

theorem Test.WidensTo.isSet {s t : Test} (h : s.WidensTo t) : t.isSet = s.isSet := by
  cases h <;> rfl

theorem Evaluator.evaluatePercent_widen {E : Evaluator} {context : Slot Context} {s t : Test}
    (h : s.WidensTo t) {x : Bool} (hx : (E.evaluatePercent context s).outcome = .ok x) :
    ∃ y, (E.evaluatePercent context t).outcome = .ok y ∧ (x = true → y = true) := by
  cases h with
  | same => exact ⟨x, hx, id⟩
  | @filled p q h =>
    obtain ⟨ho, c, hc, hi, b, hb, hv⟩ := evaluatePercent_outcome_eq_ok.mp hx
    obtain ⟨y, hy, hxy⟩ := h.verdict hv
    refine ⟨y, evaluatePercent_outcome_eq_ok.mpr ⟨?_, c, hc, hi, b, ?_, hy⟩, hxy⟩
    · rw [h.operator, ho]
    · rw [h.seed, hb]

/-! ### What is true stays true -/

/-- A run that is not false where another one is true. -/
def Run.Upholds (r s : Run Bool) : Prop := r.outcome = .ok true → s.outcome ≠ .ok false

section Sweep

variable {α β : Type} {stop : Bool} {f : α → Run Bool} {g : β → Run Bool} {as : List α}
  {bs : List β}

theorem sweep_cons_outcome (judge : α → Run Bool) (a : α) (rest : List α) :
    (sweep stop judge (a :: rest)).outcome =
      match (judge a).outcome with
      | .ok b => if b == stop then .ok stop else (sweep stop judge rest).outcome
      | .error e => .error e := by
  rw [sweep_cons]
  rcases judge a with ⟨_ | b, h, l⟩
  · rfl
  · rw [Run.mk_ok_bind]
    dsimp only
    split <;> rfl

theorem sweep_upholds (h : List.Forall₂ (fun a b => (f a).Upholds (g b)) as bs) :
    (sweep stop f as).Upholds (sweep stop g bs) := by
  induction h with
  | nil => intro h; rw [sweep_nil] at h ⊢; simp_all
  | @cons a b as bs hab _ ih =>
    unfold Run.Upholds at hab ih ⊢
    rw [sweep_cons_outcome, sweep_cons_outcome]
    cases hb : (g b).outcome with
    | error e => simp
    | ok y =>
      cases ha : (f a).outcome with
      | error e => simp
      | ok x => cases stop <;> cases x <;> cases y <;> simp_all

end Sweep

namespace Node

variable {R : Condition → Condition → Prop} {T : Test → Test → Prop} {L : Value → Value → Prop}
  {test : Test → Run Bool} {f g : Condition → Run Bool} {n m : Node Condition}

theorem sweep_conditions_upholds {stop : Bool} {G K : Group Condition} (h : G.Matches R K)
    (hR : ∀ c, R c c) (hm : ∀ c d, R c d → (f c).Upholds (g d)) :
    (do sweep stop f (← Run.ofExcept G.conditions)).Upholds
      (do sweep stop g (← Run.ofExcept K.conditions)) := by
  rcases h.conditions hR with ⟨e, hG, hK⟩ | ⟨cs, ds, hG, hK, hall⟩
  · rw [hG, hK]
    intro h
    cases h
  · rw [hG, hK]
    exact sweep_upholds (hall.imp hm)

/-- One level: a node upholds a matching one if its tests and members do. -/
theorem Matches.dispatch_upholds (h : n.Matches R T L m) (hR : ∀ c, R c c)
    (hset : ∀ s t, T s t → t.isSet = s.isSet)
    (ht : ∀ s t, T s t → (test s).Upholds (test t))
    (hm : ∀ c d, R c d → (f c).Upholds (g d)) :
    (n.dispatch test f).Upholds (m.dispatch test g) := by
  have hv := h.variant hset
  unfold dispatch
  generalize n.variant = v at hv
  generalize m.variant = w at hv
  cases hv with
  | anyOf h => exact sweep_conditions_upholds h hR hm
  | allOf h => exact sweep_conditions_upholds h hR hm
  | always => intro _ h; cases h
  | never => intro h; cases h
  | percent h => exact ht _ _ h
  | unknown =>
    intro h
    obtain ⟨v, -, h⟩ := Run.bind_outcome_eq_ok.mp h
    cases h

end Node

namespace Condition.WidensTo

theorem toNode {c d : Condition} (h : c.WidensTo d) :
    c.toNode.Matches Condition.WidensTo Test.WidensTo Eq d.toNode :=
  Condition.Matches.toNode h .same fun _ => rfl

theorem ofTest {p q : Percent} (h : p.WidensTo q) :
    WidensTo (.node (.ofTest p)) (.node (.ofTest q)) :=
  .node (.same _) (.same _) ⟨rfl, rfl, .filled h, rfl⟩

theorem ofAny {cs ds : List Condition} (h : List.Forall₂ WidensTo cs ds) :
    WidensTo (.node (.ofAny cs)) (.node (.ofAny ds)) :=
  .node (.listed h) (.same _) ⟨rfl, rfl, .same _, rfl⟩

theorem ofAll {cs ds : List Condition} (h : List.Forall₂ WidensTo cs ds) :
    WidensTo (.node (.ofAll cs)) (.node (.ofAll ds)) :=
  .node (.same _) (.listed h) ⟨rfl, rfl, .same _, rfl⟩

end Condition.WidensTo

namespace Evaluator

variable {E : Evaluator} {context : Slot Context} {c d : Condition}

theorem judge_upholds (h : c.WidensTo d) (levels : Nat) :
    (E.judge context levels c).Upholds (E.judge context levels d) := by
  induction levels generalizing c d with
  | zero => intro h; cases h
  | succ levels ih =>
    rw [judge_succ, judge_succ]
    refine h.toNode.dispatch_upholds .same (fun _ _ => Test.WidensTo.isSet) (fun s t hst hs => ?_)
      fun _ _ => ih
    obtain ⟨y, hy, hxy⟩ := evaluatePercent_widen hst hs
    rw [hy, hxy rfl]
    simp

end Evaluator

/-! ### Where a wider condition fails -/

section Sweep

variable {α : Type} {stop : Bool} {judge : α → Run Bool} {as : List α}

theorem getElem?_of_tried {i : Nat} {a : α} (h : (tried stop judge as)[i]? = some a) :
    as[i]? = some a := by
  induction as generalizing i with
  | nil => cases h
  | cons b rest ih =>
    have hstopped (h : [b][i]? = some a) : (b :: rest)[i]? = some a := by
      cases i with
      | zero => exact h
      | succ i => cases h
    rw [tried] at h
    split at h
    · split at h
      · exact hstopped h
      · cases i with
        | zero => exact h
        | succ i => exact ih h
    · exact hstopped h

theorem outcome_of_mem_tried {x : Bool} (h : (sweep stop judge as).outcome = .ok x) {a : α}
    (ha : a ∈ tried stop judge as) : ∃ y, (judge a).outcome = .ok y := by
  induction as with
  | nil => cases ha
  | cons b rest ih =>
    rw [sweep_cons_outcome] at h
    rw [tried] at ha
    cases hb : (judge b).outcome with
    | error e => rw [hb] at h; cases h
    | ok y =>
      rw [hb] at h ha
      dsimp only at h ha
      split at h
      · rename_i hs
        rw [if_pos hs] at ha
        cases List.mem_singleton.mp ha
        exact ⟨y, hb⟩
      · rename_i hs
        rw [if_neg hs] at ha
        rcases List.mem_cons.mp ha with rfl | ha
        · exact ⟨y, hb⟩
        · exact ih h ha

theorem exists_tried_of_error {e : Fault} (h : (sweep stop judge as).outcome = .error e) :
    ∃ (i : Nat) (a : α), (tried stop judge as)[i]? = some a ∧ (judge a).outcome = .error e := by
  induction as with
  | nil => cases h
  | cons b rest ih =>
    rw [sweep_cons_outcome] at h
    rw [tried]
    cases hb : (judge b).outcome with
    | error e' =>
      rw [hb] at h
      cases h
      exact ⟨0, b, rfl, hb⟩
    | ok y =>
      rw [hb] at h
      dsimp only at h ⊢
      split at h
      · cases h
      · rename_i hs
        rw [if_neg hs]
        obtain ⟨i, a, hi, ha⟩ := ih h
        exact ⟨i + 1, a, hi, ha⟩

end Sweep

namespace Node

variable {R : Condition → Condition → Prop} {T : Test → Test → Prop}
  {test : Test → Run Bool} {f g : Condition → Run Bool} {n m : Node Condition}

/-- A member at which one of two matching groups fails, where the other has an answer: that one has
an answer from the member in its place too, if it comes to it at all. -/
theorem sweep_conditions_fails {stop : Bool} {G K : Group Condition} (h : G.Matches R K)
    (hR : ∀ c, R c c) {x : Bool} {e : Fault}
    (hx : (do sweep stop f (← Run.ofExcept G.conditions)).outcome = .ok x)
    (he : (do sweep stop g (← Run.ofExcept K.conditions)).outcome = .error e) :
    ∃ (i : Nat) (d : Condition), (tried stop g K.visited)[i]? = some d ∧
      (g d).outcome = .error e ∧ ∀ c, (tried stop f G.visited)[i]? = some c →
        R c d ∧ ∃ y, (f c).outcome = .ok y := by
  rcases h.conditions hR with ⟨e', hG, -⟩ | ⟨cs, ds, hG, hK, hall⟩
  · rw [hG] at hx
    cases hx
  · rw [hG, Run.ofExcept_ok_bind] at hx
    rw [hK, Run.ofExcept_ok_bind] at he
    rw [Group.visited_of_ok hG, Group.visited_of_ok hK]
    obtain ⟨i, d, hd, hf⟩ := exists_tried_of_error he
    refine ⟨i, d, hd, hf, fun c hc => ⟨?_, outcome_of_mem_tried hx (List.mem_of_getElem? hc)⟩⟩
    obtain ⟨hi, rfl⟩ := List.getElem?_eq_some_iff.mp (getElem?_of_tried hc)
    obtain ⟨hj, rfl⟩ := List.getElem?_eq_some_iff.mp (getElem?_of_tried hd)
    exact hall.get hi hj

/-- Matching nodes of which only one fails differ in a test, or that one fails in a member to which
the other does not come or of which it has an answer. -/
theorem Matches.dispatch_fails (h : n.Matches R T Eq m) (hR : ∀ c, R c c)
    (hset : ∀ s t, T s t → t.isSet = s.isSet) {x : Bool} {e : Fault}
    (ht : ∀ s t, T s t → (test s).outcome = .ok x → ∃ y, (test t).outcome = .ok y)
    (hx : (n.dispatch test f).outcome = .ok x) (he : (m.dispatch test g).outcome = .error e) :
    ∃ (i : Nat) (d : Condition), (m.entered g)[i]? = some d ∧ (g d).outcome = .error e ∧
      ∀ c, (n.entered f)[i]? = some c → R c d ∧ ∃ y, (f c).outcome = .ok y := by
  have hv := h.variant hset
  unfold dispatch at hx he
  unfold entered
  cases hn : n.variant <;> cases hm : m.variant <;> rw [hn, hm] at hv <;> cases hv <;>
    rw [hn] at hx <;> rw [hm] at he
  case anyOf h => exact sweep_conditions_fails h hR hx he
  case allOf h => exact sweep_conditions_fails h hR hx he
  case always => cases he
  case never => cases he
  case percent h =>
    obtain ⟨y, hy⟩ := ht _ _ h hx
    rw [hy] at he
    cases he
  case unknown =>
    dsimp only at hx he
    rw [encode_of_unknown hn, h.leftover] at hx
    rw [encode_of_unknown hm] at he
    obtain ⟨v, hv, -⟩ := Run.bind_outcome_eq_ok.mp hx
    rw [Run.ofExcept_outcome] at hv
    rw [hv] at he
    cases he

end Node

namespace Evaluator

variable {E : Evaluator} {context : Slot Context} {c d : Condition}

theorem nil_mem_reached (E : Evaluator) (context : Slot Context) (levels : Nat) (c : Condition) :
    [] ∈ E.reached context levels c := by
  cases levels <;> simp [reached]

theorem cons_mem_reached {levels i : Nat} {place : List Nat} :
    i :: place ∈ E.reached context (levels + 1) c ↔
      ∃ m, (c.toNode.entered (E.judge context levels))[i]? = some m ∧
        place ∈ E.reached context levels m := by
  rw [reached, List.mem_cons, List.mem_flatMap]
  constructor
  · rintro (h | ⟨⟨m, j⟩, hm, h⟩)
    · cases h
    · obtain ⟨p, hp, hcons⟩ := List.mem_map.mp h
      cases hcons
      exact ⟨m, List.mem_zipIdx_iff_getElem?.mp hm, hp⟩
  · rintro ⟨m, hm, hp⟩
    exact Or.inr ⟨(m, i), List.mem_zipIdx_iff_getElem?.mpr hm, List.mem_map_of_mem hp⟩

theorem judge_fails (h : c.WidensTo d) {levels : Nat} {x : Bool} {e : Fault}
    (hx : (E.judge context levels c).outcome = .ok x)
    (he : (E.judge context levels d).outcome = .error e) :
    ∃ place ∈ E.reached context levels d, place ∉ E.reached context levels c := by
  induction levels generalizing c d x with
  | zero => cases he
  | succ levels ih =>
    rw [judge_succ] at hx he
    obtain ⟨i, m', hm', hf, hother⟩ := h.toNode.dispatch_fails .same
      (fun _ _ => Test.WidensTo.isSet)
      (fun s t hst hs => (evaluatePercent_widen hst hs).imp fun _ h => h.1) hx he
    cases hm : (c.toNode.entered (E.judge context levels))[i]? with
    | none =>
      refine ⟨[i], cons_mem_reached.mpr ⟨m', hm', nil_mem_reached _ _ _ _⟩, fun hmem => ?_⟩
      obtain ⟨m, hi, -⟩ := cons_mem_reached.mp hmem
      rw [hm] at hi
      cases hi
    | some m =>
      obtain ⟨hmm, y, hy⟩ := hother m hm
      obtain ⟨place, hin, hout⟩ := ih hmm hy hf
      refine ⟨i :: place, cons_mem_reached.mpr ⟨m', hm', hin⟩, fun hmem => hout ?_⟩
      obtain ⟨m₂, hi, hp⟩ := cons_mem_reached.mp hmem
      rw [hm] at hi
      cases hi
      exact hp

end Evaluator

/-! ### Where nothing can fail -/

/-- A test with one of the three comparisons that decide something, and with the numbers for it. -/
def Percent.Usable (p : Percent) : Prop :=
  match p.operator.comparison? with
  | some .lessOrEqual | some .greaterThan => p.threshold.number?.isSome
  | some .between => ∃ b, p.range = .filled b ∧ b.lower.number?.isSome ∧ b.upper.number?.isSome
  | _ => False

/-- A condition of which every test is usable that comes to decide a node. -/
inductive Condition.Usable : Condition → Prop where
  | node {n : Node Condition} (test : ∀ p, n.variant = .percent (.filled p) → p.Usable)
    (members : ∀ c ∈ n.members, Usable c) : Usable (.node n)

namespace Condition.Usable

theorem ofTest {p : Percent} (h : p.Usable) : Usable (.node (.ofTest p)) :=
  .node (fun q hq => by rw [Node.variant_ofTest] at hq; cases hq; exact h) nofun

theorem ofAny {cs : List Condition} (h : ∀ c ∈ cs, c.Usable) : Usable (.node (.ofAny cs)) :=
  .node (fun q hq => by rw [Node.variant_ofAny] at hq; cases hq) h

theorem ofAll {cs : List Condition} (h : ∀ c ∈ cs, c.Usable) : Usable (.node (.ofAll cs)) :=
  .node (fun q hq => by rw [Node.variant_ofAll] at hq; cases hq) h

end Condition.Usable

theorem Percent.Usable.asksFor {p : Percent} (h : p.Usable) : ∃ arm, p.AsksFor arm := by
  unfold Usable at h
  split at h
  · rename_i hop
    obtain ⟨a, ha⟩ := Option.isSome_iff_exists.mp h
    exact ⟨.upTo a, hop, ha⟩
  · rename_i hop
    obtain ⟨a, ha⟩ := Option.isSome_iff_exists.mp h
    exact ⟨.above a, hop, ha⟩
  · rename_i hop
    obtain ⟨r, hr, hl, hu⟩ := h
    obtain ⟨l, hl⟩ := Option.isSome_iff_exists.mp hl
    obtain ⟨u, hu⟩ := Option.isSome_iff_exists.mp hu
    exact ⟨.between l u, hop, r, hr, hl, hu⟩
  · exact h.elim

theorem sweep_answers {α : Type} {stop : Bool} {judge : α → Run Bool} {as : List α}
    (h : ∀ a ∈ as, ∃ x, (judge a).outcome = .ok x) :
    ∃ x, (sweep stop judge as).outcome = .ok x := by
  induction as with
  | nil => exact ⟨_, rfl⟩
  | cons a rest ih =>
    obtain ⟨x, hx⟩ := h a List.mem_cons_self
    rw [sweep_cons_outcome, hx]
    dsimp only
    split
    · exact ⟨stop, rfl⟩
    · exact ih fun b hb => h b (List.mem_cons_of_mem a hb)

theorem Node.WellFormed.dispatch_answers {test : Test → Run Bool} {member : Condition → Run Bool}
    {n : Node Condition} (hn : n.WellFormed)
    (ht : ∀ p, n.variant = .percent (.filled p) → ∃ x, (test (.filled p)).outcome = .ok x)
    (hm : ∀ c ∈ n.members, ∃ x, (member c).outcome = .ok x) :
    ∃ x, (n.dispatch test member).outcome = .ok x := by
  unfold members at hm
  unfold dispatch
  cases hv : n.variant with
  | anyOf g =>
    obtain ⟨hs, rfl⟩ := variant_eq_anyOf hv
    have hg := hn.anyOf.conditions hs
    rw [hv] at hm
    dsimp only at hm ⊢
    rw [Group.visited_of_ok hg] at hm
    rw [hg, Run.ofExcept_ok_bind]
    exact sweep_answers hm
  | allOf g =>
    obtain ⟨-, hs, rfl⟩ := variant_eq_allOf hv
    have hg := hn.allOf.conditions hs
    rw [hv] at hm
    dsimp only at hm ⊢
    rw [Group.visited_of_ok hg] at hm
    rw [hg, Run.ofExcept_ok_bind]
    exact sweep_answers hm
  | always => exact ⟨true, rfl⟩
  | never => exact ⟨false, rfl⟩
  | percent t =>
    obtain ⟨rfl, hs⟩ := variant_eq_percent hv
    obtain ⟨p, hp, -⟩ := hn.percent.filled_of_isSet hs
    rw [hp] at hv
    dsimp only
    rw [hp]
    exact ht p hv
  | unknown =>
    obtain ⟨v, hv⟩ := hn.encode_of_unknown hv
    dsimp only
    rw [hv]
    exact ⟨false, rfl⟩

namespace Evaluator

variable {E : Evaluator} {context : Slot Context} {ctx : Context} {c d : Condition}

theorem evaluatePercent_answers (hE : E.buckets.toNumber ≠ .ofInt 0)
    (hc : Context.coerce context = .ok ctx) (hi : ctx.id.truthy = true) {p : Percent}
    (hp : p.Usable) : ∃ x, (E.evaluatePercent context (.filled p)).outcome = .ok x := by
  obtain ⟨b, hb⟩ :=
    Numeral.remainder?_of_ne_zero hE (E.fingerprinter.hash (saltedId p.seed ctx.id))
  obtain ⟨arm, hp⟩ := hp.asksFor
  exact ⟨_, evaluatePercent_of_asksFor hp hc hi hb⟩

theorem judge_answers (hE : E.buckets.toNumber ≠ .ofInt 0) (hc : Context.coerce context = .ok ctx)
    (hi : ctx.id.truthy = true) (h : c.WidensTo d) (hu : c.Usable) (hd : d.WellFormed)
    (levels : Nat) : ∃ x, (E.judge context levels d).outcome = .ok x := by
  induction levels generalizing c d with
  | zero => exact ⟨false, rfl⟩
  | succ levels ih =>
    cases hu with
    | @node n test members =>
    cases hd with
    | @node m parts anyOf allOf =>
    have hnm : n.Matches Condition.WidensTo Test.WidensTo Eq m := h.toNode
    have hset (s t : Test) (hst : s.WidensTo t) := hst.isSet
    rw [judge_succ]
    refine parts.dispatch_answers (fun q hq => ?_) fun k hk => ?_
    · have hv := hnm.variant hset
      rw [hq] at hv
      cases hn : n.variant <;> rw [hn] at hv <;> cases hv
      rename_i hst
      cases hst with
      | same => exact evaluatePercent_answers hE hc hi (test q hn)
      | @filled p _ hpq =>
        obtain ⟨x, hx⟩ := evaluatePercent_answers hE hc hi (test p hn)
        exact (evaluatePercent_widen (.filled hpq) hx).imp fun _ h => h.1
    · have hall := hnm.members .same hset
      obtain ⟨i, hlt, rfl⟩ := List.getElem_of_mem hk
      have hlt' : i < n.members.length := hall.length_eq ▸ hlt
      exact ih (hall.get hlt' hlt) (members _ (List.getElem_mem hlt'))
        ((Condition.WellFormed.node parts anyOf allOf).of_mem_members hk)

/-- The places to which the evaluation of a condition comes. -/
def visits (E : Evaluator) (c : Condition) (context : Slot Context) (level : Numeral) :
    List (List Nat) :=
  E.reached context (levelsLeft E.maxDepth level (c.height + 1)) c

/-- Wider thresholds never turn a condition from true to false. If the wider one fails, it does so
after it has come to a place to which the narrower one did not come; and for an instance with an id
it is true if every test of the narrower one is usable. -/
theorem evaluate_widen (E : Evaluator) {c d : Condition} (h : c.WidensTo d)
    {context : Slot Context} {ctx : Context} (hc : Context.coerce context = .ok ctx)
    (level : Numeral) (hx : (E.evaluate c context level).outcome = .ok true) :
    (E.evaluate d context level).outcome ≠ .ok false ∧
      (∀ e, (E.evaluate d context level).outcome = .error e →
        ∃ place ∈ E.visits d context level, place ∉ E.visits c context level) ∧
      (E.buckets.toNumber ≠ .ofInt 0 → ctx.id.truthy = true → c.Usable → d.WellFormed →
        (E.evaluate d context level).outcome = .ok true) := by
  have hd : E.evaluate d context level =
      E.judge context (levelsLeft E.maxDepth level (c.height + 1)) d := by
    rw [evaluate, h.height_eq]
  have hvisits : E.visits d context level =
      E.reached context (levelsLeft E.maxDepth level (c.height + 1)) d := by
    rw [visits, h.height_eq]
  have hnot : (E.evaluate d context level).outcome ≠ .ok false := by
    rw [hd]
    exact judge_upholds h _ hx
  refine ⟨hnot, fun e he => ?_, fun hE hi hu hw => ?_⟩
  · rw [hd] at he
    rw [hvisits]
    exact judge_fails h hx he
  · obtain ⟨x, hx⟩ := judge_answers hE hc hi h hu hw (levelsLeft E.maxDepth level (c.height + 1))
    rw [← hd] at hx
    cases x with
    | true => exact hx
    | false => exact absurd hx hnot

/-- At bucket seven: a wider condition is decided by a member that was false before, and another one
fails in a member that a false one before it kept from being reached. -/
theorem evaluate_widen_at_seven :
    let test (c : Comparison) (threshold : Value) (range : Range) : Condition :=
      .node (.ofTest (.make .null (.known c) threshold range))
    let outer (upper lower : Value) : Condition :=
      .node (.ofAll [test .lessOrEqual upper .unset,
        .node (.ofAny [test .between .null (.filled ⟨lower, .int 9⟩),
          test .greaterThan (.int 6) .unset])])
    let narrow := outer (.int 7) (.int 7)
    let wide := outer (.float (.ofDecimal false 75 (-1))) (.int (-1))
    let guarded (upper : Value) : Condition :=
      .node (.ofAny [.node (.ofAll [test .lessOrEqual upper .unset, test .unknown .null .unset]),
        .node (.literal (.bool true))])
    let E : Evaluator := { fingerprinter := ⟨"seven", fun _ => 107⟩, buckets := .int 100 }
    let context : Slot Context := .plain (.object [("id", .str "u")])
    (narrow.WidensTo wide ∧ narrow.Usable ∧ wide.WellFormed ∧
      (E.evaluate narrow context (.int 0)).outcome = .ok true ∧
      (E.evaluate wide context (.int 0)).outcome = .ok true) ∧
    ((guarded (.int 6)).WidensTo (guarded (.int 7)) ∧
      (E.evaluate (guarded (.int 6)) context (.int 0)).outcome = .ok true ∧
      (E.evaluate (guarded (.int 7)) context (.int 0)).outcome = .error .invalidOperator ∧
      ∃ place ∈ E.visits (guarded (.int 7)) context (.int 0),
        place ∉ E.visits (guarded (.int 6)) context (.int 0)) := by
  intro test outer narrow wide guarded E context
  have hwide : narrow.WidensTo wide := by
    refine .ofAll (.cons (.ofTest ⟨rfl, rfl, fun _ => ?_, nofun, nofun⟩)
      (.cons (.ofAny (.cons (.ofTest ⟨rfl, rfl, nofun, nofun, fun _ => ?_⟩)
        (.cons (.same _) .nil))) .nil))
    · exact .number rfl rfl (by decide +kernel)
    · exact .bounds (.number rfl rfl (by decide +kernel)) (.same _)
  have hnarrow : narrow.Usable := by
    refine .ofAll (List.forall_mem_cons.mpr ⟨.ofTest rfl, List.forall_mem_singleton.mpr ?_⟩)
    exact .ofAny (List.forall_mem_cons.mpr ⟨.ofTest ⟨_, rfl, rfl, rfl⟩,
      List.forall_mem_singleton.mpr (.ofTest rfl)⟩)
  have hwell : wide.WellFormed := by
    refine .ofAll (List.forall_mem_cons.mpr ⟨.ofTest .unset, List.forall_mem_singleton.mpr ?_⟩)
    exact .ofAny (List.forall_mem_cons.mpr ⟨.ofTest (.filled _),
      List.forall_mem_singleton.mpr (.ofTest .unset)⟩)
  have hguarded : (guarded (.int 6)).WidensTo (guarded (.int 7)) := by
    refine .ofAny (.cons (.ofAll (.cons (.ofTest ⟨rfl, rfl, fun _ => ?_, nofun, nofun⟩)
      (.cons (.same _) .nil))) (.cons (.same _) .nil))
    exact .number rfl rfl (by decide +kernel)
  have htrue : (E.evaluate narrow context (.int 0)).outcome = .ok true := by decide +kernel
  have htrue' : (E.evaluate (guarded (.int 6)) context (.int 0)).outcome = .ok true := by
    decide +kernel
  have herror : (E.evaluate (guarded (.int 7)) context (.int 0)).outcome =
      .error .invalidOperator := by decide +kernel
  have hc : Context.coerce context = .ok ⟨.str "u", .object []⟩ := rfl
  obtain ⟨-, -, hanswer⟩ := evaluate_widen E hwide hc (.int 0) htrue
  obtain ⟨-, hplace, -⟩ := evaluate_widen E hguarded hc (.int 0) htrue'
  exact ⟨⟨hwide, hnarrow, hwell, htrue, hanswer (by decide) rfl hnarrow hwell⟩, hguarded, htrue',
    herror, hplace _ herror⟩

end Evaluator

end Targeting
