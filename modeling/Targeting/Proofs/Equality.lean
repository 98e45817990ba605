import Targeting.Item
import Targeting.Proofs.Reloading

/-!
Conditions that are equal as objects. Equal objects need not be made of the same: a number may be
written in several ways, a truth value counts as one, and a comparison equals the word that spells
it. What a decision looks at stays the same through all that, as long as no truth value stands where
a test wants a number and no seed is anything but a text.
-/

namespace Targeting

/-! ### Numbers and values -/

theorem Numeral.place_fst (a : Numeral) : a.place.1 = a.toNumber := by
  cases a with
  | float x =>
    by_cases hx : x.isNaN = true
    · rw [place, if_pos hx]
      exact (Binary64.toNumber_eq_nan.mpr hx).symm
    · rw [place, if_neg hx]
      rfl
  | _ => rfl

namespace Value

variable {v w : Value}

/-- What equal values have in common: whether they are given, whether they are null, which text they
are and where the number lies that they count as. -/
structure Resembles (v w : Value) : Prop where
  truthy : w.truthy = v.truthy
  null : w = .null ↔ v = .null
  text : ∀ s, w = .str s ↔ v = .str s
  place : w.measure?.map Numeral.place = v.measure?.map Numeral.place

theorem Resembles.refl (v : Value) : v.Resembles v := ⟨rfl, .rfl, fun _ => .rfl, rfl⟩

theorem truthy_of_measure? {a : Numeral} (h : v.measure? = some a) :
    v.truthy = decide (a.place.1 ≠ .finite 0) := by
  rw [Numeral.place_fst]
  cases v with
  | bool b => cases h; cases b <;> decide
  | int n => cases h; simp [truthy, Numeral.toNumber, Number.ofInt]
  | float x => cases h; rfl
  | _ => cases h

/-- Booleans aside, the number a value counts as is the number it is. -/
theorem number?_eq_map_measure? (h : ∀ x, v ≠ .bool x) :
    v.number? = v.measure?.map Numeral.toNumber := by
  cases v with
  | bool b => exact absurd rfl (h b)
  | _ => rfl

theorem Resembles.of_sameMeasure (h : v.sameMeasure w = true) : v.Resembles w := by
  unfold sameMeasure at h
  cases hv : v.measure? with
  | none => simp [hv] at h
  | some a =>
    cases hw : w.measure? with
    | none => simp [hv, hw] at h
    | some b =>
      have hplace : a.place = b.place := Numeral.same_iff.mp (by simpa [hv, hw] using h)
      refine ⟨?_, ?_, fun s => ?_, ?_⟩
      · rw [truthy_of_measure? hv, truthy_of_measure? hw, hplace]
      · constructor <;> rintro rfl
        · cases hw
        · cases hv
      · constructor <;> rintro rfl
        · cases hw
        · cases hv
      · rw [hv, hw, Option.map_some, Option.map_some, hplace]

/-- Equal values resemble each other. -/
theorem Resembles.of_same (h : v.same w = true) : v.Resembles w := by
  cases v with
  | bool b => exact .of_sameMeasure (by rwa [same] at h)
  | int n => exact .of_sameMeasure (by rwa [same] at h)
  | float x => exact .of_sameMeasure (by rwa [same] at h)
  | null =>
    cases w with
    | null => exact .refl _
    | _ => simp [same] at h
  | str s =>
    cases w with
    | str t =>
      have hst : s = t := by simpa [same] using h
      rw [hst]
      exact .refl _
    | _ => simp [same] at h
  | array vs =>
    cases w with
    | array ws =>
      refine ⟨?_, by simp, by simp, rfl⟩
      cases vs <;> cases ws <;> simp_all [same, sameAll, Value.truthy]
    | _ => simp [same] at h
  | object fs =>
    cases w with
    | object gs =>
      refine ⟨?_, by simp, by simp, rfl⟩
      cases fs <;> cases gs <;> simp_all [same, Value.truthy]
    | _ => simp [same] at h
  | foreign x =>
    cases w with
    | foreign y => exact ⟨rfl, by simp, by simp, rfl⟩
    | _ => simp [same] at h

/-- Of a text and of null there is only one. -/
theorem Resembles.eq (h : v.Resembles w) (hv : v = .null ∨ ∃ s, v = .str s) : w = v := by
  rcases hv with hv | ⟨s, hv⟩
  · rw [hv]
    exact h.null.mpr hv
  · rw [hv]
    exact (h.text s).mpr hv

theorem Resembles.number?_eq (h : v.Resembles w) (hv : ∀ x, v ≠ .bool x)
    (hw : ∀ x, w ≠ .bool x) : w.number? = v.number? := by
  have hplace := congrArg (Option.map Prod.fst) h.place
  simp only [Option.map_map, Function.comp_def, Numeral.place_fst] at hplace
  rw [number?_eq_map_measure? hv, number?_eq_map_measure? hw]
  exact hplace

end Value

namespace Item

mutual

/-- A plain value is compared as an object like it is as a value. -/
theorem same_ofValue : (v w : Value) → (ofValue v).same (ofValue w) = v.same w
  | .array vs, .array ws => by rw [ofValue, ofValue, same, Value.same, sameAll_ofValues vs ws]
  | .array _, .null | .array _, .bool _ | .array _, .int _ | .array _, .float _ | .array _, .str _
  | .array _, .object _ | .array _, .foreign _ => by simp [ofValue, same, Value.same]
  | .null, w | .bool _, w | .int _, w | .float _, w | .str _, w | .object _, w | .foreign _, w => by
    cases w <;> simp [ofValue, same, Value.same, Value.sameMeasure, Value.measure?]

theorem sameAll_ofValues : (vs ws : List Value) →
    sameAll (ofValues vs) (ofValues ws) = Value.sameAll vs ws
  | [], [] | [], _ :: _ | _ :: _, [] => by simp [ofValues, sameAll, Value.sameAll]
  | v :: vs, w :: ws => by
    rw [ofValues, ofValues, sameAll, Value.sameAll, same_ofValue v w, sameAll_ofValues vs ws]

end

variable {c : Comparison} {v : Value}

/-- Among values a comparison equals its word alone. -/
theorem comparison_same_ofValue : (comparison c).same (ofValue v) = true ↔ v = .str c.word := by
  cases v <;> simp [ofValue, same, Value.same, Value.sameMeasure, Value.measure?]

theorem ofValue_same_comparison : (ofValue v).same (comparison c) = true ↔ v = .str c.word := by
  cases v <;> simp [ofValue, same, Value.same, Value.sameMeasure, Value.measure?]

end Item

namespace Operator

variable {o q : Operator}

theorem comparison?_of_resembles {v w : Value} (h : v.Resembles w) :
    (Operator.plain w).comparison? = (Operator.plain v).comparison? := by
  by_cases hw : ∃ s, w = .str s
  · obtain ⟨s, hw⟩ := hw
    rw [hw, (h.text s).mp hw]
  · have hnone (u : Value) (hu : ∀ s, u ≠ .str s) : (Operator.plain u).comparison? = none := by
      cases u with
      | str s => exact absurd rfl (hu s)
      | _ => rfl
    rw [hnone w fun s hs => hw ⟨s, hs⟩, hnone v fun s hs => hw ⟨s, (h.text s).mpr hs⟩]

/-- Equal operators resemble each other as what is written of them. -/
theorem resembles_value_of_same (h : o.toItem.same q.toItem = true) :
    o.value.Resembles q.value := by
  cases o with
  | known c =>
    cases q with
    | known d =>
      have hcd : c = d := by simpa [toItem, Item.same] using h
      rw [hcd]
      exact .refl _
    | plain w =>
      have hw : w = .str c.word := Item.comparison_same_ofValue.mp h
      rw [hw]
      exact .refl _
  | plain v =>
    cases q with
    | known d =>
      have hv : v = .str d.word := Item.ofValue_same_comparison.mp h
      rw [hv]
      exact .refl _
    | plain w =>
      rw [toItem, toItem, Item.same_ofValue] at h
      exact .of_same h

theorem truthy_of_same (h : o.toItem.same q.toItem = true) : q.truthy = o.truthy := by
  rw [← truthy_value q, ← truthy_value o]
  exact (resembles_value_of_same h).truthy

theorem comparison?_of_same (h : o.toItem.same q.toItem = true) :
    q.comparison? = o.comparison? := by
  rw [← comparison?_value q, ← comparison?_value o]
  exact comparison?_of_resembles (resembles_value_of_same h)

end Operator

/-! ### Records -/

namespace Item

theorem sameFields_zip {names : List String} {xs ys : List Item} (hx : xs.length = names.length)
    (hy : ys.length = names.length) :
    sameFields names.length (names.zip xs) (names.zip ys) = sameAll xs ys := by
  induction names generalizing xs ys with
  | nil =>
    rw [List.length_nil, List.length_eq_zero_iff] at hx hy
    rw [hx, hy]
    rfl
  | cons name names ih =>
    obtain ⟨x, xs, rfl⟩ := List.exists_cons_of_length_eq_add_one hx
    obtain ⟨y, ys, rfl⟩ := List.exists_cons_of_length_eq_add_one hy
    simp only [List.length_cons, Nat.add_right_cancel_iff] at hx hy
    rw [List.zip_cons_cons, List.zip_cons_cons, List.length_cons, sameFields, sameAll, ih hx hy]

/-- Records of one kind are compared field by field. -/
theorem same_make {kind : Kind} (hk : kind ≠ .context) {xs ys : List Item}
    (hx : xs.length = kind.fields.length) (hy : ys.length = kind.fields.length) :
    (make kind xs).same (make kind ys) = sameAll xs ys := by
  rw [make, make, same, if_neg hk, beq_self_eq_true, Bool.true_and, sameFields_zip hx hy]

end Item

/-! ### Percent tests -/

/-- Bounds that are no truth values. -/
structure Bounds.Definite (b : Bounds) : Prop where
  lower : ∀ x, b.lower ≠ .bool x
  upper : ∀ x, b.upper ≠ .bool x

/-- A test with a text for a seed or none, and with no truth value where a number belongs. -/
structure Percent.Definite (p : Percent) : Prop where
  seed : p.seed = .null ∨ ∃ s, p.seed = .str s
  threshold : ∀ x, p.threshold ≠ .bool x
  range : ∀ b, p.range = .filled b → b.Definite

theorem Bounds.contains?_of_same {a b : Bounds} (ha : a.Definite) (hb : b.Definite)
    (h : a.toItem.same b.toItem = true) (bucket : Number) :
    b.contains? bucket = a.contains? bucket := by
  rw [toItem, toItem, Item.same_make (by decide) rfl rfl] at h
  simp only [Item.sameAll, Item.same_ofValue, Bool.and_eq_true] at h
  obtain ⟨hl, hu, -⟩ := h
  have hlower : b.lower.number? = a.lower.number? :=
    (Value.Resembles.of_same hl).number?_eq ha.lower hb.lower
  have hupper : b.upper.number? = a.upper.number? :=
    (Value.Resembles.of_same hu).number?_eq ha.upper hb.upper
  rw [contains?, contains?, hlower, hupper]

theorem Range.contains?_of_same {r s : Range} (hr : r.WellFormed) (hs : s.WellFormed)
    (ha : ∀ a, r = .filled a → a.Definite) (hb : ∀ b, s = .filled b → b.Definite)
    (h : (r.toItem Bounds.toItem).same (s.toItem Bounds.toItem) = true) (bucket : Number) :
    s.contains? bucket = r.contains? bucket := by
  cases hr with
  | unset =>
    cases hs with
    | unset => rfl
    | filled b => cases h
  | filled a =>
    cases hs with
    | unset => cases h
    | filled b =>
      rw [contains?_filled, contains?_filled, Bounds.contains?_of_same (ha a rfl) (hb b rfl) h]

namespace Percent

variable {p q : Percent}

theorem interchangeable_of_same (hp : p.Definite) (hq : q.Definite) (hpr : p.range.WellFormed)
    (hqr : q.range.WellFormed) (h : p.toItem.same q.toItem = true) :
    Test.Interchangeable (.filled p) (.filled q) := by
  rw [toItem, toItem, Item.same_make (by decide) rfl rfl] at h
  simp only [Item.sameAll, Item.same_ofValue, Bool.and_eq_true] at h
  obtain ⟨hseed, hoperator, hthreshold, hrange, -⟩ := h
  have hverdict (b : Numeral) : q.verdict b = p.verdict b :=
    verdict_congr (fun c _ => by rw [Operator.comparison?_of_same hoperator])
      ((Value.Resembles.of_same hthreshold).number?_eq hp.threshold hq.threshold)
      (Range.contains?_of_same hpr hqr hp.range hq.range hrange _)
  intro E context
  refine Evaluator.evaluatePercent_agrees hpr hqr ((Value.Resembles.of_same hseed).eq hp.seed)
    (Operator.truthy_of_same hoperator) fun _ _ b _ => ?_
  rw [hverdict]
  cases p.verdict b <;> simp [Except.map]

end Percent

/-! ### Conditions -/

/-- A condition of which every part is of its own kind and every test is definite. -/
inductive Condition.Definite : Condition → Prop where
  | node {n : Node Condition} (parts : n.WellFormed)
    (test : ∀ p, n.percent = .filled p → p.Definite)
    (anyOf : ∀ c ∈ Group.listed n.anyOf, Definite c)
    (allOf : ∀ c ∈ Group.listed n.allOf, Definite c) : Definite (.node n)

namespace Condition.Definite

theorem ofAlways (v : Value) :
    Definite (.node { (Node.empty : Node Condition) with always := v }) :=
  .node ⟨.unset, .unset, .unset, Or.inl rfl⟩ (fun _ h => nomatch h) nofun nofun

theorem ofTest {p : Percent} (h : p.Definite) (hr : p.range.WellFormed) :
    Definite (.node (.ofTest p)) := by
  refine .node ⟨.unset, .unset, .filled p hr, Or.inl rfl⟩ (fun q hq => ?_) nofun nofun
  cases hq
  exact h

theorem ofAny {cs : List Condition} (h : ∀ c ∈ cs, c.Definite) : Definite (.node (.ofAny cs)) :=
  .node ⟨.listed cs, .unset, .unset, Or.inl rfl⟩ (fun _ h => nomatch h) h nofun

theorem ofAll {cs : List Condition} (h : ∀ c ∈ cs, c.Definite) : Definite (.node (.ofAll cs)) :=
  .node ⟨.unset, .listed cs, .unset, Or.inl rfl⟩ (fun _ h => nomatch h) nofun h

end Condition.Definite

section Groups

variable {R : Condition → Condition → Prop}

theorem forall₂_of_sameAll {cs ds : List Condition}
    (h : Item.sameAll (conditionItems cs) (conditionItems ds) = true)
    (hR : ∀ c ∈ cs, ∀ d ∈ ds, c.toItem.same d.toItem = true → R c d) : List.Forall₂ R cs ds := by
  induction cs generalizing ds with
  | nil =>
    cases ds with
    | nil => exact .nil
    | cons d ds => cases h
  | cons c cs ih =>
    cases ds with
    | nil => cases h
    | cons d ds =>
      rw [conditionItems, conditionItems, Item.sameAll, Bool.and_eq_true] at h
      refine .cons (hR c List.mem_cons_self d List.mem_cons_self h.1) (ih h.2 ?_)
      intro a ha b hb
      exact hR a (List.mem_cons_of_mem _ ha) b (List.mem_cons_of_mem _ hb)

/-- A group that was never given its members equals no group with a list of them, not even with an
empty one. -/
theorem Group.matches_of_same {kind : Kind} (hkind : kind.fields = ["conditions"])
    {g k : Group Condition} (hg : g.WellFormed) (hk : k.WellFormed)
    (h : (Group.toItem kind g).same (Group.toItem kind k) = true)
    (hR : ∀ c ∈ g.listed, ∀ d ∈ k.listed, c.toItem.same d.toItem = true → R c d) :
    g.Matches R k := by
  have hmake (m l : Members Condition) (h : (Item.make kind [Members.toItem m]).same
      (Item.make kind [Members.toItem l]) = true) :
      (Members.toItem m).same (Members.toItem l) = true := by
    rw [Item.same_make ?_ (by rw [hkind]; rfl) (by rw [hkind]; rfl)] at h
    · simpa [Item.sameAll] using h
    · rintro rfl
      exact absurd hkind (by decide)
  cases hg with
  | unset =>
    cases hk with
    | unset => exact .same _
    | missing => cases h
    | listed ds => cases h
  | missing =>
    cases hk with
    | unset => cases h
    | missing => exact .same _
    | listed ds => cases hmake _ _ h
  | listed cs =>
    cases hk with
    | unset => cases h
    | missing => cases hmake _ _ h
    | listed ds => exact .listed (forall₂_of_sameAll (hmake _ _ h) hR)

end Groups

/-- Equal tests are both set or both not, and where they are set nothing tells them apart. -/
theorem Test.interchangeable_of_same {s t : Test} (hs : s.WellFormed) (ht : t.WellFormed)
    (hp : ∀ p, s = .filled p → p.Definite) (hq : ∀ q, t = .filled q → q.Definite)
    (h : (s.toItem Percent.toItem).same (t.toItem Percent.toItem) = true) :
    t.isSet = s.isSet ∧ (s.isSet = true → s.Interchangeable t) := by
  cases hs with
  | unset =>
    cases ht with
    | unset => exact ⟨rfl, nofun⟩
    | filled q range => cases h
  | filled p hpr =>
    cases ht with
    | unset => cases h
    | filled q hqr =>
      exact ⟨rfl, fun _ => Percent.interchangeable_of_same (hp p rfl) (hq q rfl) hpr hqr h⟩

namespace Condition

theorem toItem_node (n : Node Condition) : (node n).toItem =
    .make .condition [Group.toItem .anyOf n.anyOf, Group.toItem .allOf n.allOf, .ofValue n.always,
      .ofValue n.never, n.percent.toItem Percent.toItem, .ofValue n.leftover] := rfl

/-- One level: equal nodes mean matching things if equal members are related. -/
theorem variant_matches_of_same {R : Condition → Condition → Prop} {n m : Node Condition}
    (hn : n.WellFormed) (hm : m.WellFormed) (hp : ∀ p, n.percent = .filled p → p.Definite)
    (hq : ∀ q, m.percent = .filled q → q.Definite)
    (h : (node n).toItem.same (node m).toItem = true)
    (ha : ∀ c ∈ Group.listed n.anyOf, ∀ d ∈ Group.listed m.anyOf,
      c.toItem.same d.toItem = true → R c d)
    (hb : ∀ c ∈ Group.listed n.allOf, ∀ d ∈ Group.listed m.allOf,
      c.toItem.same d.toItem = true → R c d) :
    n.variant.Matches R Test.Interchangeable m.variant := by
  rw [toItem_node, toItem_node, Item.same_make (by decide) rfl rfl] at h
  simp only [Item.sameAll, Item.same_ofValue, Bool.and_eq_true] at h
  obtain ⟨hany, hall, halways, hnever, hpercent, -⟩ := h
  obtain ⟨hset, htest⟩ := Test.interchangeable_of_same hn.percent hm.percent hp hq hpercent
  exact Node.variant_matches (Group.matches_of_same rfl hn.anyOf hm.anyOf hany ha)
    (Group.matches_of_same rfl hn.allOf hm.allOf hall hb) (Value.Resembles.of_same halways).truthy
    (Value.Resembles.of_same hnever).truthy hset htest

theorem Definite.interchangeable {c d : Condition} (hc : c.Definite) (hd : d.Definite)
    (h : c.toItem.same d.toItem = true) : c.Interchangeable d := by
  induction hc generalizing d with
  | @node n parts test _ _ anyOf allOf =>
    cases hd with
    | @node m hm hq hany hall =>
      have hv := variant_matches_of_same parts hm test hq h
        (fun c hc d hd h => anyOf c hc (hany d hd) h) fun c hc d hd h => allOf c hc (hall d hd) h
      intro E context level
      -- Both nodes stand at one level, so the limit cuts off both or neither.
      rw [Evaluator.evaluate_step, Evaluator.evaluate_step]
      by_cases hl : E.maxDepth.toNumber.le level.toNumber = true
      · rw [if_pos hl, if_pos hl]
        exact .refl _
      · rw [if_neg hl, if_neg hl]
        exact Node.dispatch_agrees hv .refl parts.encode_of_unknown hm.encode_of_unknown
          (fun _ _ h => h E context) fun _ _ h => h E context level.succ

/-- Conditions of which every part is of its own kind are records, which are equal by their
fields. -/
theorem Definite.same_of_equal {c d : Condition} (hc : c.Definite) (hd : d.Definite)
    (h : c.toItem.equal d.toItem = true) : c.toItem.same d.toItem = true := by
  cases hc
  cases hd
  exact h

end Condition

/-- Equal conditions target the same instances: with the same answer or the same failure, and with
the same texts hashed. -/
theorem Evaluator.evaluate_eq_of_equal {c d : Condition} (hc : c.Definite) (hd : d.Definite)
    (h : c.toItem.equal d.toItem = true) (E : Evaluator) (context : Slot Context)
    (level : Numeral) :
    (E.evaluate d context level).outcome = (E.evaluate c context level).outcome ∧
      (E.evaluate d context level).hashed = (E.evaluate c context level).hashed := by
  have hsame := hc.interchangeable hd (hc.same_of_equal hd h) E context level
  exact ⟨hsame.outcome_eq, hsame.hashed⟩

/-- Two ways to write one condition: a truth value or a number for a literal, a comparison or its
word, an integer or a binary64 number for a bound. -/
theorem Evaluator.evaluate_eq_of_equal_mixed :
    let tree (always : Value) (between above : Operator) (three : Value) : Condition :=
      .node (.ofAll [.node { (Node.empty : Node Condition) with always := always },
        .node (.ofAny [.node (.ofTest ⟨.str "s", between, .null, .filled ⟨three, .int 7⟩⟩)]),
        .node (.ofTest ⟨.null, above, .int 7, .unset⟩)])
    let c : Condition := tree (.bool true) (.known .between) (.known .greaterThan) (.int 3)
    let d : Condition := tree (.int 1) (.plain (.str "BETWEEN")) (.plain (.str "GREATER_THAN"))
      (.float (.ofRat 3))
    let E : Evaluator := { fingerprinter := ⟨"seven", fun _ => 107⟩, buckets := .int 100 }
    let context : Slot Context := .plain (.object [("id", .str "u")])
    c.toItem.equal d.toItem = true ∧
      (E.evaluate d context (.int 0)).outcome = .ok false ∧
      (E.evaluate d context (.int 0)).hashed = ["s.u", "u"] := by
  intro tree c d E context
  have htree {always : Value} {between above : Operator} {three : Value}
      (h : ∀ b, three ≠ .bool b) : (tree always between above three).Definite := by
    refine .ofAll (List.forall_mem_cons.mpr ⟨.ofAlways always, List.forall_mem_cons.mpr ⟨?_,
      List.forall_mem_singleton.mpr ?_⟩⟩)
    · refine .ofAny (List.forall_mem_singleton.mpr (.ofTest ⟨.inr ⟨_, rfl⟩, nofun, ?_⟩ (.filled _)))
      rintro b ⟨⟩
      exact ⟨h, nofun⟩
    · exact .ofTest ⟨.inl rfl, nofun, fun _ h => nomatch h⟩ .unset
  have hone : (Numeral.bool true).same (.int 1) = true := by decide
  have hthree : (Numeral.int 3).same (.float (.ofRat 3)) = true := by decide +kernel
  have hequal : c.toItem.equal d.toItem = true := by
    change c.toItem.same d.toItem = true
    simp [c, d, tree, Node.empty, Node.ofAll, Node.ofAny, Node.ofTest, Group.of, Slot.unset,
      Condition.toItem, Group.toItem, Members.toItem, conditionItems, Slot.toItem, Percent.toItem,
      Operator.toItem, Bounds.toItem, Item.ofValue, Item.make, Kind.fields, Item.same,
      Item.sameFields, Item.sameAll, Value.same, Value.sameMeasure, Value.measure?,
      Comparison.word, hone, hthree]
  have hc : c.Definite := htree (by simp)
  have hd : d.Definite := htree (by simp)
  have houtcome : (E.evaluate c context (.int 0)).outcome = .ok false := by decide +kernel
  have hhashed : (E.evaluate c context (.int 0)).hashed = ["s.u", "u"] := by decide +kernel
  obtain ⟨ho, hh⟩ := evaluate_eq_of_equal hc hd hequal E context (.int 0)
  exact ⟨hequal, ho.trans houtcome, hh.trans hhashed⟩

end Targeting
