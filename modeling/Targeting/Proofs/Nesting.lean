import Targeting.Evaluator

/-!
How a decision descends. A node is decided from the decisions of the members that its group visits,
and each of those is less deep than the node. Levels beyond the depth of a condition therefore
change nothing, and a decision can be followed level by level, whatever kind of number the limit is.
-/

namespace Targeting

section Sweep

variable {α β : Type} {stop : Bool}

theorem sweep_congr {f g : α → Run Bool} {as : List α} (h : ∀ a ∈ as, f a = g a) :
    sweep stop f as = sweep stop g as := by
  induction as with
  | nil => rfl
  | cons a rest ih =>
    have hr := ih fun b hb => h b (List.mem_cons_of_mem a hb)
    rw [sweep_cons, sweep_cons, h a List.mem_cons_self, hr]

theorem sweep_map (f : β → α) (judge : α → Run Bool) (bs : List β) :
    sweep stop judge (bs.map f) = sweep stop (fun b => judge (f b)) bs := by
  induction bs with
  | nil => rfl
  | cons b rest ih => rw [List.map_cons, sweep_cons, sweep_cons, ih]

end Sweep

/-! ### Nodes -/

/-- The members that an evaluation of a group visits, none where it fails. -/
def Group.visited (g : Group Condition) : List Condition :=
  match g.conditions with
  | .ok cs => cs
  | .error _ => []

theorem Group.visited_of_ok {g : Group Condition} {cs : List Condition}
    (h : g.conditions = .ok cs) : g.visited = cs := by
  rw [Group.visited, h]

namespace Node

/-- What a node comes to, given what percent tests and members come to. -/
def dispatch (test : Test → Run Bool) (member : Condition → Run Bool) (n : Node Condition) :
    Run Bool :=
  match n.variant with
  | .anyOf g => do sweep true member (← Run.ofExcept g.conditions)
  | .allOf g => do sweep false member (← Run.ofExcept g.conditions)
  | .always => return true
  | .never => return false
  | .percent t => test t
  | .unknown => do
    Run.note (.unknownCondition (← Run.ofExcept n.encode))
    return false

/-- The members on which a node depends: those that its deciding group visits. -/
def members (n : Node Condition) : List Condition :=
  match n.variant with
  | .anyOf g | .allOf g => g.visited
  | _ => []

theorem sweep_visited_congr {stop : Bool} {f g : Condition → Run Bool} {G : Group Condition}
    (h : ∀ m ∈ G.visited, f m = g m) :
    (do sweep stop f (← Run.ofExcept G.conditions)) =
      (do sweep stop g (← Run.ofExcept G.conditions)) := by
  cases hc : G.conditions with
  | error e => rfl
  | ok cs =>
    rw [Group.visited_of_ok hc] at h
    have hs : sweep stop f cs = sweep stop g cs := sweep_congr h
    simp only [Run.ofExcept, Run.done, Run.mk_ok_bind, hs]

/-- Only the members on which a node depends matter to it. -/
theorem dispatch_congr {p q : Test → Run Bool} {f g : Condition → Run Bool} {n : Node Condition}
    (ht : ∀ t, p t = q t) (hm : ∀ m ∈ n.members, f m = g m) :
    n.dispatch p f = n.dispatch q g := by
  unfold members at hm
  unfold dispatch
  cases hv : n.variant with
  | anyOf G => rw [hv] at hm; exact sweep_visited_congr hm
  | allOf G => rw [hv] at hm; exact sweep_visited_congr hm
  | always => rfl
  | never => rfl
  | percent t => exact ht t
  | unknown => rfl

theorem variant_eq_anyOf {n : Node Condition} {g : Group Condition} (h : n.variant = .anyOf g) :
    n.anyOf.isSet = true ∧ g = n.anyOf := by
  unfold variant at h
  split at h
  · rename_i hs; cases h; exact ⟨hs, rfl⟩
  · repeat' split at h
    all_goals cases h

theorem variant_eq_allOf {n : Node Condition} {g : Group Condition} (h : n.variant = .allOf g) :
    n.anyOf.isSet = false ∧ n.allOf.isSet = true ∧ g = n.allOf := by
  unfold variant at h
  split at h
  · cases h
  · rename_i ha
    split at h
    · rename_i hs; cases h; exact ⟨by simpa using ha, hs, rfl⟩
    · repeat' split at h
      all_goals cases h

/-- The group that decides a node is one of its two groups. -/
theorem mem_members {n : Node Condition} {m : Condition} (h : m ∈ n.members) :
    m ∈ Group.visited n.anyOf ∨ m ∈ Group.visited n.allOf := by
  unfold members at h
  split at h
  · rename_i hv; exact Or.inl ((variant_eq_anyOf hv).2 ▸ h)
  · rename_i hv; exact Or.inr ((variant_eq_allOf hv).2.2 ▸ h)
  · cases h

/-- A node that means no group has none. -/
theorem not_isSet_of_variant {n : Node Condition} (ha : ∀ g, n.variant ≠ .anyOf g)
    (hb : ∀ g, n.variant ≠ .allOf g) : n.anyOf.isSet = false ∧ n.allOf.isSet = false := by
  have hany : n.anyOf.isSet = false := by
    cases h : n.anyOf.isSet with
    | false => rfl
    | true => exact absurd (by simp [variant, h]) (ha n.anyOf)
  refine ⟨hany, ?_⟩
  cases h : n.allOf.isSet with
  | false => rfl
  | true => exact absurd (by simp [variant, hany, h]) (hb n.allOf)

/-- The node that is a percent test and nothing beside it. -/
def ofTest (p : Percent) : Node Condition := { (empty : Node Condition) with percent := .filled p }

theorem variant_ofTest (p : Percent) : (ofTest p).variant = .percent (.filled p) := rfl

theorem variant_ofAny (cs : List Condition) : (ofAny cs).variant = .anyOf (Group.of cs) := rfl

theorem variant_ofAll (cs : List Condition) : (ofAll cs).variant = .allOf (Group.of cs) := rfl

end Node

/-! ### Members exchanged -/

/-- Other conditions in place of the members that an evaluation visits. -/
def Members.mapMembers (f : Condition → Condition) : Members Condition → Members Condition
  | .loose v =>
    match v.truthy, v.elements? with
    | true, some vs => .of (vs.map fun w => f (.plain w))
    | _, _ => .loose v
  | .of cs => .of (cs.map f)

def Group.mapMembers (f : Condition → Condition) : Group Condition → Group Condition
  | .plain v => .plain v
  | .filled m => .filled (m.mapMembers f)
  | .foreign x => .foreign { x with parts := x.parts.map (Members.mapMembers f) }

def Node.mapMembers (f : Condition → Condition) (n : Node Condition) : Node Condition :=
  { n with anyOf := Group.mapMembers f n.anyOf, allOf := Group.mapMembers f n.allOf }

theorem Members.visited_mapMembers (f : Condition → Condition) (m : Members Condition) :
    (m.mapMembers f).visited .plain = (m.visited .plain).map (List.map f) := by
  cases m with
  | of cs => rfl
  | loose v =>
    cases ht : v.truthy with
    | false => simp [mapMembers, visited, ht, pure, Except.pure, Except.map]
    | true =>
      cases he : v.elements? <;>
        simp [mapMembers, visited, ht, he, Value.toElements, bind, Except.bind, pure, Except.pure,
          Except.map]

namespace Group

variable (f : Condition → Condition) (g : Group Condition)

theorem isSet_mapMembers : (g.mapMembers f).isSet = g.isSet := by
  cases g <;> rfl

theorem mapMembers_of_not_isSet (h : g.isSet = false) : g.mapMembers f = g := by
  cases g with
  | plain v => rfl
  | filled m => cases h
  | foreign x => cases h

theorem conditions_mapMembers : (g.mapMembers f).conditions = g.conditions.map (List.map f) := by
  cases g with
  | plain v => rfl
  | filled m => exact Members.visited_mapMembers f m
  | foreign x =>
    obtain ⟨token, listing, wire, parts⟩ := x
    cases parts with
    | none => rfl
    | some m => exact Members.visited_mapMembers f m

theorem visited_mapMembers : (g.mapMembers f).visited = g.visited.map f := by
  unfold visited
  rw [conditions_mapMembers]
  cases g.conditions <;> rfl

end Group

namespace Node

theorem mapMembers_of_not_isSet {f : Condition → Condition} {n : Node Condition}
    (ha : n.anyOf.isSet = false) (hb : n.allOf.isSet = false) : n.mapMembers f = n := by
  unfold mapMembers
  rw [Group.mapMembers_of_not_isSet f _ ha, Group.mapMembers_of_not_isSet f _ hb]

theorem variant_mapMembers (f : Condition → Condition) (n : Node Condition) :
    (n.mapMembers f).variant =
      match n.variant with
      | .anyOf g => .anyOf (g.mapMembers f)
      | .allOf g => .allOf (g.mapMembers f)
      | v => v := by
  cases hv : n.variant with
  | anyOf g =>
    obtain ⟨h, rfl⟩ := variant_eq_anyOf hv
    simp [variant, mapMembers, Group.isSet_mapMembers, h]
  | allOf g =>
    obtain ⟨ha, hb, rfl⟩ := variant_eq_allOf hv
    simp [variant, mapMembers, Group.isSet_mapMembers, ha, hb]
  | _ =>
    obtain ⟨ha, hb⟩ := not_isSet_of_variant (n := n) (by simp [hv]) (by simp [hv])
    rw [mapMembers_of_not_isSet ha hb, hv]

theorem members_mapMembers (f : Condition → Condition) (n : Node Condition) :
    (n.mapMembers f).members = n.members.map f := by
  unfold members
  rw [variant_mapMembers]
  cases n.variant <;> simp [Group.visited_mapMembers]

theorem sweep_conditions_mapMembers (stop : Bool) (member : Condition → Run Bool)
    (f : Condition → Condition) (g : Group Condition) :
    (do sweep stop member (← Run.ofExcept (g.mapMembers f).conditions)) =
      (do sweep stop (fun m => member (f m)) (← Run.ofExcept g.conditions)) := by
  rw [Group.conditions_mapMembers]
  cases g.conditions with
  | error e => rfl
  | ok cs =>
    have hs : sweep stop member (cs.map f) = sweep stop (fun m => member (f m)) cs :=
      sweep_map f member cs
    simp only [Except.map, Run.ofExcept, Run.done, Run.mk_ok_bind, hs]

/-- A node with other members comes to what it would if its own were taken for those. -/
theorem dispatch_mapMembers (test : Test → Run Bool) (member : Condition → Run Bool)
    (f : Condition → Condition) (n : Node Condition) :
    (n.mapMembers f).dispatch test member = n.dispatch test fun m => member (f m) := by
  unfold dispatch
  rw [variant_mapMembers]
  cases hv : n.variant with
  | anyOf g => exact sweep_conditions_mapMembers true member f g
  | allOf g => exact sweep_conditions_mapMembers false member f g
  | always => rfl
  | never => rfl
  | percent t => rfl
  | unknown =>
    obtain ⟨ha, hb⟩ := not_isSet_of_variant (n := n) (by simp [hv]) (by simp [hv])
    simp only [mapMembers_of_not_isSet ha hb]

end Node

/-! ### Heights -/

theorem Fields.get_cons (key k : Key) (v : Value) (rest : Fields) :
    Fields.get key ((k, v) :: rest) = if k.same key then v else rest.get key := by
  unfold Fields.get
  rw [Fields.find?]
  split <;> rfl

namespace Value

theorem height_le_heightAll {v : Value} {vs : List Value} (h : v ∈ vs) :
    v.height ≤ heightAll vs := by
  induction vs with
  | nil => cases h
  | cons w rest ih =>
    rw [heightAll]
    rcases List.mem_cons.mp h with rfl | h
    · exact Nat.le_max_left _ _
    · exact Nat.le_trans (ih h) (Nat.le_max_right _ _)

theorem height_get_le (key : Key) (fs : Fields) : (Fields.get key fs).height ≤ heightFields fs := by
  induction fs with
  | nil => exact Nat.zero_le _
  | cons f rest ih =>
    obtain ⟨k, v⟩ := f
    rw [Fields.get_cons, heightFields]
    split
    · exact Nat.le_max_left _ _
    · exact Nat.le_trans ih (Nat.le_max_right _ _)

theorem height_get_lt (key : Key) (fs : Fields) :
    (Fields.get key fs).height < (Value.object fs).height := by
  have h := height_get_le key fs
  rw [height]
  omega

/-- What holds of a value once it holds of all that are less deep holds of every value. -/
theorem height_induction {motive : Value → Prop}
    (step : ∀ v, (∀ w : Value, w.height < v.height → motive w) → motive v) (v : Value) :
    motive v := by
  induction hn : v.height using Nat.strongRecOn generalizing v with
  | ind n ih =>
    subst hn
    exact step v fun w hw => ih w.height hw w rfl

/-- What a loop visits is no deeper than what it loops over. -/
theorem height_le_of_mem_elements {v w : Value} {vs : List Value} (h : v.elements? = some vs)
    (hw : w ∈ vs) : w.height ≤ v.height := by
  cases v with
  | array ws =>
    cases h
    have := height_le_heightAll hw
    rw [height]
    omega
  | str s =>
    cases h
    obtain ⟨c, -, rfl⟩ := List.mem_map.mp hw
    exact Nat.le_refl 0
  | object fs =>
    cases h
    obtain ⟨f, -, rfl⟩ := List.mem_map.mp hw
    cases f.1 <;> simp [ofKey, height]
  | _ => cases h

end Value

theorem Condition.height_le_heightAll {c : Condition} {cs : List Condition} (h : c ∈ cs) :
    c.height ≤ heightAll cs := by
  induction cs with
  | nil => cases h
  | cons d rest ih =>
    rw [heightAll]
    rcases List.mem_cons.mp h with rfl | h
    · exact Nat.le_max_left _ _
    · exact Nat.le_trans (ih h) (Nat.le_max_right _ _)

theorem heightAll_le {cs : List Condition} {n : Nat} (h : ∀ c ∈ cs, c.height ≤ n) :
    heightAll cs ≤ n := by
  induction cs with
  | nil => exact Nat.zero_le n
  | cons c rest ih =>
    rw [heightAll]
    exact Nat.max_le.mpr ⟨h c List.mem_cons_self, ih fun d hd => h d (List.mem_cons_of_mem c hd)⟩

theorem Members.height_le_of_visited {m : Members Condition} {cs : List Condition} {c : Condition}
    (h : m.visited .plain = .ok cs) (hc : c ∈ cs) : c.height ≤ m.height := by
  cases m with
  | of ds => cases h; exact Condition.height_le_heightAll hc
  | loose v =>
    rw [Members.visited] at h
    split at h
    · cases he : v.elements? with
      | none => simp [Value.toElements, he, bind, Except.bind] at h
      | some vs =>
        simp only [Value.toElements, he, bind, Except.bind, pure, Except.pure] at h
        cases h
        obtain ⟨w, hw, rfl⟩ := List.mem_map.mp hc
        exact Value.height_le_of_mem_elements he hw
    · cases h; cases hc

theorem Group.height_lt_of_visited {g : Group Condition} {c : Condition} (h : c ∈ g.visited) :
    c.height < g.height := by
  unfold Group.visited at h
  split at h
  case h_2 => cases h
  case h_1 cs hg =>
    cases g with
    | plain v => cases hg
    | filled m =>
      exact Nat.lt_succ_of_le (Members.height_le_of_visited hg h)
    | foreign x =>
      obtain ⟨token, listing, wire, parts⟩ := x
      cases parts with
      | none => cases hg
      | some m => exact Nat.lt_succ_of_le (Members.height_le_of_visited hg h)

namespace Condition

/-- A condition that is decoded is no deeper than the value that spells it. -/
theorem height_decode_le (v : Value) : (decode v).height ≤ v.height := by
  induction v using Value.height_induction with
  | step v ih =>
    cases v with
    | object fs =>
      have hg (key : Key) :
          Group.height (decodeGroup (Fields.get key fs)) ≤ (Value.object fs).height := by
        have hlt := Value.height_get_lt key fs
        cases hv : Fields.get key fs with
        | object gs =>
          rw [hv] at hlt
          have hm := Value.height_get_lt "conditions" gs
          rw [decodeGroup_object]
          cases hw : Fields.get "conditions" gs with
          | array ws =>
            rw [hw] at hm
            have hall : heightAll (decodeAll ws) ≤ Value.heightAll ws := by
              rw [decodeAll_eq_map]
              apply heightAll_le
              intro c hc
              obtain ⟨w, hws, rfl⟩ := List.mem_map.mp hc
              have hle := Value.height_le_heightAll hws
              rw [Value.height] at hm
              exact Nat.le_trans (ih w (by omega)) hle
            simp only [decodeMembers, Group.of, Group.height, Members.height]
            rw [Value.height] at hm
            omega
          | null =>
            simp only [decodeMembers, Group.loose, Group.height, Members.height, Value.height]
            omega
          | _ => simp [decodeMembers, Slot.unset, Group.height]
        | _ => simp [decodeGroup, Slot.unset, Group.height]
      rw [decode, Node.decode_object, Node.assemble, Condition.height]
      exact Nat.max_le.mpr ⟨hg "or", hg "and"⟩
    | _ => simp [decode, Node.decode, Node.stray, Node.empty, Slot.unset, Condition.height,
        Group.height]

theorem height_toNode_le (c : Condition) : (Condition.node c.toNode).height ≤ c.height := by
  cases c with
  | plain v => exact height_decode_le v
  | foreign x => exact height_decode_le x.value
  | node n => exact Nat.le_refl _

/-- The members on which a condition depends are less deep than it is. -/
theorem height_lt_of_mem_members {c m : Condition} (h : m ∈ c.toNode.members) :
    m.height < c.height := by
  refine Nat.lt_of_lt_of_le ?_ (height_toNode_le c)
  rw [Condition.height]
  rcases Node.mem_members h with h | h
  · exact Nat.lt_of_lt_of_le (Group.height_lt_of_visited h) (Nat.le_max_left _ _)
  · exact Nat.lt_of_lt_of_le (Group.height_lt_of_visited h) (Nat.le_max_right _ _)

/-- What holds of a condition once it holds of the members on which it depends holds of every
condition. -/
theorem members_induction {motive : Condition → Prop}
    (step : ∀ c, (∀ m ∈ c.toNode.members, motive m) → motive c) (c : Condition) : motive c := by
  induction hn : c.height using Nat.strongRecOn generalizing c with
  | ind n ih =>
    subst hn
    exact step c fun m hm => ih m.height (height_lt_of_mem_members hm) m rfl

end Condition

/-! ### Levels -/

theorem countLevels_mono {a b : Numeral} (h : a.toNumber.le b.toNumber = true) (bound : Nat)
    (level : Numeral) : countLevels a bound level ≤ countLevels b bound level := by
  induction bound generalizing level with
  | zero => exact Nat.le_refl _
  | succ bound ih =>
    rw [countLevels, countLevels]
    by_cases ha : a.toNumber.le level.toNumber = true
    · rw [if_pos ha]
      exact Nat.zero_le _
    · rw [if_neg ha, if_neg fun hb => ha (Number.le_trans h hb)]
      exact Nat.succ_le_succ (ih level.succ)

theorem countLevels_eq_min (limit : Numeral) {a b : Nat} (h : a ≤ b) (level : Numeral) :
    countLevels limit a level = min a (countLevels limit b level) := by
  induction a generalizing b level with
  | zero => simp [countLevels]
  | succ a ih =>
    cases b with
    | zero => omega
    | succ b =>
      rw [countLevels, countLevels]
      split
      · simp
      · rw [ih (by omega : a ≤ b) level.succ]
        omega

theorem countLevels_int (limit level : Int) (bound : Nat) :
    countLevels (.int limit) bound (.int level) = min bound (limit - level).toNat := by
  induction bound generalizing level with
  | zero => simp [countLevels]
  | succ bound ih =>
    rw [countLevels]
    simp only [Numeral.toNumber, Numeral.succ, Number.ofInt_le_ofInt, ih, decide_eq_true_eq]
    split <;> omega

namespace Evaluator

variable {E : Evaluator} {context : Slot Context} {c : Condition}

theorem judge_succ (E : Evaluator) (context : Slot Context) (levels : Nat) (c : Condition) :
    E.judge context (levels + 1) c =
      c.toNode.dispatch (E.evaluatePercent context) (E.judge context levels) := rfl

/-- Levels beyond the height of a condition change nothing. -/
theorem judge_of_height_lt {m n : Nat} (hm : c.height < m) (hn : c.height < n) :
    E.judge context m c = E.judge context n c := by
  induction m generalizing n c with
  | zero => omega
  | succ m ih =>
    cases n with
    | zero => omega
    | succ n =>
      rw [judge_succ, judge_succ]
      apply Node.dispatch_congr (fun _ => rfl)
      intro d hd
      have hlt := Condition.height_lt_of_mem_members hd
      exact ih (by omega) (by omega)

theorem judge_countLevels {limit : Numeral} {a b : Nat} (ha : c.height < a) (hab : a ≤ b)
    (level : Numeral) :
    E.judge context (countLevels limit a level) c =
      E.judge context (countLevels limit b level) c := by
  have hmin := countLevels_eq_min limit hab level
  by_cases hb : countLevels limit b level ≤ a
  · rw [hmin, Nat.min_eq_right hb]
  · exact judge_of_height_lt (by omega) (by omega)

theorem evaluate_eq_judge_countLevels (E : Evaluator) (c : Condition) (context : Slot Context)
    (level : Numeral) : E.evaluate c context level =
      E.judge context (countLevels E.maxDepth (c.height + 1) level) c := by
  unfold evaluate levelsLeft
  split
  · rename_i m l hm
    rw [hm, countLevels_int]
    by_cases hb : (m - l).toNat ≤ c.height + 1
    · rw [Nat.min_eq_right hb]
    · exact judge_of_height_lt (by omega) (by omega)
  · rfl

/-- One level of a decision. At the limit it is false with a warning; below it a node is decided
from its members, each one level further down. -/
theorem evaluate_step (E : Evaluator) (c : Condition) (context : Slot Context) (level : Numeral) :
    E.evaluate c context level =
      if E.maxDepth.toNumber.le level.toNumber then ⟨.ok false, [], [.depthExceeded E.maxDepth]⟩
      else c.toNode.dispatch (E.evaluatePercent context)
        fun m => E.evaluate m context level.succ := by
  rw [evaluate_eq_judge_countLevels, countLevels]
  split
  · exact judge_zero E context c
  · rw [judge_succ]
    apply Node.dispatch_congr (fun _ => rfl)
    intro m hm
    have hlt := Condition.height_lt_of_mem_members hm
    rw [evaluate_eq_judge_countLevels]
    exact (judge_countLevels (by omega) (by omega) level.succ).symm

/-- A plain value and what it decodes to are evaluated alike. -/
theorem evaluate_decode (E : Evaluator) (v : Value) (context : Slot Context) (level : Numeral) :
    E.evaluate (.decode v) context level = E.evaluate (.plain v) context level := by
  rw [evaluate_step, evaluate_step E (.plain v)]
  rfl

/-- Only percent tests look at the context. -/
theorem judge_congr_context {a b : Slot Context}
    (h : ∀ t, E.evaluatePercent a t = E.evaluatePercent b t) (levels : Nat) (c : Condition) :
    E.judge a levels c = E.judge b levels c := by
  induction levels generalizing c with
  | zero => rfl
  | succ levels ih =>
    rw [judge_succ, judge_succ]
    exact Node.dispatch_congr h fun m _ => ih m

/-- A context and what it is converted to are alike. -/
theorem evaluate_coerce {a : Slot Context} {b : Context} (h : Context.coerce a = .ok b)
    (E : Evaluator) (c : Condition) (level : Numeral) :
    E.evaluate c a level = E.evaluate c (.filled b) level := by
  refine judge_congr_context (fun t => ?_) _ c
  have hb : Context.coerce (.filled b) = .ok b := rfl
  unfold evaluatePercent
  rw [h, hb]

end Evaluator

end Targeting
