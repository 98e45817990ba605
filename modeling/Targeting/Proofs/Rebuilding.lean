import Targeting.Proofs.Decoding
import Targeting.Proofs.Trace

/-!
Conditions rebuilt from below, node by node, in two ways that no decision tells apart from what they
were. One keeps of each node only what decides it: lower variants, fields left over and nodes that
mean nothing show in the log at most. The other decodes at once what would be decoded when it is
reached, and does not even show there.
-/

namespace Targeting

/-! ### Rebuilding -/

section Rebuild

variable (plain : Value → Condition) (node : Node Condition → Node Condition)

mutual

/-- The condition with its plain members exchanged, and with every node exchanged once its members
are rebuilt. -/
def Condition.rebuild : Condition → Condition
  | .plain v => plain v
  | .foreign x => .foreign x
  | .node ⟨anyOf, allOf, always, never, percent, leftover⟩ =>
    .node (node ⟨Group.rebuild anyOf, Group.rebuild allOf, always, never, percent, leftover⟩)

def Group.rebuild : Group Condition → Group Condition
  | .plain v => .plain v
  | .filled m => .filled (Members.rebuild m)
  | .foreign ⟨token, listing, wire, some m⟩ =>
    .foreign ⟨token, listing, wire, some (Members.rebuild m)⟩
  | .foreign ⟨token, listing, wire, none⟩ => .foreign ⟨token, listing, wire, none⟩

def Members.rebuild : Members Condition → Members Condition
  | .loose v =>
    match v.truthy, v.elements? with
    | true, some vs => .of (vs.map plain)
    | _, _ => .loose v
  | .of cs => .of (rebuildAll cs)

def rebuildAll : List Condition → List Condition
  | [] => []
  | c :: rest => Condition.rebuild c :: rebuildAll rest

end

theorem rebuildAll_eq_map (cs : List Condition) :
    rebuildAll plain node cs = cs.map (Condition.rebuild plain node) := by
  induction cs with
  | nil => rfl
  | cons c rest ih => rw [rebuildAll, List.map_cons, ih]

theorem Members.rebuild_eq_mapMembers (m : Members Condition) :
    m.rebuild plain node = m.mapMembers (Condition.rebuild plain node) := by
  cases m with
  | loose v => rfl
  | of cs => rw [Members.rebuild, rebuildAll_eq_map, mapMembers]

theorem Group.rebuild_eq_mapMembers (g : Group Condition) :
    Group.rebuild plain node g = g.mapMembers (Condition.rebuild plain node) := by
  cases g with
  | plain v => rfl
  | filled m => rw [Group.rebuild, mapMembers, Members.rebuild_eq_mapMembers]
  | foreign x =>
    obtain ⟨token, listing, wire, parts⟩ := x
    cases parts with
    | none => rfl
    | some m => rw [Group.rebuild, Members.rebuild_eq_mapMembers]; rfl

theorem Condition.rebuild_node (n : Node Condition) :
    (Condition.node n).rebuild plain node =
      .node (node (n.mapMembers (Condition.rebuild plain node))) := by
  rw [Condition.rebuild, Group.rebuild_eq_mapMembers, Group.rebuild_eq_mapMembers]
  rfl

end Rebuild

/-! ### What decides -/

def Record.isUnknownCondition : Record → Bool
  | .unknownCondition _ => true
  | _ => false

/-- The node with its first set variant alone, the literal false if there is none. -/
def Node.decisive {α : Type} (n : Node α) : Node α :=
  match n.variant with
  | .anyOf g => { (empty : Node α) with anyOf := g }
  | .allOf g => { (empty : Node α) with allOf := g }
  | .always => { (empty : Node α) with always := n.always }
  | .never => { (empty : Node α) with never := n.never }
  | .percent t => { (empty : Node α) with percent := t }
  | .unknown => literal (.bool false)

/-- The condition with nothing in it but what decides its nodes. -/
def Condition.strip : Condition → Condition := rebuild .plain Node.decisive

namespace Node

variable {n : Node Condition}

theorem variant_eq_always (h : n.variant = .always) : n.always.truthy = true := by
  unfold variant at h
  repeat' split at h
  all_goals cases h
  assumption

theorem variant_eq_never (h : n.variant = .never) : n.never.truthy = true := by
  unfold variant at h
  repeat' split at h
  all_goals cases h
  assumption

theorem variant_decisive (n : Node Condition) : n.decisive.variant =
    match n.variant with
    | .unknown => .never
    | v => v := by
  unfold decisive
  cases hv : n.variant with
  | anyOf g =>
    obtain ⟨hs, rfl⟩ := variant_eq_anyOf hv
    exact if_pos hs
  | allOf g =>
    obtain ⟨-, hs, rfl⟩ := variant_eq_allOf hv
    exact if_pos hs
  | always => exact if_pos (variant_eq_always hv)
  | never => exact if_pos (variant_eq_never hv)
  | percent t =>
    obtain ⟨rfl, hs⟩ := variant_eq_percent hv
    exact if_pos hs
  | unknown => rfl

theorem members_decisive (n : Node Condition) : n.decisive.members = n.members := by
  unfold members
  rw [variant_decisive]
  cases n.variant <;> rfl

theorem decisive_mapMembers (f : Condition → Condition) (n : Node Condition) :
    (n.mapMembers f).decisive = n.decisive.mapMembers f := by
  unfold decisive
  rw [variant_mapMembers]
  cases n.variant <;> rfl

/-- One level: a well-formed node comes to what its decisive variant comes to, but for the record of
a node that means nothing. -/
theorem WellFormed.dispatch_decisive (hn : n.WellFormed) {keep : Record → Bool}
    (hk : ∀ v, keep (.unknownCondition v) = false) (test : Test → Run Bool)
    (member : Condition → Run Bool) :
    n.decisive.dispatch (fun t => (test t).keeping keep) (fun m => (member m).keeping keep) =
      (n.dispatch test member).keeping keep := by
  unfold dispatch
  rw [variant_decisive]
  cases hv : n.variant with
  | anyOf g => exact (sweep_conditions_keeping keep true member g).symm
  | allOf g => exact (sweep_conditions_keeping keep false member g).symm
  | always => rfl
  | never => rfl
  | percent t => rfl
  | unknown =>
    obtain ⟨v, hw⟩ := hn.encode_of_unknown hv
    simp [hw, Run.ofExcept, Run.done, Run.note, Run.keeping, hk]

end Node

namespace Evaluator

variable {E : Evaluator} {context : Slot Context} {c : Condition} {level : Numeral}

theorem evaluate_strip_eq_keeping (hc : c.WellFormed) :
    E.evaluate c.strip context level =
      (E.evaluate c context level).keeping fun r => !r.isUnknownCondition := by
  induction c using Condition.members_induction generalizing level with
  | step c ih =>
    cases hc with
    | @node n parts anyOf allOf =>
      have hmember : ∀ m ∈ n.members, E.evaluate m.strip context level.succ =
          (E.evaluate m context level.succ).keeping fun r => !r.isUnknownCondition := by
        intro m hm
        refine ih m hm ?_
        rcases parts.listed_of_mem_members hm with hlisted | hlisted
        · exact anyOf m hlisted
        · exact allOf m hlisted
      have hstrip : (Condition.node n).strip = .node (n.decisive.mapMembers Condition.strip) := by
        rw [Condition.strip, Condition.rebuild_node, Node.decisive_mapMembers]
      rw [hstrip, evaluate_step, evaluate_step E (.node n)]
      by_cases hl : E.maxDepth.toNumber.le level.toNumber = true
      · rw [if_pos hl, if_pos hl]
        rfl
      · rw [if_neg hl, if_neg hl, Condition.toNode, Condition.toNode, Node.dispatch_mapMembers,
          ← parts.dispatch_decisive fun _ => rfl]
        refine Node.dispatch_congr (fun t => ?_) fun m hm => ?_
        · exact (evaluatePercent_keeping (fun _ => rfl) E context t).symm
        · exact hmember m (Node.members_decisive n ▸ hm)

/-- A condition of which every node is stripped of all but its first set variant is decided as
before: with the same answer or failure, with the same texts hashed, and with the same records but
those of nodes that mean nothing. -/
theorem evaluate_strip (E : Evaluator) {c : Condition} (hc : c.WellFormed) (context : Slot Context)
    (level : Numeral) :
    let run := E.evaluate c context level
    let bare := E.evaluate c.strip context level
    bare.outcome = run.outcome ∧ bare.hashed = run.hashed ∧
      bare.log = run.log.filter fun r => !r.isUnknownCondition := by
  intro run bare
  have hbare : bare = run.keeping fun r => !r.isUnknownCondition := evaluate_strip_eq_keeping hc
  rw [hbare]
  exact ⟨rfl, rfl, rfl⟩

/-- A group whose first member is decided by a variant that is not set last, whose second has no
more than literals that are not set, and whose third has a field left over. Only the second is
recorded as unknown; what the first lists is too deep, stripped or not. -/
theorem evaluate_strip_layered :
    let test : Test := .filled (.make (.str "s") (.known .lessOrEqual) (.int 50) .unset)
    let blank : Condition := .node { (Node.empty : Node Condition) with
      always := .int 0, never := .str "", leftover := .object [("beta", .int 1)] }
    let both : Condition := .node { Node.ofAll [blank] with
      always := .bool true, percent := test, leftover := .object [("gamma", .null)] }
    let rest : Condition := .node { (Node.empty : Node Condition) with
      percent := test, leftover := .object [("or", .str "x")] }
    let c : Condition := .node { Node.ofAny [both, blank, rest] with
      allOf := Group.of [rest], never := .bool true }
    let E : Evaluator :=
      { maxDepth := .int 2, buckets := .int 100, fingerprinter := ⟨"f", fun _ => 107⟩ }
    let context : Slot Context := .plain (.object [("id", .str "u")])
    c.WellFormed ∧
      c.strip = .node (.ofAny [.node (.ofAll [.node (.literal (.bool false))]),
        .node (.literal (.bool false)),
        .node { (Node.empty : Node Condition) with percent := test }]) ∧
      E.evaluate c context (.int 0) = ⟨.ok true, ["s.u"],
        [.depthExceeded (.int 2), .unknownCondition (.object [("beta", .int 1)])]⟩ ∧
      E.evaluate c.strip context (.int 0) = ⟨.ok true, ["s.u"], [.depthExceeded (.int 2)]⟩ := by
  intro test blank both rest c E context
  have htest : test.WellFormed := .filled _ .unset
  have hblank : blank.WellFormed := .node ⟨.unset, .unset, .unset, Or.inr ⟨_, rfl⟩⟩ nofun nofun
  have hrest : rest.WellFormed := .node ⟨.unset, .unset, htest, Or.inr ⟨_, rfl⟩⟩ nofun nofun
  have hboth : both.WellFormed :=
    .node ⟨.unset, .listed _, htest, Or.inr ⟨_, rfl⟩⟩ nofun (List.forall_mem_singleton.mpr hblank)
  have hc : c.WellFormed := by
    refine .node ⟨.listed _, .listed _, .unset, Or.inl rfl⟩ ?_ (List.forall_mem_singleton.mpr hrest)
    exact List.forall_mem_cons.mpr
      ⟨hboth, List.forall_mem_cons.mpr ⟨hblank, List.forall_mem_singleton.mpr hrest⟩⟩
  have hrun : E.evaluate c context (.int 0) = ⟨.ok true, ["s.u"],
      [.depthExceeded (.int 2), .unknownCondition (.object [("beta", .int 1)])]⟩ := rfl
  obtain ⟨houtcome, hhashed, hlog⟩ := evaluate_strip E hc context (.int 0)
  rw [hrun] at houtcome hhashed hlog
  exact ⟨hc, rfl, hrun, Run.ext houtcome hhashed hlog⟩

end Evaluator

/-! ### Decoding beforehand -/

namespace Group.WellFormed

variable {g : Group Condition} (f : Condition → Condition)

theorem mapMembers (h : g.WellFormed) : (g.mapMembers f).WellFormed := by
  cases h with
  | unset => exact .unset
  | missing => exact .missing
  | listed cs => exact .listed (cs.map f)

theorem forall_listed_mapMembers (h : g.WellFormed) {p : Condition → Prop} :
    (∀ d ∈ (g.mapMembers f).listed, p d) ↔ ∀ c ∈ g.listed, p (f c) := by
  cases h with
  | unset => exact ⟨nofun, nofun⟩
  | missing => exact ⟨nofun, nofun⟩
  | listed cs => exact List.forall_mem_map

end Group.WellFormed

theorem Node.WellFormed.mapMembers {n : Node Condition} (h : n.WellFormed)
    (f : Condition → Condition) : (n.mapMembers f).WellFormed :=
  ⟨h.anyOf.mapMembers f, h.allOf.mapMembers f, h.percent, h.leftover⟩

namespace Condition

/-- The condition with every plain member decoded, however deep it stands. -/
def resolve : Condition → Condition := rebuild .decode id

/-- A condition with well-formed nodes, of which members may still be plain. -/
inductive Mixed : Condition → Prop where
  | plain (v : Value) : Mixed (.plain v)
  | node {n : Node Condition} (parts : n.WellFormed)
      (anyOf : ∀ c ∈ Group.listed n.anyOf, Mixed c)
      (allOf : ∀ c ∈ Group.listed n.allOf, Mixed c) : Mixed (.node n)

theorem resolve_node (n : Node Condition) :
    (Condition.node n).resolve = .node (n.mapMembers resolve) :=
  rebuild_node .decode id n

theorem Mixed.resolve {c : Condition} (h : c.Mixed) : c.resolve.WellFormed := by
  induction h with
  | plain v => exact decode_wellFormed v
  | node parts _ _ anyOf allOf =>
    rw [resolve_node]
    exact .node (parts.mapMembers _) ((parts.anyOf.forall_listed_mapMembers _).mpr anyOf)
      ((parts.allOf.forall_listed_mapMembers _).mpr allOf)

end Condition

namespace Evaluator

/-- It makes no difference whether plain members are decoded when they are reached or all of them
beforehand: the run is the same in every part. Where nodes are well formed, the condition is so at
every depth once they are. -/
theorem evaluate_resolve (c : Condition) :
    (∀ (E : Evaluator) (context : Slot Context) (level : Numeral),
      E.evaluate c.resolve context level = E.evaluate c context level) ∧
      (c.Mixed → c.resolve.WellFormed) := by
  refine ⟨fun E context level => ?_, Condition.Mixed.resolve⟩
  induction c using Condition.members_induction generalizing level with
  | step c ih =>
    cases c with
    | plain v => exact evaluate_decode E v context level
    | foreign x => rfl
    | node n =>
      rw [Condition.resolve_node, evaluate_step, evaluate_step E (.node n), Condition.toNode,
        Condition.toNode, Node.dispatch_mapMembers]
      -- Beyond the limit nothing is decoded on one side, and what is decoded on the other is unseen.
      split
      · rfl
      · exact Node.dispatch_congr (fun _ => rfl) fun m hm => ih m hm level.succ

/-- Members of all shapes below a typed group. The plain one that holds a group is cut off one level
further down, and the last one is rejected, which is recorded as it was written. -/
theorem evaluate_resolve_assorted :
    let test (operator : String) : Value := .object [("percent", .object
      [("seed", .str "s"), ("operator", .str operator), ("microPercent", .int 5)])]
    let group (members : List Value) : Value := .object [("or", .object
      [("conditions", .array members)])]
    let members := [.null, .int 7, .array [], .object [("and", .str "x")], group [test "LESS_THAN"],
      test "LESS_OR_EQUAL", test "BETWEEN"]
    let typed : Condition := .node (.literal (.bool true))
    let c : Condition := .node (.ofAll [typed, .node (.ofAny (members.map .plain))])
    let E : Evaluator :=
      { maxDepth := .int 3, buckets := .int 100, fingerprinter := ⟨"f", fun _ => 107⟩ }
    let context : Slot Context := .plain (.object [("id", .str "u")])
    c.Mixed ∧ c.resolve.WellFormed ∧
      c.resolve = .node (.ofAll [typed, .node (.ofAny (members.map .decode))]) ∧
      E.evaluate c context (.int 0) = ⟨.error .invalidOperator, ["s.u", "s.u"],
        [.unknownCondition (.object []), .unknownCondition (.object [("condition", .int 7)]),
          .unknownCondition (.object [("condition", .array [])]),
          .unknownCondition (.object [("and", .str "x")]), .depthExceeded (.int 3),
          .percentRejected (.object
            [("seed", .str "s"), ("operator", .str "BETWEEN"), ("microPercent", .int 5)])]⟩ ∧
      E.evaluate c.resolve context (.int 0) = E.evaluate c context (.int 0) := by
  intro test group members typed c E context
  have htyped : typed.Mixed := .node ⟨.unset, .unset, .unset, Or.inl rfl⟩ nofun nofun
  have hany : (Condition.node (.ofAny (members.map .plain))).Mixed := by
    refine .node ⟨.listed _, .unset, .unset, Or.inl rfl⟩ (fun d hd => ?_) nofun
    obtain ⟨v, -, rfl⟩ := List.mem_map.mp hd
    exact .plain v
  have hc : c.Mixed :=
    .node ⟨.unset, .listed _, .unset, Or.inl rfl⟩ nofun
      (List.forall_mem_cons.mpr ⟨htyped, List.forall_mem_singleton.mpr hany⟩)
  obtain ⟨hsame, hwell⟩ := evaluate_resolve c
  exact ⟨hc, hwell hc, rfl, rfl, hsame E context (.int 0)⟩

end Evaluator

end Targeting
