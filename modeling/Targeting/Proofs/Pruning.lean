import Targeting.Proofs.Trace
import Mathlib.Data.List.Nodup

/-!
Limiting the depth of nesting and cutting the condition off at that depth are one thing. What a
limited decision has beyond a decision of the pruned condition are its warnings, one for each cut
node that the decision of the pruned condition comes to.
-/

namespace Targeting

def Record.isDepthExceeded : Record → Bool
  | .depthExceeded _ => true
  | _ => false

/-- The literal false. -/
def Condition.falsehood : Condition := .node (.literal (.bool false))

/-- A condition with every node at a distance from its root replaced by the literal false. -/
def Condition.prune : Nat → Condition → Condition
  | 0, _ => .falsehood
  | d + 1, c => .node (c.toNode.mapMembers (prune d))

/-! ### Places -/

/-- The members that a decision of a node goes on to. -/
def Node.entered (member : Condition → Run Bool) (n : Node Condition) : List Condition :=
  match n.variant with
  | .anyOf g => tried true member g.visited
  | .allOf g => tried false member g.visited
  | _ => []

/-- The places of the nodes that a decision comes to, in order. A place is the way to it from the
root, by positions among the members that are visited. -/
def Evaluator.reached (E : Evaluator) (context : Slot Context) : Nat → Condition → List (List Nat)
  | 0, _ => [[]]
  | levels + 1, c =>
    [] :: (c.toNode.entered (E.judge context levels)).zipIdx.flatMap fun m =>
      (E.reached context levels m.1).map (m.2 :: ·)

private theorem flatMap_fst_zipIdx {α β : Type} (f : α → List β) (as : List α) :
    as.flatMap f = as.zipIdx.flatMap fun a => f a.1 := by
  conv_lhs => rw [← List.zipIdx_map_fst 0 as, List.flatMap_map]

namespace Node

variable {test : Test → Run Bool} {member : Condition → Run Bool} {n : Node Condition}

theorem mem_members_of_entered {m : Condition} (h : m ∈ n.entered member) : m ∈ n.members := by
  unfold entered at h
  unfold members
  cases hv : n.variant with
  | anyOf g => rw [hv] at h; exact mem_of_mem_tried h
  | allOf g => rw [hv] at h; exact mem_of_mem_tried h
  | _ => rw [hv] at h; cases h

theorem entered_congr {f g : Condition → Run Bool}
    (h : ∀ m ∈ n.members, (f m).outcome = (g m).outcome) : n.entered f = n.entered g := by
  unfold members at h
  unfold entered
  cases hv : n.variant with
  | anyOf G => rw [hv] at h; exact tried_congr h
  | allOf G => rw [hv] at h; exact tried_congr h
  | _ => rfl

theorem entered_mapMembers (f : Condition → Condition) :
    (n.mapMembers f).entered member = (n.entered fun m => member (f m)).map f := by
  unfold entered
  rw [variant_mapMembers]
  cases n.variant with
  | anyOf g => simp only [Group.visited_mapMembers, tried_map]
  | allOf g => simp only [Group.visited_mapMembers, tried_map]
  | _ => rfl

theorem log_sweep_conditions (stop : Bool) (g : Group Condition) :
    (do sweep stop member (← Run.ofExcept g.conditions)).log =
      (tried stop member g.visited).flatMap fun m => (member m).log := by
  unfold Group.visited
  cases g.conditions with
  | error e => rfl
  | ok cs => exact sweep_log member cs

/-- Records that only members write are those of the members entered. -/
theorem filter_dispatch_log {p : Record → Bool} (ht : ∀ t, (test t).log.filter p = [])
    (hu : ∀ v, p (.unknownCondition v) = false) :
    (n.dispatch test member).log.filter p =
      (n.entered member).flatMap fun m => (member m).log.filter p := by
  unfold dispatch entered
  cases n.variant with
  | anyOf g => simp only [log_sweep_conditions, List.filter_flatMap]
  | allOf g => simp only [log_sweep_conditions, List.filter_flatMap]
  | always => rfl
  | never => rfl
  | percent t => exact ht t
  | unknown =>
    cases n.encode with
    | error e => rfl
    | ok v => simp [Run.ofExcept, Run.done, Run.note, hu]

end Node

namespace Evaluator

variable {E : Evaluator} {context : Slot Context}

/-- No decision comes to a place twice. -/
theorem reached_nodup (E : Evaluator) (context : Slot Context) (levels : Nat) (c : Condition) :
    (E.reached context levels c).Nodup := by
  induction levels generalizing c with
  | zero => simp [reached]
  | succ levels ih =>
    rw [reached]
    refine List.nodup_cons.mpr ⟨by simp, ?_⟩
    rw [List.nodup_flatMap]
    refine ⟨fun m _ => (ih m.1).map fun _ _ h => (List.cons.inj h).2, ?_⟩
    -- Members differ in their positions, and these come first in the places below them.
    have hpos : List.Pairwise (fun a b => a.2 ≠ b.2)
        (c.toNode.entered (E.judge context levels)).zipIdx := by
      rw [← List.pairwise_map (f := Prod.snd) (R := (· ≠ ·)), List.zipIdx_map_snd]
      exact List.nodup_range'
    refine hpos.imp fun {a b} hne p ha hb => ?_
    obtain ⟨q, -, rfl⟩ := List.mem_map.mp ha
    obtain ⟨r, -, hr⟩ := List.mem_map.mp hb
    exact hne (List.cons.inj hr).1.symm

theorem height_prune_lt {c m : Condition} {d n : Nat} (h : (c.prune (d + 1)).height < n + 1)
    (hm : m ∈ c.toNode.members) : (m.prune d).height < n := by
  have hmem : m.prune d ∈ (c.prune (d + 1)).toNode.members := by
    rw [Condition.prune, Condition.toNode, Node.members_mapMembers]
    exact List.mem_map_of_mem hm
  have := Condition.height_lt_of_mem_members hmem
  omega

/-- With its warnings left out, a limited decision is that of the pruned condition. -/
theorem judge_prune (E : Evaluator) (context : Slot Context) (limit : Numeral) {d n : Nat}
    {c : Condition} (h : (c.prune d).height < n) :
    (E.judge context d c).keeping (fun r => !r.isDepthExceeded) =
      { E with maxDepth := limit }.judge context n (c.prune d) := by
  induction d generalizing n c with
  | zero =>
    cases n with
    | zero => omega
    | succ n => rfl
  | succ d ih =>
    cases n with
    | zero => omega
    | succ n =>
      rw [judge_succ, judge_succ, Node.dispatch_keeping (fun _ => rfl), Condition.prune,
        Condition.toNode, Node.dispatch_mapMembers]
      refine Node.dispatch_congr (fun t => ?_) fun m hm => ih (height_prune_lt h hm)
      exact evaluatePercent_keeping (fun _ => rfl) E context t

theorem filter_evaluatePercent_log (E : Evaluator) (context : Slot Context) (t : Test) :
    (E.evaluatePercent context t).log.filter Record.isDepthExceeded = [] := by
  have hk : (E.evaluatePercent context t).keeping (fun r => !r.isDepthExceeded) = _ :=
    evaluatePercent_keeping (fun _ => rfl) E context t
  rw [← hk, Run.keeping_log, List.filter_filter]
  simp

/-- The warnings of a limited decision are as many as the cut nodes that the decision of the pruned
condition comes to. -/
theorem filter_judge_log (E : Evaluator) (context : Slot Context) (limit : Numeral) {d n : Nat}
    {c : Condition} (h : (c.prune d).height < n) :
    (E.judge context d c).log.filter Record.isDepthExceeded =
      (({ E with maxDepth := limit }.reached context n (c.prune d)).filter
        fun p : List Nat => p.length == d).map fun _ => .depthExceeded E.maxDepth := by
  induction d generalizing n c with
  | zero =>
    cases n with
    | zero => omega
    | succ n => rfl
  | succ d ih =>
    cases n with
    | zero => omega
    | succ n =>
      have hout : ∀ m ∈ c.toNode.members, ({ E with maxDepth := limit }.judge context n
          (m.prune d)).outcome = (E.judge context d m).outcome := by
        intro m hm
        rw [← judge_prune E context limit (height_prune_lt h hm), Run.keeping_outcome]
      have hent : (c.toNode.mapMembers (Condition.prune d)).entered
          ({ E with maxDepth := limit }.judge context n) =
          (c.toNode.entered (E.judge context d)).map (Condition.prune d) := by
        rw [Node.entered_mapMembers, Node.entered_congr hout]
      rw [judge_succ, Node.filter_dispatch_log (filter_evaluatePercent_log E context)
        (fun _ => rfl), Condition.prune, reached, Condition.toNode, hent]
      rw [List.filter_cons_of_neg (by simp), List.filter_flatMap, List.map_flatMap,
        List.zipIdx_map, List.flatMap_map]
      rw [flatMap_fst_zipIdx]
      apply List.flatMap_congr
      intro m hm
      have hmem := Node.mem_members_of_entered (List.fst_mem_of_mem_zipIdx hm)
      rw [ih (height_prune_lt h hmem), List.filter_map, List.map_map]
      simp [Function.comp_def]

theorem judge_congr_limit (E : Evaluator) (context : Slot Context) (limit : Numeral) (levels : Nat)
    (c : Condition) :
    (E.judge context levels c).outcome =
        ({ E with maxDepth := limit }.judge context levels c).outcome ∧
      (E.judge context levels c).hashed =
        ({ E with maxDepth := limit }.judge context levels c).hashed := by
  have hn := Nat.lt_succ_self (c.prune levels).height
  obtain ⟨ho, hh, -⟩ := Run.keeping_eq_iff.mp (judge_prune E context limit hn)
  obtain ⟨ho', hh', -⟩ :=
    Run.keeping_eq_iff.mp (judge_prune { E with maxDepth := limit } context limit hn)
  exact ⟨ho.trans ho'.symm, hh.trans hh'.symm⟩

/-- Under a limit a condition comes to what it comes to without one when it is cut off at the
distance between level and limit. The log has beside its own records one warning for each cut node
that is reached, and nothing but that distance matters to the answer and to what is hashed. -/
theorem evaluate_prune (E : Evaluator) (c : Condition) (context : Slot Context)
    (limit level far start : Int)
    (h : (c.prune (limit - level).toNat).height < far - start) :
    let d := (limit - level).toNat
    let run := { E with maxDepth := .int limit }.evaluate c context (.int level)
    let whole := { E with maxDepth := .int far }.evaluate (c.prune d) context (.int start)
    let places := { E with maxDepth := .int far }.reached context (far - start).toNat (c.prune d)
    run.outcome = whole.outcome ∧ run.hashed = whole.hashed ∧
      run.log.filter (fun r => !r.isDepthExceeded) = whole.log ∧
      run.log.filter Record.isDepthExceeded =
        (places.filter fun p => p.length == d).map (fun _ => .depthExceeded (.int limit)) ∧
      places.Nodup ∧
      ∀ limit' level' : Int, limit' - level' = limit - level →
        let moved := { E with maxDepth := .int limit' }.evaluate c context (.int level')
        moved.outcome = run.outcome ∧ moved.hashed = run.hashed := by
  intro d run whole places
  have hlt : (c.prune d).height < (far - start).toNat := by
    change ((c.prune d).height : Int) < far - start at h
    omega
  have hrun : run = { E with maxDepth := .int limit }.judge context d c :=
    evaluate_int rfl level c context
  have hwhole : whole = { E with maxDepth := .int far }.judge context (far - start).toNat
      (c.prune d) := evaluate_int rfl start _ _
  have hkeep : run.keeping (fun r => !r.isDepthExceeded) = whole := by
    rw [hrun, hwhole]
    exact judge_prune { E with maxDepth := .int limit } context (.int far) hlt
  obtain ⟨ho, hh, hl⟩ := Run.keeping_eq_iff.mp hkeep
  refine ⟨ho, hh, hl, ?_, reached_nodup _ _ _ _, ?_⟩
  · rw [hrun]
    exact filter_judge_log { E with maxDepth := .int limit } context (.int far) hlt
  · intro limit' level' hd
    rw [evaluate_int rfl, hd, hrun]
    exact judge_congr_limit { E with maxDepth := .int limit' } context (.int limit) d c

/-- The limit falls between the second and the third level, and its warning comes before the answer
of a literal beside the cut branch. -/
theorem evaluate_prune_straddling :
    let c : Condition :=
      .node (.ofAny [.node (.ofAll [.node .empty]), .node (.literal (.bool true))])
    let run := Evaluator.evaluate { maxDepth := .int 2 } c (.plain (.object [])) (.int 0)
    (c.prune 2).height < (9 : Int) - 0 ∧ run.outcome = .ok true ∧
      run.log.filter Record.isDepthExceeded = [.depthExceeded (.int 2)] := by
  intro c run
  have h : ((c.prune ((2 : Int) - 0).toNat).height : Int) < 9 - 0 := by decide
  obtain ⟨ho, -, -, hw, -, -⟩ := evaluate_prune {} c (.plain (.object [])) 2 0 9 0 h
  exact ⟨h, ho, hw⟩

end Evaluator

end Targeting
