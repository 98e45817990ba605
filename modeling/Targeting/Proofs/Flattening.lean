import Targeting.Proofs.Duality
import Targeting.Proofs.Rounding
import Targeting.Proofs.ShortCircuit

/-!
Groups within groups of their own kind. Such a group may give its place to its members: they are
asked in the same order then and stop the outer group where they would have stopped the inner one.
They stand one level higher, which makes no difference as long as the limit lies beyond all nodes.
-/

namespace Targeting

section Sweep

variable {α : Type} {stop : Bool} {judge : α → Run Bool}

/-- An element that comes to what a sweep of others comes to gives its place to these. -/
theorem sweep_splice {xs ys zs : List α} {y : α} (h : judge y = sweep stop judge ys) :
    sweep stop judge (xs ++ ys ++ zs) = sweep stop judge (xs ++ y :: zs) := by
  rw [List.append_assoc, sweep_append, sweep_append xs, sweep_append ys, sweep_cons, h]

theorem sweep_exchange {before after : List α} {a b : α} (h : judge a = judge b) :
    sweep stop judge (before ++ a :: after) = sweep stop judge (before ++ b :: after) := by
  rw [sweep_append, sweep_append, sweep_cons, sweep_cons, h]

end Sweep

/-! ### Flattened conditions -/

/-- The node with other members in the group that is settled by an answer. -/
def Node.regroup (n : Node Condition) : Bool → List Condition → Node Condition
  | true, cs => { n with anyOf := Group.of cs }
  | false, cs => { n with allOf := Group.of cs }

def Condition.regroup (c : Condition) (stop : Bool) (cs : List Condition) : Condition :=
  .node (c.toNode.regroup stop cs)

theorem Condition.sweeps_regroup {c : Condition} {stop : Bool} {cs : List Condition}
    (h : c.toNode.Sweeps stop cs) (ds : List Condition) :
    (c.regroup stop ds).toNode.Sweeps stop ds := by
  cases h with
  | anyOf => exact .anyOf rfl rfl
  | allOf unset => exact .allOf unset rfl rfl

/-- The second condition is the first with a group in it flattened, wherever it takes part: the node
whose group it is, or one that is reached from the root by members of deciding groups. -/
inductive Condition.Flattens : Condition → Condition → Prop where
  | here {c y : Condition} {stop : Bool} {xs ys zs : List Condition}
    (outer : c.toNode.Sweeps stop (xs ++ y :: zs)) (inner : y.toNode.Sweeps stop ys) :
    Flattens c (c.regroup stop (xs ++ ys ++ zs))
  | member {c m k : Condition} {stop : Bool} {before after : List Condition}
    (outer : c.toNode.Sweeps stop (before ++ m :: after)) (h : Flattens m k) :
    Flattens c (c.regroup stop (before ++ k :: after))

/-! ### Levels -/

namespace Condition.Below

variable {limit level : Numeral} {c : Condition}

/-- What lies below the limit does so one level higher. -/
theorem of_succ (h : c.Below limit level.succ) : c.Below limit level := by
  generalize hs : level.succ = next at h
  induction h generalizing level with
  | intro here _ ih =>
    subst hs
    refine .intro (eq_false_of_ne_true fun hl => ?_) fun m hm => ih m hm rfl
    rw [Numeral.le_succ hl] at here
    cases here

theorem of_sweeps {stop : Bool} {cs : List Condition} (h : c.toNode.Sweeps stop cs)
    (here : limit.toNumber.le level.toNumber = false) (hm : ∀ m ∈ cs, m.Below limit level.succ) :
    c.Below limit level :=
  .intro here fun m hmem => hm m (h.members_eq ▸ hmem)

theorem of_no_members (h : c.toNode.members = [])
    (here : limit.toNumber.le level.toNumber = false) : c.Below limit level :=
  .intro here fun m hmem => by rw [h] at hmem; cases hmem

end Condition.Below

namespace Evaluator

variable {E : Evaluator} {context : Slot Context} {c d : Condition} {level : Numeral}

/-- Below the limit the level does not matter. -/
theorem evaluate_eq_of_below {other : Numeral} (h : c.Below E.maxDepth level)
    (ho : c.Below E.maxDepth other) : E.evaluate c context level = E.evaluate c context other := by
  induction h generalizing other with
  | intro here _ ih =>
    cases ho with
    | intro there others =>
      rw [evaluate_step, evaluate_step, here, there, if_neg Bool.false_ne_true,
        if_neg Bool.false_ne_true]
      exact Node.dispatch_congr (fun _ => rfl) fun m hm => ih m hm (others m hm)

/-- Flattening a group in a condition leaves every part of the run as it is, provided that no node
of the condition lies at the limit or beyond it. -/
theorem evaluate_flatten (E : Evaluator) (h : c.Flattens d) (hl : c.Below E.maxDepth level)
    (context : Slot Context) : E.evaluate d context level = E.evaluate c context level := by
  induction h generalizing level with
  | @here c y stop xs ys zs outer inner =>
    obtain ⟨here, members⟩ := hl
    have hy : y.Below E.maxDepth level.succ :=
      members y (outer.members_eq ▸ List.mem_append_right xs List.mem_cons_self)
    obtain ⟨hyhere, hys⟩ := hy
    rw [evaluate_of_sweeps outer here,
      evaluate_of_sweeps (Condition.sweeps_regroup outer _) here]
    refine sweep_splice ?_
    rw [evaluate_of_sweeps inner hyhere]
    -- Before, the members of the inner group stood one level further down.
    refine sweep_congr fun m hm => ?_
    have hm := hys m (inner.members_eq ▸ hm)
    exact evaluate_eq_of_below hm hm.of_succ
  | @member c m k stop before after outer _ ih =>
    obtain ⟨here, members⟩ := hl
    have hm : m.Below E.maxDepth level.succ :=
      members m (outer.members_eq ▸ List.mem_append_right before List.mem_cons_self)
    rw [evaluate_of_sweeps outer here,
      evaluate_of_sweeps (Condition.sweeps_regroup outer _) here]
    exact sweep_exchange (ih hm)

/-- An any-of group in the middle of another one, below a group of the other kind, at a level that
is no integer. One of its members means nothing, and a later member of the outer group fails. -/
theorem evaluate_flatten_inner :
    let test (threshold : Value) : Condition :=
      .node (.ofTest (.make (.str "s") (.known .greaterThan) threshold .unset))
    let literal : Condition := .node (.literal (.bool true))
    let inner : Condition := .node (.ofAny [test (.int 8), .plain .null])
    let outer : Condition := .node (.ofAny [test (.int 7), inner, test .null])
    let flat : Condition := .node (.ofAny [test (.int 7), test (.int 8), .plain .null, test .null])
    let c : Condition := .node (.ofAll [literal, outer, test (.int 0)])
    let d : Condition := .node (.ofAll [literal, flat, test (.int 0)])
    let E : Evaluator :=
      { fingerprinter := ⟨"seven", fun _ => 107⟩, maxDepth := .int 4, buckets := .int 100 }
    let context : Slot Context := .plain (.object [("id", .str "u")])
    let level : Numeral := .float (.ofDecimal false 5 (-1))
    let rejected : Value := .object [("seed", .str "s"), ("operator", .str "GREATER_THAN")]
    c.Flattens d ∧ c.Below E.maxDepth level ∧
      E.evaluate c context level = ⟨.error .invalidOperator, ["s.u", "s.u", "s.u"],
        [.unknownCondition (.object []), .percentRejected rejected]⟩ ∧
      E.evaluate d context level = ⟨.error .invalidOperator, ["s.u", "s.u", "s.u"],
        [.unknownCondition (.object []), .percentRejected rejected]⟩ := by
  intro test literal inner outer flat c d E context level rejected
  have hc : c.toNode.Sweeps false ([literal] ++ outer :: [test (.int 0)]) := .allOf rfl rfl rfl
  have houter : outer.toNode.Sweeps true ([test (.int 7)] ++ inner :: [test .null]) :=
    .anyOf rfl rfl
  have hinner : inner.toNode.Sweeps true [test (.int 8), .plain .null] := .anyOf rfl rfl
  have hflat : c.Flattens d := .member hc (.here houter hinner)
  have hlow : ∀ m ∈ [test (.int 8), .plain .null], m.Below E.maxDepth level.succ.succ.succ :=
    List.forall_mem_cons.mpr ⟨.of_no_members rfl (by decide +kernel),
      List.forall_mem_singleton.mpr (.of_no_members rfl (by decide +kernel))⟩
  have hmiddle : ∀ m ∈ [test (.int 7), inner, test .null], m.Below E.maxDepth level.succ.succ :=
    List.forall_mem_cons.mpr ⟨.of_no_members rfl (by decide +kernel),
      List.forall_mem_cons.mpr ⟨.of_sweeps hinner (by decide +kernel) hlow,
        List.forall_mem_singleton.mpr (.of_no_members rfl (by decide +kernel))⟩⟩
  have hbelow : c.Below E.maxDepth level :=
    .of_sweeps hc (by decide +kernel)
      (List.forall_mem_cons.mpr ⟨.of_no_members rfl (by decide +kernel),
        List.forall_mem_cons.mpr ⟨.of_sweeps houter (by decide +kernel) hmiddle,
          List.forall_mem_singleton.mpr (.of_no_members rfl (by decide +kernel))⟩⟩)
  have hrun : E.evaluate c context level = ⟨.error .invalidOperator, ["s.u", "s.u", "s.u"],
      [.unknownCondition (.object []), .percentRejected rejected]⟩ :=
    Run.ext (by decide +kernel) (by decide +kernel) (by decide +kernel)
  exact ⟨hflat, hbelow, hrun, (evaluate_flatten E hflat hbelow context).trans hrun⟩

end Evaluator

end Targeting
