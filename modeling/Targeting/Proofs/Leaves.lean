import Targeting.Proofs.Instances
import Targeting.Proofs.ShortCircuit

/-!
What an evaluation hashes. A condition has its live leaves, the percent tests with a comparison that
stand above the limit, and each of them has one text for an id. An evaluation hashes these texts in
the order of the leaves and no text for more leaves than have it; it may leave out any, and without
an id it leaves out all.
-/

namespace Targeting

/-- The text that a test hashes for an id, none where it has no comparison. -/
def Test.texts (id : Value) (t : Test) : List String :=
  match t.operator, t.seed with
  | .ok operator, .ok seed =>
    if operator.truthy then [(if seed.truthy then seed.text ++ "." else "") ++ id.text] else []
  | _, _ => []

/-- What is gathered at a node, from its own test or from the members that it asks. -/
def Node.gather (test : Test → List String) (member : Condition → List String)
    (n : Node Condition) : List String :=
  match n.variant with
  | .anyOf g | .allOf g => g.visited.flatMap member
  | .percent t => test t
  | _ => []

/-- What is gathered from the tests of a condition with so many levels left, itself included. -/
def Condition.gather (test : Test → List String) : Nat → Condition → List String
  | 0, _ => []
  | levels + 1, c => c.toNode.gather test (gather test levels)

/-- The texts of the live leaves of a condition, from left to right. -/
def Condition.live (id : Value) (levels : Nat) (c : Condition) : List String :=
  c.gather (Test.texts id) levels

theorem Condition.gather_nil (levels : Nat) (c : Condition) :
    c.gather (fun _ => []) levels = [] := by
  induction levels generalizing c with
  | zero => rfl
  | succ levels ih =>
    rw [gather, Node.gather]
    split
    · exact List.flatMap_eq_nil_iff.mpr fun m _ => ih m
    · exact List.flatMap_eq_nil_iff.mpr fun m _ => ih m
    · rfl
    · rfl

/-! ### One step -/

namespace Run

variable {α β : Type}

@[simp] theorem ofExcept_hashed (x : Except Fault α) : (ofExcept x).hashed = [] := by
  cases x <;> rfl

theorem hashed_bind_of_silent (r : Run α) {f : α → Run β} (h : ∀ a, (f a).hashed = []) :
    (r >>= f).hashed = r.hashed := by
  rcases r with ⟨_ | a, hashed, log⟩
  · rfl
  · simp [h a]

theorem hashed_ofExcept_bind {x : Except Fault α} {f : α → Run β} (h : ∀ a, (f a).hashed = []) :
    (ofExcept x >>= f).hashed = [] := by
  rw [hashed_bind_of_silent _ h, ofExcept_hashed]

end Run

theorem sweep_hashed_sublist {α : Type} {stop : Bool} {judge : α → Run Bool}
    {texts : α → List String} (h : ∀ a, (judge a).hashed.Sublist (texts a)) (as : List α) :
    (sweep stop judge as).hashed.Sublist (as.flatMap texts) := by
  induction as with
  | nil => exact List.Sublist.refl []
  | cons a rest ih =>
    rw [List.flatMap_cons]
    by_cases ha : (judge a).outcome = .ok !stop
    · rw [sweep_cons_of_pass ha]
      exact (h a).append ih
    · rw [sweep_cons_of_not_passed ha]
      exact (h a).trans (List.sublist_append_left _ _)

theorem Group.sweep_hashed_sublist {stop : Bool} {member : Condition → Run Bool}
    {texts : Condition → List String} (h : ∀ m, (member m).hashed.Sublist (texts m))
    (g : Group Condition) : (do sweep stop member (← Run.ofExcept g.conditions)).hashed.Sublist
      (g.visited.flatMap texts) := by
  unfold visited
  cases g.conditions with
  | error e => exact List.Sublist.refl []
  | ok cs => exact Targeting.sweep_hashed_sublist h cs

/-- A node hashes no more than what is gathered at it, once that holds of tests and members. -/
theorem Node.dispatch_hashed_sublist {test : Test → Run Bool} {member : Condition → Run Bool}
    {leaf : Test → List String} {texts : Condition → List String}
    (ht : ∀ t, (test t).hashed.Sublist (leaf t)) (hm : ∀ m, (member m).hashed.Sublist (texts m))
    (n : Node Condition) : (n.dispatch test member).hashed.Sublist (n.gather leaf texts) := by
  unfold dispatch gather
  cases n.variant with
  | anyOf g => exact g.sweep_hashed_sublist hm
  | allOf g => exact g.sweep_hashed_sublist hm
  | always => exact List.Sublist.refl []
  | never => exact List.Sublist.refl []
  | percent t => exact ht t
  | unknown =>
    rw [Run.hashed_ofExcept_bind fun _ => rfl]

/-! ### Runs -/

namespace Evaluator

variable {E : Evaluator} {context : Slot Context} {i : Value}

theorem bucket_hashed (seed id : Value) : (E.bucket seed id).hashed = [saltedId seed id] := by
  unfold bucket
  cases h : E.buckets.remainder? (E.fingerprinter.hash (saltedId seed id)) <;>
    simp [Run.hash_bind, Run.fail, h]

/-- A test hashes its text just when there is an id, whatever else it lacks. -/
theorem evaluatePercent_hashed (hc : Context.Names context i) (t : Test) :
    (E.evaluatePercent context t).hashed = if i.truthy then t.texts i else [] := by
  obtain ⟨c, hcoerce, rfl⟩ := hc.coerce
  unfold evaluatePercent Test.texts
  cases t.operator with
  | error f => cases c.id.truthy <;> rfl
  | ok operator =>
    rw [Run.ofExcept_ok_bind, hcoerce, Run.ofExcept_ok_bind]
    cases ho : operator.truthy with
    | false => cases t.seed <;> simp [Run.fail, ho]
    | true =>
      cases c.id.truthy with
      | false => rfl
      | true =>
        cases t.seed with
        | error f => rfl
        | ok seed =>
          dsimp only
          rw [ho, Run.ofExcept_ok_bind]
          refine (Run.hashed_bind_of_silent _ fun b => ?_).trans (bucket_hashed seed c.id)
          -- The text is hashed by now, and the rest of the test is read in silence.
          refine Run.hashed_ofExcept_bind fun threshold => Run.hashed_ofExcept_bind fun range =>
            Run.hashed_ofExcept_bind fun answer => ?_
          cases answer with
          | some x => rfl
          | none => exact Run.hashed_ofExcept_bind fun _ => rfl

theorem judge_hashed_sublist {leaf : Test → List String}
    (h : ∀ t, (E.evaluatePercent context t).hashed.Sublist (leaf t)) (levels : Nat)
    (c : Condition) : (E.judge context levels c).hashed.Sublist (c.gather leaf levels) := by
  induction levels generalizing c with
  | zero => exact List.Sublist.refl []
  | succ levels ih => exact Node.dispatch_hashed_sublist h ih c.toNode

/-- An evaluation hashes some of the texts of the live leaves in their order, each leaf at most once
and whether it answers or fails. Without an id it hashes nothing. -/
theorem evaluate_hashes_live (E : Evaluator) {context : Slot Context} {i : Value}
    (hc : Context.Names context i) {limit : Int} (hE : E.maxDepth = .int limit) (c : Condition)
    (level : Int) :
    let run := E.evaluate c context (.int level)
    run.hashed.Sublist (c.live i (limit - level).toNat) ∧ (i.truthy = false → run.hashed = []) := by
  intro run
  have hrun : run = E.judge context (limit - level).toNat c := evaluate_int hE level c context
  rw [hrun]
  constructor
  · refine judge_hashed_sublist (fun t => ?_) _ c
    rw [evaluatePercent_hashed hc]
    split
    · exact List.Sublist.refl _
    · exact List.nil_sublist _
  · intro hi
    have hnone (t : Test) : (E.evaluatePercent context t).hashed.Sublist [] := by
      rw [evaluatePercent_hashed hc, hi]
      exact List.Sublist.refl []
    exact List.sublist_nil.mp (c.gather_nil _ ▸ judge_hashed_sublist hnone _ c)

/-- Two leaves are live: a third one stands at the limit, and a fourth one has no comparison. The
fourth fails before the last is reached, so one text is hashed for an id and none without. -/
theorem evaluate_hashes_live_cut :
    let test (seed : String) (operator : Operator) : Condition :=
      .node (.ofTest (.make (.str seed) operator (.int 3) .unset))
    let c : Condition := .node (.ofAny [test "a" (.known .lessOrEqual),
      .node (.ofAll [test "b" (.known .lessOrEqual)]), test "c" (.plain .null),
      test "d" (.known .greaterThan)])
    let E : Evaluator :=
      { fingerprinter := ⟨"seven", fun _ => 107⟩, maxDepth := .int 3, buckets := .int 100 }
    let named : Slot Context := .plain (.object [("id", .str "u")])
    let unnamed : Slot Context := .filled ⟨.int 0, .null⟩
    Context.Names named (.str "u") ∧ Context.Names unnamed (.int 0) ∧ E.maxDepth = .int 3 ∧
      c.live (.str "u") (3 - 1) = ["a.u", "d.u"] ∧
      (E.evaluate c named (.int 1)).outcome = .error .invalidOperator ∧
      (E.evaluate c named (.int 1)).hashed = ["a.u"] ∧
      (E.evaluate c named (.int 1)).hashed.Sublist ["a.u", "d.u"] ∧
      (E.evaluate c unnamed (.int 1)).hashed = [] := by
  intro test c E named unnamed
  have hnamed : Context.Names named (.str "u") := .own nofun
  have hunnamed : Context.Names unnamed (.int 0) := .typed _
  have hlive : c.live (.str "u") (3 - 1) = ["a.u", "d.u"] := by decide +kernel
  have hsublist := (evaluate_hashes_live E hnamed rfl c 1).1
  have hnone := (evaluate_hashes_live E hunnamed rfl c 1).2 (by decide)
  exact ⟨hnamed, hunnamed, rfl, hlive, rfl, rfl, hlive ▸ hsublist, hnone⟩

end Evaluator

end Targeting
