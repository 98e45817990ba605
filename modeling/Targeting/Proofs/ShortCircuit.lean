import Targeting.Proofs.Decoding

/-!
Groups, member by member. The members are asked in order, each as if it stood alone one level
further down, and the first that does not let the group pass on settles it: with its answer or with
its failure, and with what was hashed and written up to there. A group that no member settles has
the other answer.
-/

namespace Targeting

/-! ### Sweeps -/

section Sweep

variable {α : Type} {stop : Bool} {judge : α → Run Bool} {a : α} {before after as : List α}

theorem sweep_append (as bs : List α) : sweep stop judge (as ++ bs) =
    sweep stop judge as >>= fun b => if b == stop then pure stop else sweep stop judge bs := by
  induction as with
  | nil => cases stop <;> rfl
  | cons a rest ih =>
    rw [List.cons_append, sweep_cons, sweep_cons, bind_assoc, ih]
    apply bind_congr
    intro b
    by_cases hb : (b == stop) = true
    · simp [hb]
    · rw [if_neg hb, if_neg hb]

/-- Elements that are all passed leave behind what each of them does. -/
theorem sweep_of_passed (h : ∀ a ∈ as, (judge a).outcome = .ok !stop) :
    sweep stop judge as = ⟨.ok !stop, as.flatMap fun a => (judge a).hashed,
      as.flatMap fun a => (judge a).log⟩ := by
  induction as with
  | nil => rfl
  | cons a rest ih =>
    obtain ⟨ha, hrest⟩ := List.forall_mem_cons.mp h
    rw [sweep_cons_of_pass ha, ih hrest]
    rfl

theorem sweep_cons_of_not_passed (h : (judge a).outcome ≠ .ok !stop) (rest : List α) :
    sweep stop judge (a :: rest) = judge a := by
  cases ha : (judge a).outcome with
  | error e => exact sweep_cons_of_error ha
  | ok b =>
    by_cases hb : b = stop
    · exact sweep_cons_of_stop (by rw [ha, hb])
    · exact absurd (by rw [ha, Bool.eq_not.mpr hb]) h

/-- The first element that is not passed ends a sweep. -/
theorem sweep_of_settled (hb : ∀ b ∈ before, (judge b).outcome = .ok !stop)
    (ha : (judge a).outcome ≠ .ok !stop) :
    sweep stop judge (before ++ a :: after) = ⟨(judge a).outcome,
      (before ++ [a]).flatMap fun b => (judge b).hashed,
      (before ++ [a]).flatMap fun b => (judge b).log⟩ := by
  rw [sweep_append, sweep_of_passed hb, sweep_cons_of_not_passed ha]
  simp

/-- Either all elements are passed or there is a first that is not. -/
theorem passed_or_settled (stop : Bool) (judge : α → Run Bool) (as : List α) :
    (∀ a ∈ as, (judge a).outcome = .ok !stop) ∨
      ∃ before a after, as = before ++ a :: after ∧
        (∀ b ∈ before, (judge b).outcome = .ok !stop) ∧ (judge a).outcome ≠ .ok !stop := by
  induction as with
  | nil => exact Or.inl (List.forall_mem_nil _)
  | cons a rest ih =>
    by_cases ha : (judge a).outcome = .ok !stop
    · rcases ih with hall | ⟨before, b, after, rfl, hbefore, hb⟩
      · exact Or.inl (List.forall_mem_cons.mpr ⟨ha, hall⟩)
      · exact Or.inr ⟨a :: before, b, after, rfl, List.forall_mem_cons.mpr ⟨ha, hbefore⟩, hb⟩
    · exact Or.inr ⟨[], a, rest, rfl, List.forall_mem_nil _, ha⟩

theorem sweep_outcome_eq_pass :
    (sweep stop judge as).outcome = .ok !stop ↔ ∀ a ∈ as, (judge a).outcome = .ok !stop := by
  constructor
  · intro h
    rcases passed_or_settled stop judge as with hall | ⟨before, a, after, rfl, hbefore, ha⟩
    · exact hall
    · rw [sweep_of_settled hbefore ha] at h
      exact absurd h ha
  · intro h
    rw [sweep_of_passed h]

/-- Any other outcome of a sweep is that of the element which settles it. -/
theorem sweep_outcome_eq_settled {o : Except Fault Bool} (ho : o ≠ .ok !stop) :
    (sweep stop judge as).outcome = o ↔ ∃ before a after, as = before ++ a :: after ∧
      (∀ b ∈ before, (judge b).outcome = .ok !stop) ∧ (judge a).outcome = o := by
  constructor
  · intro h
    rcases passed_or_settled stop judge as with hall | ⟨before, a, after, rfl, hbefore, ha⟩
    · rw [sweep_of_passed hall] at h
      exact absurd h.symm ho
    · rw [sweep_of_settled hbefore ha] at h
      exact ⟨before, a, after, rfl, hbefore, h⟩
  · rintro ⟨before, a, after, rfl, hbefore, rfl⟩
    rw [sweep_of_settled hbefore ho]

end Sweep

/-! ### Nodes with a group -/

namespace Node

/-- The answer that settles a node and the members that it asks. A group that is set comes before
the other kind of group, and one without members asks none. -/
inductive Sweeps (n : Node Condition) : Bool → List Condition → Prop where
  | anyOf {cs : List Condition} (set : n.anyOf.isSet = true)
    (members : Group.conditions n.anyOf = .ok cs) : Sweeps n true cs
  | allOf {cs : List Condition} (unset : n.anyOf.isSet = false) (set : n.allOf.isSet = true)
    (members : Group.conditions n.allOf = .ok cs) : Sweeps n false cs

namespace Sweeps

variable {n : Node Condition} {stop : Bool} {cs : List Condition}

theorem members_eq (h : n.Sweeps stop cs) : n.members = cs := by
  unfold Node.members variant
  cases h with
  | anyOf set members =>
    rw [if_pos set]
    exact Group.visited_of_ok members
  | allOf unset set members =>
    rw [if_neg (by rw [unset]; exact Bool.false_ne_true), if_pos set]
    exact Group.visited_of_ok members

theorem dispatch (h : n.Sweeps stop cs) (test : Test → Run Bool) (member : Condition → Run Bool) :
    n.dispatch test member = sweep stop member cs := by
  unfold Node.dispatch variant
  cases h with
  | anyOf set members =>
    rw [if_pos set]
    dsimp only
    rw [members]
    rfl
  | allOf unset set members =>
    rw [if_neg (by rw [unset]; exact Bool.false_ne_true), if_pos set]
    dsimp only
    rw [members]
    rfl

end Sweeps

end Node

namespace Evaluator

/-- Below the limit a condition with a deciding group asks the members one level further down. -/
theorem evaluate_of_sweeps {E : Evaluator} {c : Condition} {stop : Bool} {cs : List Condition}
    (h : c.toNode.Sweeps stop cs) {level : Numeral}
    (hl : E.maxDepth.toNumber.le level.toNumber = false) (context : Slot Context) :
    E.evaluate c context level = sweep stop (fun m => E.evaluate m context level.succ) cs := by
  rw [evaluate_step, hl, if_neg Bool.false_ne_true]
  exact h.dispatch _ _

/-- A node with a group below the limit. It answers as the group does on which a member settles, or
fails with the fault of such a member, exactly if all members before that one let it pass on; it has
the other answer exactly if all of them do. What it leaves behind is what the members leave behind
that it came to. -/
theorem evaluate_short_circuit (E : Evaluator) {n : Node Condition} {stop : Bool}
    {cs : List Condition} (hn : n.Sweeps stop cs) (context : Slot Context) {level : Numeral}
    (hl : E.maxDepth.toNumber.le level.toNumber = false) :
    let run := E.evaluate (.node n) context level
    let member := fun c => E.evaluate c context level.succ
    let Passes := fun c => (member c).outcome = .ok !stop
    let Leaves := fun asked : List Condition =>
      run.hashed = asked.flatMap (fun c => (member c).hashed) ∧
        run.log = asked.flatMap fun c => (member c).log
    (run.outcome = .ok stop ↔ ∃ before c after, cs = before ++ c :: after ∧
        (∀ b ∈ before, Passes b) ∧ (member c).outcome = .ok stop) ∧
      (∀ e, run.outcome = .error e ↔ ∃ before c after, cs = before ++ c :: after ∧
        (∀ b ∈ before, Passes b) ∧ (member c).outcome = .error e) ∧
      (run.outcome = .ok !stop ↔ ∀ c ∈ cs, Passes c) ∧
      (∀ before c after, cs = before ++ c :: after → (∀ b ∈ before, Passes b) → ¬Passes c →
        Leaves (before ++ [c])) ∧
      ((∀ c ∈ cs, Passes c) → Leaves cs) := by
  intro run member Passes Leaves
  have hrun : run = sweep stop member cs := evaluate_of_sweeps (c := .node n) hn hl context
  refine ⟨?_, fun e => ?_, ?_, ?_, ?_⟩
  · rw [hrun]
    exact sweep_outcome_eq_settled (by simp)
  · rw [hrun]
    exact sweep_outcome_eq_settled nofun
  · rw [hrun]
    exact sweep_outcome_eq_pass
  · rintro before c after rfl hbefore hc
    have hleft : run = _ := hrun.trans (sweep_of_settled hbefore hc)
    exact ⟨by rw [hleft], by rw [hleft]⟩
  · intro hall
    have hleft : run = _ := hrun.trans (sweep_of_passed hall)
    exact ⟨by rw [hleft], by rw [hleft]⟩

/-- A member without a usable comparison ends an any-of group behind one that is false and one that
means nothing; the literal after it is not asked. In the all-of group, which was never given any
members, nothing keeps the answer from being true. -/
theorem evaluate_short_circuit_mixed :
    let test (threshold : Value) : Condition :=
      .node (.ofTest (.make (.str "s") (.known .greaterThan) threshold .unset))
    let members := [test (.int 7), .plain (.int 3), test .null, .node (.literal (.bool true))]
    let any : Node Condition := { Node.ofAny members with allOf := Group.loose .null }
    let all : Node Condition := { (Node.empty : Node Condition) with allOf := Group.loose .null }
    let E : Evaluator :=
      { fingerprinter := ⟨"seven", fun _ => 107⟩, maxDepth := .int 5, buckets := .int 100 }
    let context : Slot Context := .plain (.object [("id", .str "u")])
    let rejected : Value := .object [("seed", .str "s"), ("operator", .str "GREATER_THAN")]
    any.Sweeps true members ∧ all.Sweeps false [] ∧
      E.maxDepth.toNumber.le (Numeral.int 3).toNumber = false ∧
      (E.evaluate (.node any) context (.int 3)).outcome = .error .invalidOperator ∧
      (E.evaluate (.node any) context (.int 3)).hashed = ["s.u", "s.u"] ∧
      (E.evaluate (.node any) context (.int 3)).log =
        [.unknownCondition (.object [("condition", .int 3)]), .percentRejected rejected] ∧
      (E.evaluate (.node all) context (.int 3)).outcome = .ok true := by
  intro test members any all E context rejected
  have hany : any.Sweeps true members := .anyOf rfl rfl
  have hall : all.Sweeps false [] := .allOf rfl rfl rfl
  have hl : E.maxDepth.toNumber.le (Numeral.int 3).toNumber = false := by decide
  have hbefore : ∀ b ∈ [test (.int 7), .plain (.int 3)],
      (E.evaluate b context (Numeral.int 3).succ).outcome = .ok !true :=
    List.forall_mem_cons.mpr ⟨rfl, List.forall_mem_singleton.mpr rfl⟩
  have hfault : (E.evaluate (test .null) context (Numeral.int 3).succ).outcome =
      .error .invalidOperator := rfl
  obtain ⟨-, herror, -, hsettled, -⟩ := evaluate_short_circuit E hany context hl
  obtain ⟨-, -, hpass, -, -⟩ := evaluate_short_circuit E hall context hl
  obtain ⟨hhashed, hlog⟩ := hsettled _ _ _ rfl hbefore fun h => nomatch hfault.symm.trans h
  exact ⟨hany, hall, hl, (herror _).mpr ⟨_, _, _, rfl, hbefore, hfault⟩, hhashed, hlog,
    hpass.mpr (List.forall_mem_nil _)⟩

end Evaluator

end Targeting
