import Targeting.Proofs.Nesting

/-!
What a run leaves behind, part by part. Leaving some kinds of records out of the log is compatible
with going on from one run to the next, so a whole decision can be followed while they are
disregarded. A sweep leaves behind exactly what the elements leave behind that it tries.
-/

namespace Targeting

namespace Run

variable {α β : Type} {keep : Record → Bool}

/-- The run with only those records that are to be kept. -/
def keeping (keep : Record → Bool) (r : Run α) : Run α := { r with log := r.log.filter keep }

@[simp] theorem keeping_outcome (r : Run α) : (r.keeping keep).outcome = r.outcome := rfl

@[simp] theorem keeping_hashed (r : Run α) : (r.keeping keep).hashed = r.hashed := rfl

@[simp] theorem keeping_log (r : Run α) : (r.keeping keep).log = r.log.filter keep := rfl

/-- A run that is another one with some records left out. -/
theorem keeping_eq_iff {r s : Run α} :
    r.keeping keep = s ↔
      r.outcome = s.outcome ∧ r.hashed = s.hashed ∧ r.log.filter keep = s.log := by
  constructor
  · rintro rfl
    exact ⟨rfl, rfl, rfl⟩
  · rintro ⟨ho, hh, hl⟩
    exact Run.ext ho hh hl

theorem keeping_bind (r : Run α) (f : α → Run β) :
    (r >>= f).keeping keep = r.keeping keep >>= fun a => (f a).keeping keep := by
  rcases r with ⟨o, h, l⟩
  cases o with
  | ok a => simp [keeping]
  | error e => rfl

/-- Where every step writes only records that are kept, so does the whole run. -/
theorem keeping_bind_self {r : Run α} {f : α → Run β} (hr : r.keeping keep = r)
    (hf : ∀ a, (f a).keeping keep = f a) : (r >>= f).keeping keep = r >>= f := by
  rw [keeping_bind, hr]
  exact bind_congr hf

@[simp] theorem keeping_hash (text : String) : (hash text).keeping keep = hash text := rfl

@[simp] theorem keeping_ofExcept (x : Except Fault α) :
    (ofExcept x).keeping keep = ofExcept x := by
  cases x <;> rfl

theorem keeping_note {r : Record} (h : keep r = true) : (note r).keeping keep = note r := by
  simp [keeping, note, h]

end Run

/-! ### Sweeps -/

section Sweep

variable {α β : Type} {stop : Bool}

theorem sweep_keeping (keep : Record → Bool) (judge : α → Run Bool) (as : List α) :
    (sweep stop judge as).keeping keep = sweep stop (fun a => (judge a).keeping keep) as := by
  induction as with
  | nil => rfl
  | cons a rest ih =>
    rw [sweep_cons, sweep_cons, Run.keeping_bind]
    apply bind_congr
    intro b
    split
    · rfl
    · exact ih

/-- The elements that a sweep tries: all up to the first that does not let it pass on. -/
def tried (stop : Bool) (judge : α → Run Bool) : List α → List α
  | [] => []
  | a :: rest =>
    match (judge a).outcome with
    | .ok b => if b == stop then [a] else a :: tried stop judge rest
    | .error _ => [a]

theorem mem_of_mem_tried {judge : α → Run Bool} {a : α} {as : List α}
    (h : a ∈ tried stop judge as) : a ∈ as := by
  induction as with
  | nil => cases h
  | cons b rest ih =>
    rw [tried] at h
    split at h
    · split at h
      · exact List.mem_singleton.mp h ▸ List.mem_cons_self
      · rcases List.mem_cons.mp h with rfl | h
        · exact List.mem_cons_self
        · exact List.mem_cons_of_mem b (ih h)
    · exact List.mem_singleton.mp h ▸ List.mem_cons_self

theorem tried_congr {f g : α → Run Bool} {as : List α}
    (h : ∀ a ∈ as, (f a).outcome = (g a).outcome) : tried stop f as = tried stop g as := by
  induction as with
  | nil => rfl
  | cons a rest ih =>
    have hr := ih fun b hb => h b (List.mem_cons_of_mem a hb)
    rw [tried, tried, h a List.mem_cons_self, hr]

theorem tried_map (f : β → α) (judge : α → Run Bool) (bs : List β) :
    tried stop judge (bs.map f) = (tried stop (fun b => judge (f b)) bs).map f := by
  induction bs with
  | nil => rfl
  | cons b rest ih =>
    rw [List.map_cons, tried, tried, ih]
    split
    · split <;> rfl
    · rfl

/-- A sweep writes what the elements write that it tries. -/
theorem sweep_log (judge : α → Run Bool) (as : List α) :
    (sweep stop judge as).log = (tried stop judge as).flatMap fun a => (judge a).log := by
  induction as with
  | nil => rfl
  | cons a rest ih =>
    rw [tried]
    split
    · rename_i b hb
      split
      · rename_i hs
        rw [sweep_cons_of_stop (by rw [hb, eq_of_beq hs])]
        simp
      · rename_i hs
        have hn : b = !stop := by cases b <;> cases stop <;> simp_all
        rw [sweep_cons_of_pass (by rw [hb, hn])]
        simp [ih]
    · rename_i e he
      rw [sweep_cons_of_error he]
      simp

end Sweep

/-! ### Decisions -/

theorem sweep_conditions_keeping (keep : Record → Bool) (stop : Bool)
    (member : Condition → Run Bool) (g : Group Condition) :
    (do sweep stop member (← Run.ofExcept g.conditions)).keeping keep =
      (do sweep stop (fun m => (member m).keeping keep) (← Run.ofExcept g.conditions)) := by
  rw [Run.keeping_bind, Run.keeping_ofExcept]
  exact bind_congr fun cs => sweep_keeping keep member cs

/-- Leaving out records that only members write leaves them out of the members. -/
theorem Node.dispatch_keeping {keep : Record → Bool} (hk : ∀ v, keep (.unknownCondition v) = true)
    (test : Test → Run Bool) (member : Condition → Run Bool) (n : Node Condition) :
    (n.dispatch test member).keeping keep =
      n.dispatch (fun t => (test t).keeping keep) fun m => (member m).keeping keep := by
  unfold dispatch
  split
  · exact sweep_conditions_keeping keep true member _
  · exact sweep_conditions_keeping keep false member _
  · rfl
  · rfl
  · rfl
  · rw [Run.keeping_bind, Run.keeping_ofExcept]
    apply bind_congr
    intro v
    rw [Run.keeping_bind, Run.keeping_note (hk v)]
    rfl

namespace Evaluator

/-- Percent tests write no records but those that tell of a rejected test. -/
theorem evaluatePercent_keeping {keep : Record → Bool}
    (hk : ∀ v, keep (.percentRejected v) = true) (E : Evaluator) (context : Slot Context)
    (t : Test) : (E.evaluatePercent context t).keeping keep = E.evaluatePercent context t := by
  have hb (seed id : Value) : (E.bucket seed id).keeping keep = E.bucket seed id := by
    unfold bucket
    apply Run.keeping_bind_self (Run.keeping_hash _)
    intro _
    split <;> rfl
  unfold evaluatePercent
  apply Run.keeping_bind_self (Run.keeping_ofExcept _)
  intro operator
  split
  · rfl
  apply Run.keeping_bind_self (Run.keeping_ofExcept _)
  intro c
  split
  · rfl
  apply Run.keeping_bind_self (Run.keeping_ofExcept _)
  intro seed
  apply Run.keeping_bind_self (hb seed c.id)
  intro b
  apply Run.keeping_bind_self (Run.keeping_ofExcept _)
  intro threshold
  apply Run.keeping_bind_self (Run.keeping_ofExcept _)
  intro range
  apply Run.keeping_bind_self (Run.keeping_ofExcept _)
  intro answer
  split
  · rfl
  apply Run.keeping_bind_self (Run.keeping_ofExcept _)
  intro v
  apply Run.keeping_bind_self (Run.keeping_note (hk v))
  intro _
  rfl

end Evaluator

end Targeting
