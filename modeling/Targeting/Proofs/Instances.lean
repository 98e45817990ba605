import Targeting.Proofs.Batches

/-!
What an evaluation learns of its context. A context is looked at only by percent tests, and these
take nothing from it but whether it has an id and the text of the id. So contexts of one instance
lead to the same run, whatever form they have and whatever else they hold.
-/

namespace Targeting

/-- The id by which a context names its instance. An object names it in the field of its own or,
where that is null, under the alias. -/
inductive Context.Names : Slot Context → Value → Prop where
  | typed (c : Context) : Names (.filled c) c.id
  | own {fs : Fields} (h : fs.get "id" ≠ .null) : Names (.plain (.object fs)) (fs.get "id")
  | aliased {fs : Fields} (h : fs.get "id" = .null) :
    Names (.plain (.object fs)) (fs.get "randomizationId")

/-- Ids that stand for one instance: both are missing, or both are given and have one text. -/
inductive Value.SameInstance (v w : Value) : Prop where
  | missing (hv : v.truthy = false) (hw : w.truthy = false)
  | given (hv : v.truthy = true) (hw : w.truthy = true) (text : v.text = w.text)

theorem Context.Names.coerce {context : Slot Context} {i : Value} (h : Names context i) :
    ∃ c, Context.coerce context = .ok c ∧ c.id = i := by
  cases h with
  | typed c => exact ⟨c, rfl, rfl⟩
  | @own fs h =>
    have hid : (ofFields fs).id = fs.get "id" := by
      cases hv : fs.get "id" <;> simp_all [ofFields, make, Value.orElse, Value.isNull]
    exact ⟨_, rfl, hid⟩
  | @aliased fs h =>
    have hid : (ofFields fs).id = fs.get "randomizationId" := by
      simp [ofFields, make, h, Value.orElse, Value.isNull]
    exact ⟨_, rfl, hid⟩

namespace Value.SameInstance

variable {v w : Value}

theorem truthy_eq (h : v.SameInstance w) : v.truthy = w.truthy := by
  rcases h with ⟨hv, hw⟩ | ⟨hv, hw, -⟩ <;> rw [hv, hw]

theorem text_eq (h : v.SameInstance w) (hv : v.truthy = true) : v.text = w.text := by
  rcases h with ⟨hn, -⟩ | ⟨-, -, text⟩
  · rw [hn] at hv
    cases hv
  · exact text

end Value.SameInstance

namespace Evaluator

variable {E : Evaluator} {a b : Slot Context} {c d : Context}

theorem bucket_eq_of_text_eq (E : Evaluator) (seed : Value) {i j : Value} (h : i.text = j.text) :
    E.bucket seed i = E.bucket seed j := by
  have hsalted : saltedId seed i = saltedId seed j := by rw [saltedId, saltedId, h]
  rw [bucket, bucket, hsalted]

/-- A percent test comes to the same for all contexts of one instance. -/
theorem evaluatePercent_eq_of_sameInstance (ha : Context.coerce a = .ok c)
    (hb : Context.coerce b = .ok d) (h : c.id.SameInstance d.id) (t : Test) :
    E.evaluatePercent a t = E.evaluatePercent b t := by
  unfold evaluatePercent
  apply bind_congr
  intro operator
  rw [ha, hb, Run.ofExcept_ok_bind, Run.ofExcept_ok_bind, ← h.truthy_eq]
  by_cases hi : c.id.truthy = true
  · have hbucket (seed : Value) : E.bucket seed c.id = E.bucket seed d.id :=
      E.bucket_eq_of_text_eq seed (h.text_eq hi)
    simp only [hbucket]
  · simp only [hi, Bool.not_false, ↓reduceIte]

theorem evaluate_eq_of_names {i j : Value} (ha : Context.Names a i) (hb : Context.Names b j)
    (h : i.SameInstance j) (condition : Condition) (level : Numeral) :
    E.evaluate condition a level = E.evaluate condition b level := by
  obtain ⟨c, hc, rfl⟩ := ha.coerce
  obtain ⟨d, hd, rfl⟩ := hb.coerce
  exact judge_congr_context (fun t => evaluatePercent_eq_of_sameInstance hc hd h t) _ condition

/-- The record at its end shows the id of the context, which a batch has no other use for than its
evaluations. -/
theorem evaluateAll_of_names {i : Value} (h : Context.Names a i) {batch : Slot (List (Slot Named))}
    {listed : List (Slot Named)} (hbatch : entries batch = .ok listed) :
    E.evaluateAll batch a = (do
      let results ← E.collect a [] listed
      Run.note (.evaluated results.length i)
      return results) := by
  obtain ⟨c, hc, rfl⟩ := h.coerce
  exact evaluateAll_eq_collect hbatch hc

theorem evaluateAll_of_no_entries (ha : Context.coerce a = .ok c) {batch : Slot (List (Slot Named))}
    {f : Fault} (hbatch : entries batch = .error f) : E.evaluateAll batch a = Run.fail f := by
  rw [evaluateAll, ha, hbatch, Run.ofExcept_ok_bind]
  rfl

/-- Contexts of one instance cannot be told apart. Conditions come to the same under them in every
part of the run, and so do batches, but for the id in the record that ends the log of a batch with
results. -/
theorem evaluate_same_instance (E : Evaluator) {a b : Slot Context} {i j : Value}
    (ha : Context.Names a i) (hb : Context.Names b j) (h : i.SameInstance j) :
    (∀ condition level, E.evaluate condition a level = E.evaluate condition b level) ∧
      ∀ batch,
        let run := E.evaluateAll batch a
        let other := E.evaluateAll batch b
        other.outcome = run.outcome ∧ other.hashed = run.hashed ∧
          (∀ f, run.outcome = .error f → other.log = run.log) ∧
          ∀ results, run.outcome = .ok results →
            ∃ log, run.log = log ++ [.evaluated results.length i] ∧
              other.log = log ++ [.evaluated results.length j] := by
  have heval (condition : Condition) (level : Numeral) :
      E.evaluate condition a level = E.evaluate condition b level :=
    evaluate_eq_of_names ha hb h condition level
  refine ⟨heval, fun batch => ?_⟩
  intro run other
  cases hbatch : entries batch with
  | error f =>
    obtain ⟨c, hc, -⟩ := ha.coerce
    obtain ⟨d, hd, -⟩ := hb.coerce
    have hrun : run = Run.fail f := evaluateAll_of_no_entries hc hbatch
    have hother : other = Run.fail f := evaluateAll_of_no_entries hd hbatch
    rw [hrun, hother]
    exact ⟨rfl, rfl, fun _ _ => rfl, fun _ hf => by cases hf⟩
  | ok listed =>
    have hcollect : E.collect b [] listed = E.collect a [] listed :=
      (collect_congr (fun m => heval m (.int 0)) [] listed).symm
    have hrun : run = _ := evaluateAll_of_names ha hbatch
    have hother : other = _ := evaluateAll_of_names hb hbatch
    rw [hrun, hother, hcollect]
    rcases E.collect a [] listed with ⟨f | results, hashed, log⟩
    · exact ⟨rfl, rfl, fun _ _ => rfl, fun _ hf => by cases hf⟩
    · refine ⟨rfl, rfl, (fun _ hf => by cases hf), fun r hr => ?_⟩
      cases hr
      exact ⟨log, rfl, rfl⟩

/-- A number under the alias and its text in a typed context name one instance, whatever stands
beside them. -/
theorem evaluate_same_instance_aliased :
    let a : Slot Context := .plain (.object
      [("country", .str "NZ"), ("id", .null), ("randomizationId", .int 7)])
    let b : Slot Context := .filled ⟨.str "7", .object [("id", .str "8")]⟩
    let c : Condition := .node (.ofTest (.make (.str "s") (.known .greaterThan) (.int 5) .unset))
    let batch : Slot (List (Slot Named)) := .filled [.filled ⟨.str "n", c⟩]
    let E : Evaluator :=
      { fingerprinter := ⟨"length", fun s => if s = "s.7" then 6 else 0⟩ }
    Context.Names a (.int 7) ∧ Context.Names b (.str "7") ∧
      (Value.int 7).SameInstance (.str "7") ∧
      (E.evaluate c a (.int 0)).outcome = .ok true ∧ (E.evaluate c b (.int 0)).outcome = .ok true ∧
      (E.evaluateAll batch a).log = [.evaluated 1 (.int 7)] ∧
      (E.evaluateAll batch b).outcome = .ok [("n", true)] ∧
      (E.evaluateAll batch b).hashed = ["s.7"] ∧
      (E.evaluateAll batch b).log = [.evaluated 1 (.str "7")] := by
  intro a b c batch E
  have ha : Context.Names a (.int 7) := .aliased rfl
  have hb : Context.Names b (.str "7") := .typed _
  have hsame : (Value.int 7).SameInstance (.str "7") := .given rfl rfl (by decide)
  have htrue : (E.evaluate c a (.int 0)).outcome = .ok true := by decide +kernel
  have hrun : (E.evaluateAll batch a).outcome = .ok [("n", true)] := by decide +kernel
  have hhashed : (E.evaluateAll batch a).hashed = ["s.7"] := by decide +kernel
  have hlog : (E.evaluateAll batch a).log = [.evaluated 1 (.int 7)] := by decide +kernel
  obtain ⟨hcondition, hbatch⟩ := evaluate_same_instance E ha hb hsame
  obtain ⟨ho, hh, -, hresults⟩ := hbatch batch
  obtain ⟨log, hl, hl'⟩ := hresults _ hrun
  have hnone : log = [] := by simpa using hl.symm.trans hlog
  refine ⟨ha, hb, hsame, htrue, ?_, hlog, ho.trans hrun, hh.trans hhashed, ?_⟩
  · rw [← hcondition, htrue]
  · rw [hl', hnone]
    rfl

end Evaluator

end Targeting
