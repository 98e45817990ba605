import Targeting.Proofs.Batches
import Targeting.Proofs.Decoding

/-!
How a decision can fail. What is decoded has every part that an evaluation asks for, so nothing is
left that can go wrong but a percent test without a usable comparison and a context without an id.
These are the failures that callers are told to expect.
-/

namespace Targeting

def Failure.documented : List Failure :=
  [.precondition "invalid operator in remote config server condition",
    .precondition "context argument is missing an \"id\" field."]

/-! ### Runs -/

namespace Run

variable {α β : Type}

/-- A run that ends with an answer or with a documented failure. -/
def Documented (r : Run α) : Prop :=
  ∀ f, r.outcome = .error f → ∃ failure ∈ Failure.documented, f.failure? = some failure

theorem documented_of_ok {r : Run α} {a : α} (h : r.outcome = .ok a) : r.Documented := by
  intro f hf
  rw [h] at hf
  cases hf

theorem documented_pure (a : α) : (pure a : Run α).Documented := documented_of_ok rfl

theorem documented_invalidOperator : (fail .invalidOperator : Run α).Documented := by
  intro f hf
  cases hf
  exact ⟨_, List.mem_cons_self, rfl⟩

theorem documented_missingId : (fail .missingId : Run α).Documented := by
  intro f hf
  cases hf
  exact ⟨_, List.mem_cons_of_mem _ List.mem_cons_self, rfl⟩

/-- Going on from a run needs only to be safe for the answer that it has. -/
theorem Documented.bind {r : Run α} {f : α → Run β} (h : r.Documented)
    (hf : ∀ a, r.outcome = .ok a → (f a).Documented) : (r >>= f).Documented := by
  rcases r with ⟨o, hs, l⟩
  cases o with
  | error e =>
    intro g hg
    cases hg
    exact h e rfl
  | ok a =>
    intro g hg
    exact hf a rfl g hg

theorem documented_ofExcept_bind {x : Except Fault α} {f : α → Run β} (hx : ∃ a, x = .ok a)
    (hf : ∀ a, x = .ok a → (f a).Documented) : (ofExcept x >>= f).Documented := by
  obtain ⟨a, rfl⟩ := hx
  apply (documented_pure a).bind
  intro b hb
  cases hb
  exact hf a rfl

end Run

theorem sweep_documented {α : Type} {stop : Bool} {judge : α → Run Bool} {as : List α}
    (h : ∀ a ∈ as, (judge a).Documented) : (sweep stop judge as).Documented := by
  induction as with
  | nil => exact Run.documented_pure _
  | cons a rest ih =>
    rw [sweep_cons]
    apply (h a List.mem_cons_self).bind
    intro b _
    split
    · exact Run.documented_pure _
    · exact ih fun b hb => h b (List.mem_cons_of_mem a hb)

/-! ### Percent tests -/

theorem Numeral.remainder?_of_ne_zero {m : Numeral} (h : m.toNumber ≠ .ofInt 0) (n : Nat) :
    ∃ r, remainder? n m = some r := by
  cases m with
  | bool b =>
    cases b with
    | true => exact ⟨_, rfl⟩
    | false => exact absurd rfl h
  | int m => exact ⟨_, remainder?_int fun hm => h (by rw [hm]; rfl)⟩
  | float x =>
    unfold remainder?
    dsimp only
    split
    · rename_i q p hq hp
      rw [if_neg fun hz => h (by rw [toNumber, hq, hz]; rfl)]
      exact ⟨_, rfl⟩
    · exact ⟨_, rfl⟩
    · exact ⟨_, rfl⟩
    · exact ⟨_, rfl⟩

namespace Evaluator

variable {E : Evaluator} {context : Slot Context} {c : Context}

theorem bucket_documented (hE : E.buckets.toNumber ≠ .ofInt 0) (seed id : Value) :
    (E.bucket seed id).Documented := by
  unfold bucket
  obtain ⟨r, hr⟩ := Numeral.remainder?_of_ne_zero hE (E.fingerprinter.hash (saltedId seed id))
  apply (Run.documented_of_ok rfl).bind
  intro _ _
  rw [hr]
  exact Run.documented_pure r

theorem evaluatePercent_documented (hE : E.buckets.toNumber ≠ .ofInt 0)
    (hc : Context.coerce context = .ok c) {p : Percent} (hp : p.range.WellFormed) :
    (E.evaluatePercent context (.filled p)).Documented := by
  rw [evaluatePercent_filled]
  split
  · exact Run.documented_invalidOperator
  apply Run.documented_ofExcept_bind ⟨c, hc⟩
  intro c _
  split
  · exact Run.documented_missingId
  apply (bucket_documented hE p.seed c.id).bind
  intro b _
  apply Run.documented_ofExcept_bind (p.verdict_of_wellFormed hp b)
  intro answer _
  cases answer with
  | some answer => exact Run.documented_pure answer
  | none =>
    apply Run.documented_ofExcept_bind (p.encode_of_wellFormed hp)
    intro v _
    exact (Run.documented_of_ok rfl).bind fun _ _ => Run.documented_invalidOperator

end Evaluator

/-! ### Conditions -/

theorem Group.sweep_documented {stop : Bool} {member : Condition → Run Bool} {g : Group Condition}
    (hg : g.WellFormed) (hs : g.isSet = true) (hm : ∀ c ∈ g.listed, (member c).Documented) :
    (do sweep stop member (← Run.ofExcept g.conditions)).Documented := by
  have hconditions := hg.conditions hs
  apply Run.documented_ofExcept_bind ⟨_, hconditions⟩
  intro cs hcs
  rw [hconditions] at hcs
  cases hcs
  exact Targeting.sweep_documented hm

/-- One level: a well-formed node fails only as its tests and members do. -/
theorem Node.dispatch_documented {test : Test → Run Bool} {member : Condition → Run Bool}
    {n : Node Condition} (hn : n.WellFormed)
    (ht : ∀ p : Percent, p.range.WellFormed → (test (.filled p)).Documented)
    (ha : ∀ c ∈ Group.listed n.anyOf, (member c).Documented)
    (hb : ∀ c ∈ Group.listed n.allOf, (member c).Documented) :
    (n.dispatch test member).Documented := by
  unfold dispatch
  cases hv : n.variant with
  | anyOf g =>
    obtain ⟨hs, rfl⟩ := variant_eq_anyOf hv
    exact Group.sweep_documented hn.anyOf hs ha
  | allOf g =>
    obtain ⟨-, hs, rfl⟩ := variant_eq_allOf hv
    exact Group.sweep_documented hn.allOf hs hb
  | always => exact Run.documented_pure true
  | never => exact Run.documented_pure false
  | percent t =>
    obtain ⟨rfl, hs⟩ := variant_eq_percent hv
    obtain ⟨p, hp, hrange⟩ := hn.percent.filled_of_isSet hs
    dsimp only
    rw [hp]
    exact ht p hrange
  | unknown =>
    apply Run.documented_ofExcept_bind (hn.encode_of_unknown hv)
    intro v _
    exact (Run.documented_of_ok rfl).bind fun _ _ => Run.documented_pure false

namespace Evaluator

variable {E : Evaluator} {context : Slot Context} {c : Context}

theorem judge_documented (hE : E.buckets.toNumber ≠ .ofInt 0)
    (hc : Context.coerce context = .ok c) {d : Condition} (hd : d.WellFormed) (levels : Nat) :
    (E.judge context levels d).Documented := by
  induction levels generalizing d with
  | zero => exact Run.documented_of_ok rfl
  | succ levels ih =>
    cases hd with
    | node parts anyOf allOf =>
      rw [judge_succ]
      exact Node.dispatch_documented parts
        (fun p hp => evaluatePercent_documented hE hc hp)
        (fun m hm => ih (anyOf m hm)) fun m hm => ih (allOf m hm)

/-- An entry with a name of its own fails only as its condition does. -/
theorem answer_documented (hE : E.buckets.toNumber ≠ .ofInt 0)
    (hc : Context.coerce context = .ok c) {fs : Fields} {name : String}
    (hname : Fields.find? "name" fs = some (.str name)) (hne : name ≠ "") :
    (E.answer context (.plain (.object fs))).Documented := by
  have htruthy : (Value.str name).truthy = true := by simpa [Value.truthy] using hne
  have hanswer : E.answer context (.plain (.object fs)) =
      E.answerNamed context (.str name) (.decode (Fields.get "condition" fs)) := by
    simp only [answer, hname, htruthy, ↓reduceIte]
  rw [hanswer, answerNamed_eq]
  apply (judge_documented hE hc (Condition.decode_wellFormed _) _).bind
  intro a _
  exact Run.documented_ofExcept_bind ⟨.str name, rfl⟩ fun key _ => Run.documented_pure (key, a)

theorem collect_documented {entries : List (Slot Named)}
    (h : ∀ entry ∈ entries, (E.answer context entry).Documented) (results : Results) :
    (E.collect context results entries).Documented := by
  induction entries generalizing results with
  | nil => exact Run.documented_pure results
  | cons entry rest ih =>
    rw [collect_cons]
    apply (h entry List.mem_cons_self).bind
    intro a _
    exact ih (fun e he => h e (List.mem_cons_of_mem entry he)) _

/-- However malformed a wire document is, deciding it gives an answer or a documented failure, and
so does a batch of objects that each have a name. -/
theorem evaluate_documented (E : Evaluator) (hE : E.buckets.toNumber ≠ .ofInt 0)
    {context : Slot Context} {c : Context} (hc : Context.coerce context = .ok c) :
    (∀ v level, (E.evaluate (.plain v) context level).Documented) ∧
      ∀ batch listed, entries batch = .ok listed →
        (∀ entry ∈ listed, ∃ fs name, entry = .plain (.object fs) ∧
          Fields.find? "name" fs = some (.str name) ∧ name ≠ "") →
        (E.evaluateAll batch context).Documented := by
  constructor
  · intro v level
    rw [← evaluate_decode]
    exact judge_documented hE hc (Condition.decode_wellFormed v) _
  · intro batch listed hb hnamed
    unfold evaluateAll
    apply Run.documented_ofExcept_bind ⟨c, hc⟩
    intro c' _
    apply Run.documented_ofExcept_bind ⟨listed, hb⟩
    intro es hes
    rw [hb] at hes
    cases hes
    have hanswer : ∀ entry ∈ listed, (E.answer (.filled c') entry).Documented := by
      intro entry hentry
      obtain ⟨fs, name, rfl, hname, hne⟩ := hnamed entry hentry
      exact answer_documented hE (c := c') rfl hname hne
    apply (collect_documented hanswer []).bind
    intro results _
    exact (Run.documented_of_ok rfl).bind fun _ _ => Run.documented_pure results

/-- A test that says nothing fails below a group beside values that are no conditions. -/
theorem evaluate_documented_malformed :
    let v : Value := .object
      [("or", .object [("conditions", .array [.null, .int 7, .object [("percent", .object [])]])])]
    let named : Slot Named := .plain (.object [("name", .str "a"), ("condition", v)])
    let context : Slot Context := .plain (.object [("id", .array [])])
    ({} : Evaluator).buckets.toNumber ≠ .ofInt 0 ∧
      Context.coerce context = .ok ⟨.array [], .object []⟩ ∧
      (Evaluator.evaluate {} (.plain v) context (.int 3)).outcome = .error .invalidOperator ∧
      (∃ failure ∈ Failure.documented, Fault.failure? .invalidOperator = some failure) ∧
      (Evaluator.evaluateAll {} (.filled [named]) context).Documented := by
  intro v named context
  have hE : ({} : Evaluator).buckets.toNumber ≠ .ofInt 0 := by decide
  have hc : Context.coerce context = .ok ⟨.array [], .object []⟩ := rfl
  have ho : (Evaluator.evaluate {} (.plain v) context (.int 3)).outcome =
      .error .invalidOperator := rfl
  obtain ⟨hone, hall⟩ := evaluate_documented {} hE hc
  refine ⟨hE, hc, ho, hone v (.int 3) _ ho, hall _ [named] rfl fun entry hentry => ?_⟩
  cases List.mem_singleton.mp hentry
  exact ⟨_, "a", rfl, rfl, by decide⟩

end Evaluator

end Targeting
