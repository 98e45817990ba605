import Targeting.Proofs.Batches

/-!
The entries of a batch do not depend on each other. Where their names differ, each takes part in the
results by its own evaluation and at its own place; so a batch in another order has the same
answers, in that order, and fails exactly if the batch does.
-/

namespace Targeting

namespace Named

/-- What an entry has for its name and its condition, as a typed one or as an object that is still
to be converted. The condition of such an object may be anything, and null if there is none. -/
inductive Reads : Slot Named → String → Condition → Prop where
  | typed (name : String) (c : Condition) : Reads (.filled ⟨.str name, c⟩) name c
  | plain {fs : Fields} {name : String} (h : Fields.find? "name" fs = some (.str name)) :
    Reads (.plain (.object fs)) name (.plain (Fields.get "condition" fs))

/-- An entry that has a text for its name, which is not empty, and a condition. -/
structure Entry where
  slot : Slot Named
  name : String
  condition : Condition
  reads : Reads slot name condition
  given : name ≠ ""

end Named

namespace Evaluator

variable {E : Evaluator} {context : Slot Context} {c : Context}
variable {batch : Slot (List (Slot Named))} {items : List Named.Entry}

/-- An entry has the answer of its condition alone, under its name. -/
theorem answer_entry (i : Named.Entry) :
    E.answer context i.slot = (do
      let answer ← E.evaluate i.condition context (.int 0)
      return (.str i.name, answer)) := by
  obtain ⟨slot, name, condition, reads, given⟩ := i
  have hkey (d : Condition) : E.answerNamed context (.str name) d = (do
      let answer ← E.evaluate d context (.int 0)
      return (.str name, answer)) := by
    rw [answerNamed_eq]
    rfl
  cases reads with
  | typed => exact hkey condition
  | plain h =>
    have htruthy : (Value.str name).truthy = true := by simpa [Value.truthy] using given
    rw [answer, h]
    dsimp only
    rw [if_pos htruthy, hkey, evaluate_decode]

theorem answer_entry_outcome {i : Named.Entry} {answer : Bool}
    (h : (E.evaluate i.condition context (.int 0)).outcome = .ok answer) :
    (E.answer context i.slot).outcome = .ok (.str i.name, answer) := by
  rw [answer_entry]
  exact Run.bind_outcome_eq_ok.mpr ⟨answer, h, rfl⟩

theorem answer_entry_hashed (i : Named.Entry) :
    (E.answer context i.slot).hashed = (E.evaluate i.condition context (.int 0)).hashed := by
  rw [answer_entry]
  rcases E.evaluate i.condition context (.int 0) with ⟨_ | answer, h, l⟩ <;> simp

/-- A batch has results exactly if each of its conditions has an answer alone. -/
theorem exists_results_iff_conditions (hb : entries batch = .ok (items.map (·.slot)))
    (hc : Context.coerce context = .ok c) :
    (∃ results, (E.evaluateAll batch context).outcome = .ok results) ↔
      ∀ i ∈ items, ∃ answer, (E.evaluate i.condition context (.int 0)).outcome = .ok answer := by
  rw [exists_results_iff hb hc, List.forall_mem_map]
  refine forall₂_congr fun i _ => ⟨?_, fun ⟨answer, h⟩ => ⟨_, answer_entry_outcome h⟩⟩
  rintro ⟨a, ha⟩
  rw [answer_entry] at ha
  obtain ⟨answer, h, -⟩ := Run.bind_outcome_eq_ok.mp ha
  exact ⟨answer, h⟩

/-- Conditions that all have an answer, under different names, give these as the results, and what
they hash alone is hashed one after the other. -/
theorem evaluateAll_entries (hb : entries batch = .ok (items.map (·.slot)))
    (hc : Context.coerce context = .ok c) (hnames : (items.map (·.name)).Nodup)
    {answer : Named.Entry → Bool}
    (hall : ∀ i ∈ items, (E.evaluate i.condition context (.int 0)).outcome = .ok (answer i)) :
    (E.evaluateAll batch context).outcome = .ok (items.map fun i => (.str i.name, answer i)) ∧
      (E.evaluateAll batch context).hashed =
        items.flatMap fun i => (E.evaluate i.condition context (.int 0)).hashed := by
  have hanswers : (items.map (·.slot)).map (fun e => (E.answer context e).outcome) =
      (items.map fun i => (Key.str i.name, answer i)).map .ok := by
    rw [List.map_map, List.map_map]
    exact List.map_congr_left fun i hi => answer_entry_outcome (hall i hi)
  have hdistinct : (items.map fun i => (Key.str i.name, answer i)).Pairwise
      fun a b => a.1.same b.1 = false := by
    rw [List.pairwise_map]
    refine (List.pairwise_map.mp hnames).imp fun {i j} hne => ?_
    simpa using hne
  rw [evaluateAll_eq_of_answers hb hc hanswers hdistinct]
  refine ⟨rfl, ?_⟩
  dsimp only
  rw [List.flatMap_map]
  exact List.flatMap_congr fun i _ => answer_entry_hashed i

/-- Of entries with different names, the order does not matter but for the order of the results. A
batch with the same entries in another order has results exactly if the batch has, which is so
exactly if each condition has an answer alone. Each answer then stands under its name at the place
of its entry, in both, and both hash the same texts, in some order. -/
theorem evaluateAll_perm (E : Evaluator) {items moved : List Named.Entry}
    {batch other : Slot (List (Slot Named))} {context : Slot Context} {c : Context}
    (hb : entries batch = .ok (items.map (·.slot))) (ho : entries other = .ok (moved.map (·.slot)))
    (hmoved : moved.Perm items) (hnames : (items.map (·.name)).Nodup)
    (hc : Context.coerce context = .ok c) :
    let run := E.evaluateAll batch context
    let again := E.evaluateAll other context
    ((∃ results, again.outcome = .ok results) ↔ ∃ results, run.outcome = .ok results) ∧
      ((∃ results, run.outcome = .ok results) ↔
        ∀ i ∈ items, ∃ answer, (E.evaluate i.condition context (.int 0)).outcome = .ok answer) ∧
      ((∃ results, run.outcome = .ok results) → ∃ answer : Named.Entry → Bool,
        (∀ i ∈ items, (E.evaluate i.condition context (.int 0)).outcome = .ok (answer i)) ∧
        run.outcome = .ok (items.map fun i => (.str i.name, answer i)) ∧
        again.outcome = .ok (moved.map fun i => (.str i.name, answer i)) ∧
        again.hashed.Perm run.hashed) := by
  intro run again
  have hrun : (∃ results, run.outcome = .ok results) ↔ _ := exists_results_iff_conditions hb hc
  have hagain : (∃ results, again.outcome = .ok results) ↔ _ := exists_results_iff_conditions ho hc
  refine ⟨?_, hrun, fun hresults => ?_⟩
  · rw [hrun, hagain]
    exact forall_congr' fun i => by rw [hmoved.mem_iff]
  · -- The answers are chosen once, for the entries and not for their places in either batch.
    choose! answer hall using hrun.mp hresults
    obtain ⟨houtcome, hhashed⟩ := evaluateAll_entries hb hc hnames hall
    obtain ⟨houtcome', hhashed'⟩ := evaluateAll_entries ho hc
      ((hmoved.map _).nodup_iff.mpr hnames) fun i hi => hall i (hmoved.mem_iff.mp hi)
    refine ⟨answer, hall, houtcome, houtcome', ?_⟩
    change (E.evaluateAll other context).hashed.Perm (E.evaluateAll batch context).hashed
    rw [hhashed', hhashed]
    exact hmoved.flatMap_right _

/-- Two typed entries and an object between them; the batch in another order starts with that. -/
theorem evaluateAll_perm_rotated :
    let test (seed : String) : Condition :=
      .node (.ofTest (.make (.str seed) (.known .lessOrEqual) (.int 5) .unset))
    let fs : Fields := [("name", .str "b"), ("condition", .object [("or", .object
      [("conditions", .array [.int 7, .object [("percent", .object
        [("operator", .str "GREATER_THAN"), ("microPercent", .int 5)])]])])])]
    let a : Named.Entry := ⟨.filled ⟨.str "a", test "s"⟩, "a", test "s", .typed _ _, by decide⟩
    let b : Named.Entry :=
      ⟨.plain (.object fs), "b", .plain (Fields.get "condition" fs), .plain rfl, by decide⟩
    let c : Named.Entry := ⟨.filled ⟨.str "c", test "t"⟩, "c", test "t", .typed _ _, by decide⟩
    let E : Evaluator := { buckets := .int 100, fingerprinter :=
      ⟨"f", fun text => if text = "s.u" then 107 else if text = "t.u" then 3 else 42⟩ }
    let context : Slot Context := .plain (.object [("id", .str "u")])
    let run := E.evaluateAll (.filled ([a, b, c].map (·.slot))) context
    let again := E.evaluateAll (.filled ([b, c, a].map (·.slot))) context
    [b, c, a].Perm [a, b, c] ∧ ([a, b, c].map (·.name)).Nodup ∧
      Context.coerce context = .ok ⟨.str "u", .object []⟩ ∧
      run.outcome = .ok [("a", false), ("b", true), ("c", true)] ∧
      run.hashed = ["s.u", "u", "t.u"] ∧
      ∃ answer : Named.Entry → Bool,
        run.outcome = .ok ([a, b, c].map fun i => (.str i.name, answer i)) ∧
        again.outcome = .ok ([b, c, a].map fun i => (.str i.name, answer i)) ∧
        again.hashed.Perm run.hashed := by
  intro test fs a b c E context run again
  have hmoved : [b, c, a].Perm [a, b, c] := List.perm_append_singleton a [b, c]
  have hnames : ([a, b, c].map (·.name)).Nodup := by decide
  have hc : Context.coerce context = .ok ⟨.str "u", .object []⟩ := rfl
  have hrun : run.outcome = .ok [("a", false), ("b", true), ("c", true)] := rfl
  have hb : entries (.filled ([a, b, c].map (·.slot))) = .ok ([a, b, c].map (·.slot)) := rfl
  have ho : entries (.filled ([b, c, a].map (·.slot))) = .ok ([b, c, a].map (·.slot)) := rfl
  obtain ⟨-, -, hresults⟩ := evaluateAll_perm E hb ho hmoved hnames hc
  obtain ⟨answer, -, houtcome, houtcome', hhashed⟩ := hresults ⟨_, hrun⟩
  exact ⟨hmoved, hnames, hc, hrun, rfl, answer, houtcome, houtcome', hhashed⟩

end Evaluator

end Targeting
