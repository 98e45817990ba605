import Targeting.Batch
import Targeting.Proofs.Verdicts
import Mathlib.Data.List.Basic

/-!
What a batch comes to. Its entries are answered one by one, each as if it stood alone; the first
that fails ends the batch, and only if none does are there results. These have every name once,
where it was first mentioned, with the answer that was given last.
-/

namespace Targeting

/-! ### Answers by name -/

namespace Results

/-- The first spelling of each name, in order. -/
def firsts : List Key → List Key
  | [] => []
  | name :: rest => name :: (firsts rest).filter fun other => !name.same other

/-- The answer that comes first under a name. -/
def answer? (name : Key) (answers : Results) : Option Bool :=
  (answers.find? fun a => a.1.same name).map (·.2)

/-- Results that hold the last of the answers to each name, at the place of the first. -/
structure Collect (results answers : Results) : Prop where
  names : results.map (·.1) = firsts (answers.map (·.1))
  distinct : results.Pairwise fun a b => a.1.same b.1 = false
  last : ∀ name, results.answer? name = answer? name answers.reverse

theorem any_firsts (names : List Key) (name : Key) :
    ((firsts names).any fun n => n.same name) = names.any fun n => n.same name := by
  induction names with
  | nil => rfl
  | cons n rest ih =>
    rw [firsts, List.any_cons, List.any_cons, ← ih]
    cases hn : n.same name with
    | true => rfl
    | false =>
      rw [Bool.false_or, Bool.false_or, List.any_filter]
      apply List.any_congr rfl
      intro m
      cases hm : n.same m with
      | false => rfl
      | true =>
        rw [← Key.same_trans hm, hn]
        rfl

theorem firsts_concat (names : List Key) (name : Key) :
    firsts (names ++ [name]) =
      if names.any fun n => n.same name then firsts names else firsts names ++ [name] := by
  induction names with
  | nil => rfl
  | cons n rest ih =>
    rw [List.cons_append, firsts, ih, firsts, List.any_cons]
    cases hr : rest.any fun n => n.same name with
    | true => simp
    | false => cases hn : n.same name <;> simp [List.filter_append, hn]

theorem firsts_distinct (names : List Key) :
    (firsts names).Pairwise fun a b => a.same b = false := by
  induction names with
  | nil => exact .nil
  | cons n rest ih =>
    refine List.pairwise_cons.mpr ⟨fun m hm => ?_, ih.filter _⟩
    simpa using (List.mem_filter.mp hm).2

theorem names_put (name : Key) (answer : Bool) (results : Results) :
    (results.put name answer).map (·.1) =
      if (results.map (·.1)).any fun n => n.same name then results.map (·.1)
      else results.map (·.1) ++ [name] := by
  induction results with
  | nil => rfl
  | cons r rest ih =>
    obtain ⟨n, a⟩ := r
    rw [put, List.map_cons, List.any_cons]
    cases hn : n.same name with
    | true => rfl
    | false =>
      simp only [Bool.false_eq_true, ↓reduceIte, List.map_cons, ih, Bool.false_or]
      split <;> rfl

theorem answer?_cons (name n : Key) (a : Bool) (rest : Results) :
    answer? name ((n, a) :: rest) = if n.same name then some a else rest.answer? name := by
  unfold answer?
  rw [List.find?_cons]
  cases n.same name <;> rfl

theorem answer?_put (name other : Key) (answer : Bool) (results : Results) :
    (results.put name answer).answer? other =
      if name.same other then some answer else results.answer? other := by
  induction results with
  | nil => exact answer?_cons other name answer []
  | cons r rest ih =>
    obtain ⟨n, a⟩ := r
    rw [put, answer?_cons]
    cases hn : n.same name with
    | true =>
      rw [if_pos rfl, answer?_cons, Key.same_trans hn]
      split <;> rfl
    | false =>
      rw [if_neg Bool.false_ne_true, answer?_cons, ih]
      cases ho : n.same other with
      | false => rfl
      | true =>
        rw [Key.same_trans ho] at hn
        rw [Key.same_comm, hn]
        rfl

theorem put_of_new {name : Key} {results : Results} (h : ∀ r ∈ results, r.1.same name = false)
    (answer : Bool) : results.put name answer = results ++ [(name, answer)] := by
  induction results with
  | nil => rfl
  | cons r rest ih =>
    obtain ⟨hr, hrest⟩ := List.forall_mem_cons.mp h
    rw [put, hr, if_neg Bool.false_ne_true, ih hrest]
    rfl

/-- Answers to different names are results as they are. -/
theorem foldl_put_of_distinct {results answers : Results}
    (h : (results ++ answers).Pairwise fun a b => a.1.same b.1 = false) :
    answers.foldl (fun r a => r.put a.1 a.2) results = results ++ answers := by
  induction answers generalizing results with
  | nil => rw [List.foldl_nil, List.append_nil]
  | cons a rest ih =>
    have hnew := (List.pairwise_append.mp h).2.2
    rw [List.append_cons] at h
    rw [List.foldl_cons, put_of_new fun r hr => hnew r hr a List.mem_cons_self, ih h,
      ← List.append_cons]

theorem Collect.nil : Collect [] [] := ⟨rfl, .nil, fun _ => rfl⟩

/-- One more answer, put under its name. -/
theorem Collect.put {results answers : Results} (h : Collect results answers) (name : Key)
    (answer : Bool) : Collect (results.put name answer) (answers ++ [(name, answer)]) := by
  have hnames : (results.put name answer).map (·.1) =
      firsts ((answers ++ [(name, answer)]).map (·.1)) := by
    rw [names_put, h.names, any_firsts, List.map_append, List.map_singleton, firsts_concat]
  refine ⟨hnames, ?_, fun other => ?_⟩
  · rw [← List.pairwise_map (f := Prod.fst) (R := fun a b => Key.same a b = false), hnames]
    exact firsts_distinct _
  · rw [answer?_put, h.last, List.reverse_append, List.reverse_singleton, List.singleton_append,
      answer?_cons]

end Results

/-! ### Entries -/

namespace Evaluator

variable {E : Evaluator} {context : Slot Context}

/-- What a condition under a name comes to: its own run, at the outermost level. What can be no name
is found only then. -/
def answerNamed (E : Evaluator) (context : Slot Context) (name : Value) (c : Condition) :
    Run (Key × Bool) :=
  let run := E.evaluate c context (.int 0)
  match run.outcome, name.key? with
  | .ok answer, some key => { run with outcome := .ok (key, answer) }
  | .ok _, none => { run with outcome := .error (.unusableKey name) }
  | .error f, _ => { run with outcome := .error f }

/-- What an entry of a batch comes to by itself. A plain one must be an object with a name that is
not empty before anything of it is evaluated. -/
def answer (E : Evaluator) (context : Slot Context) : Slot Named → Run (Key × Bool)
  | .filled n => E.answerNamed context n.name n.condition
  | .plain (.object fs) =>
    match Fields.find? "name" fs with
    | none => .fail (.missingField "name")
    | some name =>
      if name.truthy then E.answerNamed context name (.decode (Fields.get "condition" fs))
      else .fail .emptyName
  | .plain v => .fail (.notEntry v)
  | .foreign x => .fail (.notEntry x.value)

theorem answerNamed_eq (name : Value) (c : Condition) :
    E.answerNamed context name c = (do
      let answer ← E.evaluate c context (.int 0)
      let key ← Run.ofExcept name.toKey
      return (key, answer)) := by
  unfold answerNamed Value.toKey
  rcases E.evaluate c context (.int 0) with ⟨o, h, l⟩
  cases o with
  | error f => rfl
  | ok answer => cases name.key? <;> simp [Run.ofExcept, Run.done, Run.fail]

theorem answer_eq (entry : Slot Named) :
    E.answer context entry = (do
      let n ← Run.ofExcept (Named.coerce entry)
      E.answerNamed context n.name n.condition) := by
  cases entry with
  | filled n => rfl
  | foreign x => rfl
  | plain v =>
    cases v with
    | object fs =>
      cases hn : Fields.find? "name" fs with
      | none => simp [answer, Named.coerce, Named.ofValue, hn, Run.ofExcept]
      | some name =>
        cases ht : name.truthy <;>
          simp [answer, Named.coerce, Named.ofValue, Named.make, hn, ht, Run.ofExcept, Run.done]
    | _ => rfl

/-- A batch goes on with its next entry as it would by itself. -/
theorem collect_cons (results : Results) (entry : Slot Named) (rest : List (Slot Named)) :
    E.collect context results (entry :: rest) =
      E.answer context entry >>= fun a => E.collect context (results.put a.1 a.2) rest := by
  rw [collect, answer_eq, bind_assoc]
  apply bind_congr
  intro n
  rw [answerNamed_eq, bind_assoc]
  apply bind_congr
  intro b
  rw [bind_assoc]
  rfl

/-- Either every entry has an answer, and a run over them collects the answers; or there is a first
that has none, and the run ends there. -/
theorem collect_law (results : Results) (entries : List (Slot Named)) :
    (∃ answers : Results, entries.map (fun e => (E.answer context e).outcome) = answers.map .ok ∧
      E.collect context results entries =
        ⟨.ok (answers.foldl (fun r a => r.put a.1 a.2) results),
          entries.flatMap fun e => (E.answer context e).hashed,
          entries.flatMap fun e => (E.answer context e).log⟩) ∨
    (∃ (before : List (Slot Named)) (entry : Slot Named) (after : List (Slot Named))
      (answers : Results) (f : Fault), entries = before ++ entry :: after ∧
      before.map (fun e => (E.answer context e).outcome) = answers.map .ok ∧
      (E.answer context entry).outcome = .error f ∧
      E.collect context results entries =
        ⟨.error f, (before ++ [entry]).flatMap fun e => (E.answer context e).hashed,
          (before ++ [entry]).flatMap fun e => (E.answer context e).log⟩) := by
  induction entries generalizing results with
  | nil => exact Or.inl ⟨[], rfl, rfl⟩
  | cons entry rest ih =>
    rw [collect_cons]
    rcases he : E.answer context entry with ⟨o, h, l⟩
    cases o with
    | error f =>
      refine Or.inr ⟨[], entry, rest, [], f, rfl, rfl, by rw [he], ?_⟩
      simp [he]
    | ok a =>
      rcases ih (results.put a.1 a.2) with ⟨answers, hall, hrun⟩ | hfirst
      · refine Or.inl ⟨a :: answers, ?_, ?_⟩
        · rw [List.map_cons, List.map_cons, hall, he]
        · rw [Run.mk_ok_bind, hrun]
          simp [he]
      · obtain ⟨before, stop, after, answers, f, rfl, hall, hf, hrun⟩ := hfirst
        refine Or.inr ⟨entry :: before, stop, after, a :: answers, f, rfl, ?_, hf, ?_⟩
        · rw [List.map_cons, List.map_cons, hall, he]
        · rw [Run.mk_ok_bind, hrun]
          simp [he]

end Evaluator

theorem Results.Collect.foldl {results done : Results} (h : Collect results done)
    (answers : Results) :
    Collect (answers.foldl (fun r a => r.put a.1 a.2) results) (done ++ answers) := by
  induction answers generalizing results done with
  | nil => simpa using h
  | cons a rest ih =>
    have := ih (h.put a.1 a.2)
    simpa using this

namespace Evaluator

variable {E : Evaluator} {context : Slot Context}

/-- Contexts under which all conditions come to the same give the same answers. -/
theorem answer_congr {a b : Slot Context}
    (h : ∀ c, E.evaluate c a (.int 0) = E.evaluate c b (.int 0)) (entry : Slot Named) :
    E.answer a entry = E.answer b entry := by
  rw [answer_eq, answer_eq]
  apply bind_congr
  intro n
  rw [answerNamed, answerNamed, h]

theorem collect_congr {a b : Slot Context}
    (h : ∀ c, E.evaluate c a (.int 0) = E.evaluate c b (.int 0)) (results : Results)
    (entries : List (Slot Named)) : E.collect a results entries = E.collect b results entries := by
  induction entries generalizing results with
  | nil => rfl
  | cons entry rest ih =>
    rw [collect_cons, collect_cons, answer_congr h]
    exact bind_congr fun answer => ih _

theorem answer_coerce {c : Context} (h : Context.coerce context = .ok c) (E : Evaluator)
    (entry : Slot Named) : E.answer context entry = E.answer (.filled c) entry :=
  answer_congr (fun m => evaluate_coerce h E m (.int 0)) entry

/-- A batch collects the answers to its entries and records how many names there are. -/
theorem evaluateAll_eq_collect {batch : Slot (List (Slot Named))} {listed : List (Slot Named)}
    {c : Context} (hb : entries batch = .ok listed) (hc : Context.coerce context = .ok c) :
    E.evaluateAll batch context = (do
      let results ← E.collect context [] listed
      Run.note (.evaluated results.length c.id)
      return results) := by
  have hcollect : E.collect (.filled c) [] listed = E.collect context [] listed :=
    (collect_congr (fun m => evaluate_coerce hc E m (.int 0)) [] listed).symm
  rw [evaluateAll, hc, hb, Run.ofExcept_ok_bind, Run.ofExcept_ok_bind, hcollect]

/-- Entries that all have an answer, under different names, are the results of their batch. -/
theorem evaluateAll_eq_of_answers {batch : Slot (List (Slot Named))} {listed : List (Slot Named)}
    {c : Context} {answers : Results} (hb : entries batch = .ok listed)
    (hc : Context.coerce context = .ok c)
    (hall : listed.map (fun e => (E.answer context e).outcome) = answers.map .ok)
    (hd : answers.Pairwise fun a b => a.1.same b.1 = false) :
    E.evaluateAll batch context =
      ⟨.ok answers, listed.flatMap fun e => (E.answer context e).hashed,
        (listed.flatMap fun e => (E.answer context e).log) ++
          [.evaluated answers.length c.id]⟩ := by
  rw [evaluateAll_eq_collect hb hc]
  rcases collect_law [] listed with ⟨given, hgiven, hrun⟩ | hfirst
  · rw [hgiven] at hall
    have : given = answers := List.map_injective_iff.mpr (fun _ _ => Except.ok.inj) hall
    subst this
    have hresults := Results.foldl_put_of_distinct (List.nil_append given ▸ hd)
    rw [hrun, hresults, Run.mk_ok_bind, Run.note_bind]
    simp
  · obtain ⟨before, entry, after, some, f, rfl, -, hf, -⟩ := hfirst
    have hentry : .error f ∈ answers.map (Except.ok (ε := Fault)) := by
      rw [← hall, ← hf]
      exact List.mem_map_of_mem (List.mem_append_right _ List.mem_cons_self)
    obtain ⟨a, -, ha⟩ := List.mem_map.mp hentry
    cases ha

theorem evaluateAll_of_answers {batch : Slot (List (Slot Named))} {listed : List (Slot Named)}
    {c : Context} {answers : Results} (hb : entries batch = .ok listed)
    (hc : Context.coerce context = .ok c)
    (hall : listed.map (fun e => (E.answer context e).outcome) = answers.map .ok)
    (hd : answers.Pairwise fun a b => a.1.same b.1 = false) :
    (E.evaluateAll batch context).outcome = .ok answers :=
  congrArg Run.outcome (evaluateAll_eq_of_answers hb hc hall hd)

theorem exists_collect_iff (results : Results) (listed : List (Slot Named)) :
    (∃ all, (E.collect context results listed).outcome = .ok all) ↔
      ∀ e ∈ listed, ∃ a, (E.answer context e).outcome = .ok a := by
  induction listed generalizing results with
  | nil => exact ⟨fun _ => List.forall_mem_nil _, fun _ => ⟨results, rfl⟩⟩
  | cons e rest ih =>
    rw [collect_cons, List.forall_mem_cons]
    constructor
    · rintro ⟨all, h⟩
      obtain ⟨a, ha, hrest⟩ := Run.bind_outcome_eq_ok.mp h
      exact ⟨⟨a, ha⟩, (ih _).mp ⟨all, hrest⟩⟩
    · rintro ⟨⟨a, ha⟩, hrest⟩
      obtain ⟨all, h⟩ := (ih (results.put a.1 a.2)).mpr hrest
      exact ⟨all, Run.bind_outcome_eq_ok.mpr ⟨a, ha, h⟩⟩

/-- There are results exactly if every entry has an answer. -/
theorem exists_results_iff {batch : Slot (List (Slot Named))} {listed : List (Slot Named)}
    {c : Context} (hb : entries batch = .ok listed) (hc : Context.coerce context = .ok c) :
    (∃ results, (E.evaluateAll batch context).outcome = .ok results) ↔
      ∀ e ∈ listed, ∃ a, (E.answer context e).outcome = .ok a := by
  rw [evaluateAll_eq_collect hb hc, ← exists_collect_iff []]
  constructor
  · rintro ⟨results, h⟩
    obtain ⟨all, hall, -⟩ := Run.bind_outcome_eq_ok.mp h
    exact ⟨all, hall⟩
  · rintro ⟨all, hall⟩
    exact ⟨all, Run.bind_outcome_eq_ok.mpr ⟨all, hall, rfl⟩⟩

/-- A batch answers its entries in order, each as if it stood alone. Either all have an answer; then
the results collect the answers, and a record tells how many names there are. Or one is the first to
fail; then so does the batch, with what was hashed and written up to there and nothing beyond. -/
theorem evaluateAll_law (E : Evaluator) {batch : Slot (List (Slot Named))}
    {listed : List (Slot Named)} {context : Slot Context} {c : Context}
    (hb : entries batch = .ok listed) (hc : Context.coerce context = .ok c) :
    (∃ answers results : Results,
      listed.map (fun e => (E.answer context e).outcome) = answers.map .ok ∧
      results.Collect answers ∧
      E.evaluateAll batch context =
        ⟨.ok results, listed.flatMap fun e => (E.answer context e).hashed,
          (listed.flatMap fun e => (E.answer context e).log) ++
            [.evaluated results.length c.id]⟩) ∨
    (∃ (before : List (Slot Named)) (entry : Slot Named) (after : List (Slot Named))
      (answers : Results) (f : Fault), listed = before ++ entry :: after ∧
      before.map (fun e => (E.answer context e).outcome) = answers.map .ok ∧
      (E.answer context entry).outcome = .error f ∧
      E.evaluateAll batch context =
        ⟨.error f, (before ++ [entry]).flatMap fun e => (E.answer context e).hashed,
          (before ++ [entry]).flatMap fun e => (E.answer context e).log⟩) := by
  have hrun : E.evaluateAll batch context = (do
      let results ← E.collect (.filled c) [] listed
      Run.note (.evaluated results.length c.id)
      return results) := by
    unfold evaluateAll
    rw [hc, hb]
    rfl
  simp only [answer_coerce hc, hrun]
  rcases collect_law [] listed with ⟨answers, hall, hcollect⟩ | hfirst
  · refine Or.inl ⟨answers, _, hall, Results.Collect.nil.foldl answers, ?_⟩
    rw [hcollect, Run.mk_ok_bind, Run.note_bind]
    simp
  · obtain ⟨before, entry, after, answers, f, rfl, hall, hf, hcollect⟩ := hfirst
    refine Or.inr ⟨before, entry, after, answers, f, rfl, hall, hf, ?_⟩
    rw [hcollect]
    rfl

/-- A name given twice has the later answer at the earlier place. -/
theorem evaluateAll_law_repeated :
    let entry (name : Value) (literal : Key) : Slot Named :=
      .plain (.object [("name", name), ("condition", .object [(literal, .object [])])])
    let listed := [entry (.str "a") "true", entry (.str "b") "true", entry (.str "a") "false"]
    let context : Slot Context := .plain (.object [("id", .str "u")])
    entries (.filled listed) = .ok listed ∧ Context.coerce context = .ok ⟨.str "u", .object []⟩ ∧
      (∃ answers : Results,
        listed.map (fun e => (Evaluator.answer {} context e).outcome) = answers.map .ok ∧
        Results.Collect [("a", false), ("b", true)] answers) := by
  intro entry listed context
  have hb : entries (.filled listed) = .ok listed := rfl
  have hc : Context.coerce context = .ok ⟨.str "u", .object []⟩ := rfl
  refine ⟨hb, hc, ?_⟩
  have hall : (Evaluator.evaluateAll {} (.filled listed) context).outcome =
      .ok [("a", false), ("b", true)] := rfl
  rcases evaluateAll_law {} hb hc with ⟨answers, results, h, hcollect, hrun⟩ | hfirst
  · rw [hrun] at hall
    cases hall
    exact ⟨answers, h, hcollect⟩
  · obtain ⟨_, _, _, _, _, _, _, _, hrun⟩ := hfirst
    rw [hrun] at hall
    cases hall

end Evaluator

end Targeting
