import Targeting.Proofs.Batches

/-!
Splits into arms. Thresholds in order cut the line of numbers into pieces, each with its upper end
and without its lower one, so a bucket lies in exactly one of them. A batch that holds one test for
each piece therefore has exactly one true result, wherever the tests stand in it.
-/

namespace Targeting

/-! ### Pieces of the line -/

namespace Arm

/-- The pieces above a threshold, cut at those that follow it. -/
def beyond (a : Number) : List Number → List Arm
  | [] => [.above a]
  | b :: rest => .between a b :: beyond b rest

def split (a : Number) (rest : List Number) : List Arm := .upTo a :: beyond a rest

/-- A place above the first threshold lies in one of the pieces there, any other in none. -/
theorem countP_beyond {x : Number} (hx : x ≠ .nan) {a : Number} {rest : List Number}
    (hn : ∀ b ∈ a :: rest, b ≠ .nan) (h : (a :: rest).IsChain fun a b => a.le b = true) :
    (beyond a rest).countP (·.contains x) = if a.lt x then 1 else 0 := by
  induction rest generalizing a with
  | nil =>
    rw [beyond, List.countP_singleton]
    rfl
  | cons b rest ih =>
    obtain ⟨-, hn⟩ := List.forall_mem_cons.mp hn
    obtain ⟨hab, hchain⟩ := List.isChain_cons_cons.mp h
    rw [beyond, List.countP_cons, ih hn hchain, ← Number.not_le hx (hn b List.mem_cons_self)]
    -- `b` is the upper end of this piece and the lower end of all that follow.
    cases hb : x.le b with
    | true => simp [contains, hb]
    | false =>
      have hbx : b.lt x = true := by
        rw [← Number.not_le hx (hn b List.mem_cons_self), hb]
        rfl
      simp [contains, hb, Number.lt_of_le_of_lt hab hbx]

/-- Thresholds in order leave every place in exactly one piece. -/
theorem countP_split {x : Number} (hx : x ≠ .nan) {a : Number} {rest : List Number}
    (hn : ∀ b ∈ a :: rest, b ≠ .nan) (h : (a :: rest).IsChain fun a b => a.le b = true) :
    (split a rest).countP (·.contains x) = 1 := by
  rw [split, List.countP_cons, countP_beyond hx hn h, ← Number.not_le hx (hn a List.mem_cons_self)]
  cases ha : x.le a <;> simp [contains, ha]

end Arm

/-! ### Tests for a piece -/

/-- An entry of a batch that has a name and is a test with a seed for a piece, however it is
given. -/
def Named.Presents (seed : Value) (entry : Slot Named) (arm : String × Arm) : Prop :=
  ∃ c p, Named.coerce entry = .ok ⟨.str arm.1, c⟩ ∧ c.toNode.variant = .percent (.filled p) ∧
    p.seed = seed ∧ p.AsksFor arm.2

/-! ### Batches of tests -/

namespace Evaluator

variable {E : Evaluator} {context : Slot Context} {c : Context} {seed : Value} {b : Numeral}

theorem answer_of_presents (hE : (Number.ofInt 1).le E.maxDepth.toNumber = true)
    (hc : Context.coerce context = .ok c) (hi : c.id.truthy = true)
    (hb : E.buckets.remainder? (E.fingerprinter.hash (saltedId seed c.id)) = some b)
    {entry : Slot Named} {arm : String × Arm} (h : Named.Presents seed entry arm) :
    (E.answer context entry).outcome = .ok (.str arm.1, arm.2.contains b.toNumber) := by
  obtain ⟨condition, p, hentry, hv, rfl, hp⟩ := h
  have hdepth : E.maxDepth.toNumber.le (.ofInt 0) = false := by
    cases hle : E.maxDepth.toNumber.le (.ofInt 0) with
    | false => rfl
    | true => exact absurd (Number.le_trans hE hle) (by decide)
  have hrun : (E.evaluate condition context (.int 0)).outcome =
      .ok (arm.2.contains b.toNumber) := by
    rw [evaluate_step, Numeral.toNumber, hdepth, if_neg Bool.false_ne_true, Node.dispatch, hv]
    exact evaluatePercent_of_asksFor hp hc hi hb
  rw [answer_eq, hentry, Run.ofExcept_ok_bind, answerNamed, hrun]
  rfl

/-- A batch of tests with one seed, one for each piece into which thresholds in order cut the line,
has a result under each name, and exactly one of them is true. -/
theorem evaluateAll_split (hE : (Number.ofInt 1).le E.maxDepth.toNumber = true)
    (hpos : (Number.ofInt 0).lt E.buckets.toNumber = true)
    (hc : Context.coerce context = .ok c) (hi : c.id.truthy = true)
    {a : Number} {rest : List Number} (hn : ∀ m ∈ a :: rest, m ≠ .nan)
    (hm : (a :: rest).IsChain fun a b => a.le b = true)
    {arms : List (String × Arm)} (hperm : (arms.map (·.2)).Perm (Arm.split a rest))
    (hnames : (arms.map (·.1)).Nodup)
    {batch : Slot (List (Slot Named))} {listed : List (Slot Named)}
    (hbatch : entries batch = .ok listed)
    (hall : List.Forall₂ (Named.Presents seed) listed arms) :
    ∃ results, (E.evaluateAll batch context).outcome = .ok results ∧
      results.map (·.1) = arms.map (fun arm => Key.str arm.1) ∧ results.countP (·.2) = 1 := by
  obtain ⟨b, hb, hx⟩ :=
    Numeral.remainder?_of_pos hpos (E.fingerprinter.hash (saltedId seed c.id))
  refine ⟨arms.map fun arm => (.str arm.1, arm.2.contains b.toNumber),
    evaluateAll_of_answers hbatch hc ?_ ?_, ?_, ?_⟩
  · clear hperm hnames hbatch
    induction hall with
    | nil => rfl
    | cons h _ ih => rw [List.map_cons, answer_of_presents hE hc hi hb h, ih]; rfl
  · rw [List.pairwise_map]
    refine (List.pairwise_map.mp hnames).imp fun hne => ?_
    simpa using hne
  · rw [List.map_map]
    rfl
  · rw [List.countP_map, ← Arm.countP_split hx hn hm, ← hperm.countP_eq, List.countP_map]
    rfl

/-- Five tests out of order, cut at an infinity and at a number that is given twice, once for an
integer and once for a binary64 number. One of them is plain. -/
theorem evaluateAll_split_shuffled :
    let three : Binary64 := .ofDecimal false 3 0
    let test (p : Percent) : Condition := .node (.ofTest p)
    let upTo : Percent := .make (.str "s") (.known .lessOrEqual) (.float (.infinity true)) .unset
    let twice : Percent :=
      .make (.str "s") (.known .between) .null (.filled ⟨.int 3, .float three⟩)
    let middle : Percent :=
      .make (.str "s") (.plain (.str "BETWEEN")) .null (.filled ⟨.float three, .int 1000000000000⟩)
    let above : Percent := .make (.str "s") (.known .greaterThan) (.int 1000000000000) .unset
    let low : Value := .object [("name", .str "low"), ("condition", .object [("percent", .object
      [("seed", .str "s"), ("operator", .str "BETWEEN"), ("microPercentRange", .object
        [("microPercentUpperBound", .int 3),
          ("microPercentLowerBound", .float (.infinity true))])])])]
    let listed : List (Slot Named) := [.filled ⟨.str "above", test above⟩, .plain low,
      .filled ⟨.str "none", test upTo⟩, .filled ⟨.str "middle", test middle⟩,
      .filled ⟨.str "twice", test twice⟩]
    let context : Slot Context := .plain (.object [("id", .str "u")])
    ∃ results, (Evaluator.evaluateAll {} (.filled listed) context).outcome = .ok results ∧
      results.map (·.1) = [.str "above", .str "low", .str "none", .str "middle", .str "twice"] ∧
      results.countP (·.2) = 1 := by
  intro three test upTo twice middle above low listed context
  have hc : Context.coerce context = .ok ⟨.str "u", .object []⟩ := rfl
  let bottom : Number := (Binary64.infinity true).toNumber
  let arms : List (String × Arm) := [("above", .above (.ofInt 1000000000000)),
    ("low", .between bottom (.ofInt 3)), ("none", .upTo bottom),
    ("middle", .between three.toNumber (.ofInt 1000000000000)),
    ("twice", .between (.ofInt 3) three.toNumber)]
  let later : List Number := [.ofInt 3, three.toNumber, .ofInt 1000000000000]
  have hdepth : (Number.ofInt 1).le ({} : Evaluator).maxDepth.toNumber = true := by decide
  have hpos : (Number.ofInt 0).lt ({} : Evaluator).buckets.toNumber = true := by decide
  have hn : ∀ m ∈ bottom :: later, m ≠ .nan := by decide +kernel
  have hm : (bottom :: later).IsChain fun a b => a.le b = true := by decide +kernel
  have hperm : (arms.map (·.2)).Perm (Arm.split bottom later) := by decide +kernel
  have hnames : (arms.map (·.1)).Nodup := by decide
  have hall : List.Forall₂ (Named.Presents (.str "s")) listed arms := by
    refine .cons ?_ (.cons ?_ (.cons ?_ (.cons ?_ (.cons ?_ .nil))))
    · exact ⟨_, above, rfl, rfl, rfl, rfl, rfl⟩
    · exact ⟨_, _, rfl, rfl, rfl, rfl, _, rfl, rfl, rfl⟩
    · exact ⟨_, upTo, rfl, rfl, rfl, rfl, rfl⟩
    · exact ⟨_, middle, rfl, rfl, rfl, rfl, _, rfl, rfl, rfl⟩
    · exact ⟨_, twice, rfl, rfl, rfl, rfl, _, rfl, rfl, rfl⟩
  exact evaluateAll_split hdepth hpos hc rfl hn hm hperm hnames rfl hall

end Evaluator

end Targeting
