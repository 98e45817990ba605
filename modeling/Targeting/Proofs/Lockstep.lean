import Mathlib.Data.Int.ModEq
import Targeting.Proofs.Batches

/-!
What an evaluation learns of its fingerprinter. A fingerprint enters a run only where a text is
hashed, and only by the bucket that it leads to. Another fingerprinter that leads to the same buckets
for the texts of a run therefore goes through the same run, although nothing is known of it
elsewhere: as long as the two have kept step, the next text is the same for both.
-/

namespace Targeting

/-- Numbers that a modulus does not tell apart: congruent ones where it is whole, and for a binary64
modulus, which rounds, those that leave one remainder. -/
def Numeral.Congruent : Numeral → Nat → Nat → Prop
  | .bool b, m, n => (m : Int) ≡ n [ZMOD b.toInt]
  | .int k, m, n => (m : Int) ≡ n [ZMOD k]
  | .float x, m, n => remainder? m (.float x) = remainder? n (.float x)

instance (k : Numeral) (m n : Nat) : Decidable (k.Congruent m n) :=
  match k with
  | .bool b => inferInstanceAs (Decidable ((m : Int) ≡ n [ZMOD b.toInt]))
  | .int k => inferInstanceAs (Decidable ((m : Int) ≡ n [ZMOD k]))
  | .float x => inferInstanceAs (Decidable (Numeral.remainder? m (.float x) = _))

/-- A text that another fingerprinter does not move to another bucket. -/
def Evaluator.CongruentAt (E : Evaluator) (g : Fingerprinter) (text : String) : Prop :=
  E.buckets.Congruent (E.fingerprinter.hash text) (g.hash text)

/-- One run is another, provided that all texts that this other one hashes have a property. -/
def Run.Follows {α : Type} (p : String → Prop) (r s : Run α) : Prop :=
  (∀ text ∈ r.hashed, p text) → s = r

/-! ### Runs -/

namespace Run.Follows

variable {α β : Type} {p : String → Prop}

theorem refl (r : Run α) : r.Follows p r := fun _ => rfl

/-- Runs that are one so far go on from the same answer. -/
theorem bind {r s : Run α} {f g : α → Run β} (h : r.Follows p s)
    (hf : ∀ a, (f a).Follows p (g a)) : (r >>= f).Follows p (s >>= g) := by
  intro hp
  rcases r with ⟨e | a, hashed, log⟩
  · have hs : s = ⟨.error e, hashed, log⟩ := h hp
    rw [hs]
    rfl
  · have hs : s = ⟨.ok a, hashed, log⟩ := h fun text ht => hp text (List.mem_append_left _ ht)
    have hg : g a = f a := hf a fun text ht => hp text (List.mem_append_right _ ht)
    rw [hs, mk_ok_bind, mk_ok_bind, hg]

end Run.Follows

section Follows

variable {p : String → Prop}

theorem sweep_follows {α : Type} {stop : Bool} {f g : α → Run Bool}
    (h : ∀ a, (f a).Follows p (g a)) (as : List α) :
    (sweep stop f as).Follows p (sweep stop g as) := by
  induction as with
  | nil => exact .refl _
  | cons a rest ih =>
    rw [sweep_cons, sweep_cons]
    apply (h a).bind
    intro b
    split
    · exact .refl _
    · exact ih

/-- One level: a node keeps step if its test and its members do. -/
theorem Node.dispatch_follows {s t : Test → Run Bool} {f g : Condition → Run Bool}
    (ht : ∀ a, (s a).Follows p (t a)) (hm : ∀ c, (f c).Follows p (g c)) (n : Node Condition) :
    (n.dispatch s f).Follows p (n.dispatch t g) := by
  unfold dispatch
  cases n.variant with
  | anyOf G => exact (Run.Follows.refl _).bind fun cs => sweep_follows hm cs
  | allOf G => exact (Run.Follows.refl _).bind fun cs => sweep_follows hm cs
  | always => exact .refl _
  | never => exact .refl _
  | percent a => exact ht a
  | unknown => exact .refl _

end Follows

/-! ### Buckets -/

namespace Numeral

theorem fmod_eq_of_modEq {a b k : Int} (h : a ≡ b [ZMOD k]) : a.fmod k = b.fmod k := by
  have hdvd : k ∣ a ↔ k ∣ b := h.dvd_iff
  have hmod : a % k = b % k := h
  rw [Int.fmod_eq_emod, Int.fmod_eq_emod, hmod]
  simp only [hdvd]

theorem remainder?_eq_of_congruent {k : Numeral} {m n : Nat} (h : k.Congruent m n) :
    remainder? m k = remainder? n k := by
  cases k with
  | bool b => rfl
  | int k => rw [remainder?, remainder?, fmod_eq_of_modEq h]
  | float x => exact h

end Numeral

namespace Evaluator

variable {E : Evaluator} {g : Fingerprinter} {context : Slot Context}

/-- The only step at which a fingerprint is taken. -/
theorem bucket_follows (seed id : Value) :
    (E.bucket seed id).Follows (E.CongruentAt g) ({ E with fingerprinter := g }.bucket seed id) := by
  intro h
  have hmem : saltedId seed id ∈ (E.bucket seed id).hashed := by
    rw [bucket, Run.hash_bind]
    exact List.mem_cons_self
  have hcongruent : E.buckets.Congruent _ _ := h _ hmem
  simp only [bucket, Numeral.remainder?_eq_of_congruent hcongruent]

theorem evaluatePercent_follows (t : Test) :
    (E.evaluatePercent context t).Follows (E.CongruentAt g)
      ({ E with fingerprinter := g }.evaluatePercent context t) := by
  unfold evaluatePercent
  apply (Run.Follows.refl _).bind
  intro operator
  split
  · exact .refl _
  apply (Run.Follows.refl _).bind
  intro c
  split
  · exact .refl _
  apply (Run.Follows.refl _).bind
  intro seed
  apply (bucket_follows seed c.id).bind
  intro b
  exact .refl _

/-- However many levels are left, the two decisions visit the same nodes. -/
theorem judge_follows (levels : Nat) (c : Condition) :
    (E.judge context levels c).Follows (E.CongruentAt g)
      ({ E with fingerprinter := g }.judge context levels c) := by
  induction levels generalizing c with
  | zero => exact .refl _
  | succ levels ih =>
    rw [judge_succ, judge_succ]
    exact Node.dispatch_follows evaluatePercent_follows ih c.toNode

theorem evaluate_follows (c : Condition) (level : Numeral) :
    (E.evaluate c context level).Follows (E.CongruentAt g)
      ({ E with fingerprinter := g }.evaluate c context level) :=
  judge_follows _ c

theorem collect_follows (results : Results) (entries : List (Slot Named)) :
    (E.collect context results entries).Follows (E.CongruentAt g)
      ({ E with fingerprinter := g }.collect context results entries) := by
  induction entries generalizing results with
  | nil => exact .refl _
  | cons entry rest ih =>
    rw [collect, collect]
    apply (Run.Follows.refl _).bind
    intro n
    apply (evaluate_follows n.condition (.int 0)).bind
    intro answer
    apply (Run.Follows.refl _).bind
    intro name
    exact ih _

theorem evaluateAll_follows (batch : Slot (List (Slot Named))) :
    (E.evaluateAll batch context).Follows (E.CongruentAt g)
      ({ E with fingerprinter := g }.evaluateAll batch context) := by
  unfold evaluateAll
  apply (Run.Follows.refl _).bind
  intro c
  apply (Run.Follows.refl _).bind
  intro listed
  apply (collect_follows [] listed).bind
  intro results
  exact .refl _

/-- A fingerprinter matters to an evaluation only by the buckets of the texts that are hashed in it.
Another one with congruent fingerprints for these leads to the same run in every part, for
conditions at every level and for batches. -/
theorem evaluate_congruent (E : Evaluator) (g : Fingerprinter) (context : Slot Context) :
    (∀ c level,
      (∀ text ∈ (E.evaluate c context level).hashed,
        E.buckets.Congruent (E.fingerprinter.hash text) (g.hash text)) →
      { E with fingerprinter := g }.evaluate c context level = E.evaluate c context level) ∧
    ∀ batch,
      (∀ text ∈ (E.evaluateAll batch context).hashed,
        E.buckets.Congruent (E.fingerprinter.hash text) (g.hash text)) →
      { E with fingerprinter := g }.evaluateAll batch context = E.evaluateAll batch context :=
  ⟨fun c level => evaluate_follows c level, fun batch => evaluateAll_follows batch⟩

/-- Fingerprints that differ everywhere, and by a multiple of the buckets where a text is hashed. In
both conditions a member that would tell them apart stands behind one that decides. -/
theorem evaluate_congruent_unread :
    let test (seed : String) (c : Comparison) (threshold : Int) : Condition :=
      .node (.ofTest (.make (.str seed) (.known c) (.int threshold) .unset))
    let c : Condition := .node (.ofAny
      [test "s" .lessOrEqual 6, test "s" .greaterThan 6, test "t" .lessOrEqual 42])
    let wire : Slot Named := .plain (.object [("name", .str "b"), ("condition", .object
      [("and", .object [("conditions", .array [.object [("percent", .object
        [("operator", .str "LESS_OR_EQUAL"), ("microPercent", .int 4)])], .object [("percent",
          .object [("seed", .str "t"), ("operator", .str "UNKNOWN")])]])])])])
    let E : Evaluator := { buckets := .int 100, fingerprinter :=
      ⟨"f", fun s => if s = "s.u" then 107 else if s = "u" then 5 else 42⟩ }
    let g : Fingerprinter :=
      ⟨"g", fun s => if s = "s.u" then 7 else if s = "u" then 1005 else 43⟩
    let context : Slot Context := .plain (.object [("id", .str "u")])
    let batch : Slot (List (Slot Named)) := .filled [.filled ⟨.str "a", c⟩, wire]
    (∀ text ∈ (E.evaluateAll batch context).hashed,
      E.buckets.Congruent (E.fingerprinter.hash text) (g.hash text)) ∧
      ¬E.buckets.Congruent (E.fingerprinter.hash "t.u") (g.hash "t.u") ∧
      { E with fingerprinter := g }.evaluateAll batch context =
        ⟨.ok [("a", true), ("b", false)], ["s.u", "s.u", "u"], [.evaluated 2 (.str "u")]⟩ ∧
      (∀ text ∈ (E.evaluate c context (.int 8)).hashed,
        E.buckets.Congruent (E.fingerprinter.hash text) (g.hash text)) ∧
      { E with fingerprinter := g }.evaluate c context (.int 8) =
        ⟨.ok true, ["s.u", "s.u"], []⟩ := by
  intro test c wire E g context batch
  have hrun : E.evaluateAll batch context =
      ⟨.ok [("a", true), ("b", false)], ["s.u", "s.u", "u"], [.evaluated 2 (.str "u")]⟩ :=
    Run.ext (by decide +kernel) (by decide +kernel) (by decide +kernel)
  have hone : E.evaluate c context (.int 8) = ⟨.ok true, ["s.u", "s.u"], []⟩ :=
    Run.ext (by decide +kernel) (by decide +kernel) (by decide +kernel)
  have hbatchRead : ∀ text ∈ (E.evaluateAll batch context).hashed,
      E.buckets.Congruent (E.fingerprinter.hash text) (g.hash text) := by
    rw [hrun]
    decide
  have hread : ∀ text ∈ (E.evaluate c context (.int 8)).hashed,
      E.buckets.Congruent (E.fingerprinter.hash text) (g.hash text) := by
    rw [hone]
    decide
  obtain ⟨hcondition, hbatch⟩ := evaluate_congruent E g context
  exact ⟨hbatchRead, by decide, (hbatch batch hbatchRead).trans hrun, hread,
    (hcondition c (.int 8) hread).trans hone⟩

end Evaluator

end Targeting
