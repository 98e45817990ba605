import Targeting.Proofs.Leaves

/-!
Which seeds and ids are hashed as one text. A seed stands before the id with a point between them,
and points inside of either look like that one. So two pairs have one text just where a part that
ends in a point can be moved from the seed of one to the id of the other. Seeds without points never
meet, whatever the ids.
-/

namespace Targeting

/-! ### Texts with a point -/

/-- Lists with a mark in them are equal if they are cut at the same mark, or if what lies between
the two marks belongs to the front of one and to the back of the other. -/
theorem append_cons_eq_append_cons_iff {α : Type} {mark : α} {s r i j : List α} :
    s ++ mark :: i = r ++ mark :: j ↔
      (s = r ∧ i = j) ∨ (∃ w, r = s ++ mark :: w ∧ i = w ++ mark :: j) ∨
        ∃ w, s = r ++ mark :: w ∧ j = w ++ mark :: i := by
  rw [List.append_eq_append_iff]
  constructor
  · rintro (⟨between, rfl, h⟩ | ⟨between, rfl, h⟩)
    · cases between with
      | nil =>
        left
        simpa using h
      | cons c w =>
        right; left
        obtain ⟨rfl, rfl⟩ := List.cons.inj h
        exact ⟨w, rfl, rfl⟩
    · cases between with
      | nil =>
        left
        simpa [eq_comm] using h
      | cons c w =>
        right; right
        obtain ⟨rfl, rfl⟩ := List.cons.inj h
        exact ⟨w, rfl, rfl⟩
  · rintro (⟨rfl, rfl⟩ | ⟨w, rfl, rfl⟩ | ⟨w, rfl, rfl⟩)
    · left
      exact ⟨[], by simp, rfl⟩
    · left
      exact ⟨mark :: w, rfl, rfl⟩
    · right
      exact ⟨mark :: w, rfl, rfl⟩

theorem toList_append_point (s i : String) :
    (s ++ "." ++ i).toList = s.toList ++ '.' :: i.toList := by
  simp

theorem append_point_eq_append_point_iff {s r i j : String} :
    s ++ "." ++ i = r ++ "." ++ j ↔
      (s = r ∧ i = j) ∨ (∃ w, r = s ++ "." ++ w ∧ i = w ++ "." ++ j) ∨
        ∃ w, s = r ++ "." ++ w ∧ j = w ++ "." ++ i := by
  have hsurjective : Function.Surjective String.toList :=
    fun cs => ⟨String.ofList cs, String.toList_ofList⟩
  simp only [← String.toList_inj, toList_append_point]
  rw [append_cons_eq_append_cons_iff, hsurjective.exists, hsurjective.exists]

/-- No seed without a point is the front of one before a point. -/
theorem ne_append_point {s r w : String} (h : '.' ∉ r.toList) : r ≠ s ++ "." ++ w := by
  rintro rfl
  rw [toList_append_point] at h
  exact h (List.mem_append_right _ List.mem_cons_self)

/-! ### Seeds and ids -/

namespace Evaluator

/-- An instance under one seed and an instance under another one are placed by the same text, which
is all that is hashed for either. -/
def SharesText (E : Evaluator) (seed id seed' id' : Value) : Prop :=
  ∃ text, (E.bucket seed id).hashed = [text] ∧ (E.bucket seed' id').hashed = [text]

variable {E : Evaluator} {seed id seed' id' : Value}

theorem sharesText_iff :
    E.SharesText seed id seed' id' ↔ saltedId seed id = saltedId seed' id' := by
  unfold SharesText
  rw [bucket_hashed, bucket_hashed]
  constructor
  · rintro ⟨text, h, h'⟩
    rw [List.singleton_inj.mp h, List.singleton_inj.mp h']
  · intro h
    exact ⟨saltedId seed id, rfl, by rw [h]⟩

theorem saltedId_of_seed {s : String} (h : s ≠ "") (id : Value) :
    saltedId (.str s) id = s ++ "." ++ id.text := by
  simp [saltedId, Value.truthy, h]

theorem saltedId_of_no_seed (h : seed.truthy = false) (id : Value) :
    saltedId seed id = id.text := by
  simp [saltedId, h]

/-- Which pairs of a seed and an id share a text. The point between them is not told from points
inside, so with two seeds a part may stand at the end of one seed or at the beginning of the other
id; with one seed the other id spells both; and without seeds the ids are the same. Different seeds
without points share none, whatever the ids are. -/
theorem sharesText_law (E : Evaluator) :
    (∀ s r i j : String, s ≠ "" → r ≠ "" →
      (E.SharesText (.str s) (.str i) (.str r) (.str j) ↔
        (s = r ∧ i = j) ∨ (∃ w, r = s ++ "." ++ w ∧ i = w ++ "." ++ j) ∨
          ∃ w, s = r ++ "." ++ w ∧ j = w ++ "." ++ i)) ∧
    (∀ (s i j : String) (blank : Value), s ≠ "" → blank.truthy = false →
      (E.SharesText (.str s) (.str i) blank (.str j) ↔ j = s ++ "." ++ i)) ∧
    (∀ (i j : String) (blank blank' : Value), blank.truthy = false → blank'.truthy = false →
      (E.SharesText blank (.str i) blank' (.str j) ↔ i = j)) ∧
    ∀ (s r : String) (i j : Value), s ≠ "" → r ≠ "" → s ≠ r → '.' ∉ s.toList → '.' ∉ r.toList →
      ¬E.SharesText (.str s) i (.str r) j := by
  refine ⟨?_, ?_, ?_, ?_⟩
  · intro s r i j hs hr
    rw [sharesText_iff, saltedId_of_seed hs, saltedId_of_seed hr]
    exact append_point_eq_append_point_iff
  · intro s i j blank hs hblank
    rw [sharesText_iff, saltedId_of_seed hs, saltedId_of_no_seed hblank]
    exact eq_comm
  · intro i j blank blank' hblank hblank'
    rw [sharesText_iff, saltedId_of_no_seed hblank, saltedId_of_no_seed hblank']
    exact Iff.rfl
  · intro s r i j hs hr hne hpoint hpoint'
    rw [sharesText_iff, saltedId_of_seed hs, saltedId_of_seed hr, append_point_eq_append_point_iff]
    rintro (⟨rfl, -⟩ | ⟨w, rfl, -⟩ | ⟨w, rfl, -⟩)
    · exact hne rfl
    · exact ne_append_point hpoint' rfl
    · exact ne_append_point hpoint rfl

/-- The part that is moved may be empty: an id that begins with a point stands under one seed as the
rest of it stands under the seed with that point. -/
theorem sharesText_law_empty_part :
    let E : Evaluator := {}
    E.SharesText (.str "a") (.str ".u") (.str "a.") (.str "u") ∧
      E.SharesText (.str "a.b") (.str "u") .null (.str "a.b.u") ∧
      ¬E.SharesText (.str "") (.str "u") .null (.str ".u") ∧
      ¬E.SharesText (.str "a") (.str "b.u") (.str "b") (.int 7) := by
  intro E
  obtain ⟨htwo, hone, hnone, hplain⟩ := sharesText_law E
  refine ⟨?_, ?_, ?_, ?_⟩
  · refine (htwo "a" "a." ".u" "u" (by decide) (by decide)).mpr ?_
    right; left
    exact ⟨"", by decide, by decide⟩
  · exact (hone "a.b" "u" "a.b.u" .null (by decide) rfl).mpr (by decide)
  · rw [hnone "u" ".u" (.str "") .null rfl rfl]
    decide
  · exact hplain "a" "b" (.str "b.u") (.int 7) (by decide) (by decide) (by decide) (by decide)
      (by decide)

end Evaluator

end Targeting
