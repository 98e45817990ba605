import Targeting.Proofs.Writing
import Mathlib.Data.List.Forall2

/-!
Which wire documents are written back as they were read. They are told by a grammar that looks at
one level at a time: whatever is malformed in a way that decoding notices is kept word for word, and
whatever is well shaped must have nothing that its typed form has no place for.
-/

namespace Targeting

/-- Identical values, but for the order of fields at any depth. -/
inductive Value.Alike : Value → Value → Prop where
  | same (v : Value) : Alike v v
  | array {vs ws : List Value} (h : List.Forall₂ Alike vs ws) : Alike (.array vs) (.array ws)
  | object {fs gs : Fields}
    (h : ∀ key, Option.Rel Alike (Fields.find? key fs) (Fields.find? key gs)) :
    Alike (.object fs) (.object gs)

/-- Fields under no other names than these, and none that is null. -/
def Fields.Only (names : List String) (fs : Fields) : Prop :=
  ∀ key v, find? key fs = some v → key ∈ names.map Key.str ∧ v ≠ .null

namespace Wire

/-- What may stand in the field of a group: what is no object, an object whose members are no list
and yet given, or a group with nothing but canonical members. -/
inductive CanonicalGroup (C : Value → Prop) : Value → Prop where
  | other {v : Value} (h : v.isObject = false) : CanonicalGroup C v
  | misshapen {fs : Fields} {v : Value} (h : Fields.find? "conditions" fs = some v)
    (given : v ≠ .null) (list : ∀ vs, v ≠ .array vs) : CanonicalGroup C (.object fs)
  | unlisted : CanonicalGroup C (.object [])
  | listed {fs : Fields} {vs : List Value} (h : Fields.find? "conditions" fs = some (.array vs))
    (only : ∀ key, key ≠ .str "conditions" → Fields.find? key fs = none) (members : ∀ v ∈ vs, C v) :
    CanonicalGroup C (.object fs)

/-- What may stand in the field of a literal. -/
inductive CanonicalLiteral : Value → Prop where
  | empty : CanonicalLiteral (.object [])
  | other {v : Value} (h : v.isObject = false) (falsy : v.truthy = false) : CanonicalLiteral v

/-- What may stand in the field of a percent test. -/
inductive CanonicalTest : Value → Prop where
  | other {v : Value} (h : v.isObject = false) : CanonicalTest v
  | test {fs : Fields}
    (only : Fields.Only ["seed", "operator", "microPercent", "microPercentRange"] fs)
    (operator : ∀ v, Fields.find? "operator" fs = some v →
      v.truthy = false ∨ ∃ c : Comparison, v = .str c.word)
    (range : ∀ v, Fields.find? "microPercentRange" fs = some v →
      ∃ gs, v = .object gs ∧
        Fields.Only ["microPercentLowerBound", "microPercentUpperBound"] gs) :
    CanonicalTest (.object fs)

inductive Canonical : Value → Prop where
  | object {fs : Fields} (given : ∀ key ∈ Node.variantKeys, Fields.find? key fs ≠ some .null)
    (anyOf : ∀ v, Fields.find? "or" fs = some v → CanonicalGroup Canonical v)
    (allOf : ∀ v, Fields.find? "and" fs = some v → CanonicalGroup Canonical v)
    (always : ∀ v, Fields.find? "true" fs = some v → CanonicalLiteral v)
    (never : ∀ v, Fields.find? "false" fs = some v → CanonicalLiteral v)
    (percent : ∀ v, Fields.find? "percent" fs = some v → CanonicalTest v) : Canonical (.object fs)

end Wire

/-! ### Alike values -/

namespace Value.Alike

variable {v w : Value} {vs ws : List Value} {fs gs : Fields}

theorem rel_refl (x : Option Value) : Option.Rel Alike x x := by
  cases x with
  | none => exact .none
  | some v => exact .some (.same v)

theorem rel_none {x : Option Value} : Option.Rel Alike none x ↔ x = none := by
  constructor
  · intro h
    cases h
    rfl
  · rintro rfl
    exact .none

theorem rel_some {x : Option Value} :
    Option.Rel Alike x (some v) ↔ ∃ w, x = some w ∧ w.Alike v := by
  constructor
  · intro h
    cases h with
    | some h => exact ⟨_, rfl, h⟩
  · rintro ⟨w, rfl, h⟩
    exact .some h

theorem object_iff : (Value.object fs).Alike (.object gs) ↔
    ∀ key, Option.Rel Alike (Fields.find? key fs) (Fields.find? key gs) := by
  constructor
  · intro h
    cases h with
    | same => exact fun _ => rel_refl _
    | object h => exact h
  · exact .object

theorem array_iff : (Value.array vs).Alike (.array ws) ↔ List.Forall₂ Alike vs ws := by
  constructor
  · intro h
    cases h with
    | same => exact List.forall₂_same.mpr fun v _ => .same v
    | array h => exact h
  · exact .array

theorem empty_iff : (Value.object []).Alike (.object gs) ↔ gs = [] := by
  rw [object_iff, ← Fields.find?_eq_none_iff]
  refine forall_congr' fun key => ?_
  cases Fields.find? key gs with
  | none => exact iff_of_true .none rfl
  | some v => exact iff_of_false nofun nofun

theorem single_iff {name : String} (h : Fields.find? name fs = some w) :
    (Value.object [(.str name, v)]).Alike (.object fs) ↔
      (∀ key, key ≠ .str name → Fields.find? key fs = none) ∧ v.Alike w := by
  have hone (key : Key) : Fields.find? key [(.str name, v)] =
      if key = .str name then some v else none := by
    simp [Fields.find?]
  rw [object_iff]
  constructor
  · intro hrel
    refine ⟨fun key hk => ?_, ?_⟩
    · have hkey := hrel key
      rw [hone, if_neg hk] at hkey
      exact rel_none.mp hkey
    · have hkey := hrel (.str name)
      rw [hone, if_pos rfl, h] at hkey
      cases hkey with
      | some hvw => exact hvw
  · rintro ⟨only, hvw⟩ key
    rw [hone]
    split
    · rename_i hk
      rw [hk, h]
      exact .some hvw
    · rename_i hk
      rw [only key hk]
      exact .none

theorem ne_null_iff (h : v.Alike w) : v ≠ .null ↔ w ≠ .null := by
  cases h with
  | same => rfl
  | array h => exact iff_of_true nofun nofun
  | object h => exact iff_of_true nofun nofun

end Value.Alike

/-! ### Fields made anew -/

/-- Fields made anew under some names are alike if nothing is lost and each is alike. -/
theorem Fields.alike_pick {names : List String} {f : Key → Value → Value} {fs : Fields}
    (hf : ∀ key, f key .null = .null) :
    (Value.object (pick names f fs)).Alike (.object fs) ↔
      Fields.Only names fs ∧ ∀ key v, find? key fs = some v → (f key v).Alike v := by
  rw [Value.Alike.object_iff, Fields.Only, ← forall_and]
  refine forall_congr' fun key => ?_
  rw [find?_pick]
  cases hv : find? key fs with
  | none =>
    have hnull : fs.get key = .null := by rw [Fields.get, hv]; rfl
    rw [hnull, hf, Value.given?_null, ite_self]
    refine iff_of_true .none ⟨fun v hv => ?_, fun v hv => ?_⟩ <;> cases hv
  | some v =>
    rw [get_of_find? hv, Value.Alike.rel_some]
    constructor
    · rintro ⟨w, hw, hwv⟩
      split at hw
      · rename_i hk
        obtain ⟨rfl, hn⟩ := Value.given?_eq_some.mp hw
        refine ⟨fun u hu => ?_, fun u hu => ?_⟩ <;> cases hu
        · exact ⟨hk, hwv.ne_null_iff.mp hn⟩
        · exact hwv
      · cases hw
    · rintro ⟨honly, halike⟩
      obtain ⟨hk, hn⟩ := honly v rfl
      have hfv := halike v rfl
      refine ⟨f key v, ?_, hfv⟩
      rw [if_pos hk, Value.given?_eq_some]
      exact ⟨rfl, hfv.ne_null_iff.mpr hn⟩

namespace Wire

/-! ### Percent tests -/

theorem alike_operator (v : Value) :
    (operator v).Alike v ↔ v.truthy = false ∨ ∃ c : Comparison, v = .str c.word := by
  unfold operator
  split
  · rename_i h
    refine iff_of_true (.same v) ?_
    rcases h with h | h | h | h
    · exact Or.inl (by simpa using h)
    · exact Or.inr ⟨.lessOrEqual, h⟩
    · exact Or.inr ⟨.greaterThan, h⟩
    · exact Or.inr ⟨.between, h⟩
  · rename_i h
    constructor
    · intro ha
      cases ha
      exact Or.inr ⟨.unknown, rfl⟩
    · rintro (ht | ⟨c, rfl⟩)
      · exact absurd (Or.inl (by simpa using ht)) h
      · cases c with
        | unknown => exact .same _
        | _ => simp [Comparison.word] at h

theorem alike_range (v : Value) : (range v).Alike v ↔ v = .null ∨
    ∃ gs, v = .object gs ∧ Fields.Only ["microPercentLowerBound", "microPercentUpperBound"] gs := by
  cases v with
  | null => exact iff_of_true (.same _) (Or.inl rfl)
  | object gs =>
    have hpick : range (.object gs) = .object
        (Fields.pick ["microPercentLowerBound", "microPercentUpperBound"] (fun _ v => v) gs) := by
      simp [range, Fields.pick]
    rw [hpick, Fields.alike_pick fun _ => rfl]
    constructor
    · rintro ⟨honly, -⟩
      exact Or.inr ⟨gs, rfl, honly⟩
    · rintro (h | ⟨_, h, honly⟩) <;> cases h
      exact ⟨honly, fun _ v _ => .same v⟩
  | _ =>
    refine iff_of_false nofun ?_
    rintro (h | ⟨_, h, -⟩) <;> cases h

def testField (key : Key) (v : Value) : Value :=
  if key = .str "operator" then operator v
  else if key = .str "microPercentRange" then range v
  else v

theorem alike_test (fs : Fields) : (test fs).Alike (.object fs) ↔ CanonicalTest (.object fs) := by
  have hpick : test fs = .object
      (Fields.pick ["seed", "operator", "microPercent", "microPercentRange"] testField fs) := by
    simp [test, Fields.pick, testField]
  have hnull (key : Key) : testField key .null = .null := by
    unfold testField
    split
    · rfl
    · split <;> rfl
  rw [hpick, Fields.alike_pick hnull]
  constructor
  · rintro ⟨honly, halike⟩
    refine .test honly (fun v hv => (alike_operator v).mp (halike _ v hv)) fun v hv => ?_
    rcases (alike_range v).mp (halike _ v hv) with hn | hr
    · exact absurd hn (honly _ v hv).2
    · exact hr
  · intro h
    cases h with
    | other h => cases h
    | test honly hop hrange =>
      refine ⟨honly, fun key v hv => ?_⟩
      unfold testField
      split
      · rename_i hk
        exact (alike_operator v).mpr (hop v (hk ▸ hv))
      split
      · rename_i hk
        exact (alike_range v).mpr (Or.inr (hrange v (hk ▸ hv)))
      · exact .same v

/-! ### Groups -/

/-- What is written of a value that was decoded is alike to it exactly if it is canonical. -/
def Faithful (v : Value) : Prop :=
  ∃ w, (Condition.decode v).encode = .ok w ∧ (w.Alike v ↔ Canonical v)

theorem forall₂_alike_iff {vs ws : List Value}
    (h : List.Forall₂ (fun v w => w.Alike v ↔ Canonical v) vs ws) :
    List.Forall₂ Value.Alike ws vs ↔ ∀ v ∈ vs, Canonical v := by
  induction h with
  | nil => exact iff_of_true .nil nofun
  | cons h _ ih => rw [List.forall₂_cons, List.forall_mem_cons, h, ih]

section Group

variable {C : Value → Prop} {fs : Fields} {vs : List Value}

theorem canonicalGroup_iff_of_null (h : Fields.get "conditions" fs = .null) :
    CanonicalGroup C (.object fs) ↔ fs = [] := by
  constructor
  · intro hc
    cases hc with
    | other ho => cases ho
    | misshapen hv given list => exact absurd (Fields.get_of_find? hv ▸ h) given
    | unlisted => rfl
    | listed hv only members => rw [Fields.get_of_find? hv] at h; cases h
  · rintro rfl
    exact .unlisted

theorem canonicalGroup_iff_of_array (h : Fields.find? "conditions" fs = some (.array vs)) :
    CanonicalGroup C (.object fs) ↔
      (∀ key, key ≠ .str "conditions" → Fields.find? key fs = none) ∧ ∀ v ∈ vs, C v := by
  constructor
  · intro hc
    cases hc with
    | other ho => cases ho
    | misshapen hv given list =>
      rw [h] at hv
      cases hv
      exact absurd rfl (list vs)
    | unlisted => cases h
    | listed hv only members =>
      rw [h] at hv
      cases hv
      exact ⟨only, members⟩
  · rintro ⟨only, members⟩
    exact .listed h only members

end Group

theorem alike_group {v : Value} (hg : Node.isGroup v = true)
    (ih : ∀ w, w.height < v.height → Faithful w) :
    ∃ w, Group.encode (decodeGroup v) = .ok w ∧ (w.Alike v ↔ CanonicalGroup Canonical v) := by
  cases v with
  | object fs =>
    rw [Node.isGroup] at hg
    rw [decodeGroup_object]
    cases hc : Fields.get "conditions" fs with
    | null =>
      refine ⟨.object [], rfl, ?_⟩
      rw [Value.Alike.empty_iff, canonicalGroup_iff_of_null hc]
    | array vs =>
      have hvs (w : Value) (hw : w ∈ vs) : Faithful w := by
        have hlt := Value.height_get_lt "conditions" fs
        have hle := Value.height_le_heightAll hw
        rw [hc, Value.height] at hlt
        exact ih w (by omega)
      obtain ⟨ws, hws, hall⟩ := encodeAll_map Condition.decode hvs
      refine ⟨.object [("conditions", .array ws)], ?_, ?_⟩
      · rw [decodeMembers, decodeAll_eq_map, Group.of, Group.encode, Members.encode, hws]
        rfl
      · have hfind := Fields.find?_of_get hc (by intro hn; cases hn)
        rw [Value.Alike.single_iff hfind, canonicalGroup_iff_of_array hfind,
          Value.Alike.array_iff, forall₂_alike_iff hall]
    | _ => rw [hc] at hg; cases hg
  | _ => cases hg

/-! ### Nodes -/

/-- What may stand in the field of a variant. -/
def CanonicalField (key : Key) (v : Value) : Prop :=
  if key = .str "or" ∨ key = .str "and" then CanonicalGroup Canonical v
  else if key = .str "true" ∨ key = .str "false" then CanonicalLiteral v
  else CanonicalTest v

theorem canonical_object_iff {fs : Fields} : Canonical (.object fs) ↔
    ∀ key ∈ Node.variantKeys, ∀ v, Fields.find? key fs = some v →
      v ≠ .null ∧ CanonicalField key v := by
  constructor
  · intro h key hk v hv
    cases h with
    | object given anyOf allOf always never percent =>
      refine ⟨fun hn => given key hk (hn ▸ hv), ?_⟩
      rcases Node.mem_variantKeys.mp hk with rfl | rfl | rfl | rfl | rfl
      · exact anyOf v hv
      · exact allOf v hv
      · exact always v hv
      · exact never v hv
      · exact percent v hv
  · intro h
    exact .object (fun key hk hn => (h key hk _ hn).1 rfl) (fun v hv => (h "or" (by decide) v hv).2)
      (fun v hv => (h "and" (by decide) v hv).2) (fun v hv => (h "true" (by decide) v hv).2)
      (fun v hv => (h "false" (by decide) v hv).2) fun v hv => (h "percent" (by decide) v hv).2

theorem canonicalGroup_of_not_isGroup {v : Value} (h : Node.isGroup v = false) :
    CanonicalGroup Canonical v := by
  cases v with
  | object fs =>
    rw [Node.isGroup] at h
    unfold Fields.get at h
    cases hv : Fields.find? "conditions" fs with
    | none => rw [hv] at h; cases h
    | some v =>
      rw [hv] at h
      refine .misshapen hv ?_ ?_
      · rintro rfl
        cases h
      · rintro vs rfl
        cases h
  | _ => exact .other rfl

theorem canonicalField_of_not_fits {key : Key} {v : Value} (h : Node.fits key v = false) :
    CanonicalField key v := by
  unfold Node.fits at h
  unfold CanonicalField
  split at h
  · rename_i hk
    rw [if_pos hk]
    exact canonicalGroup_of_not_isGroup h
  rename_i hk
  rw [if_neg hk]
  split at h
  · rename_i hk
    rw [if_pos hk]
    rw [Node.isLiteral, Bool.or_eq_false_iff] at h
    exact .other h.1 h.2
  · rename_i hk
    rw [if_neg hk]
    exact .other h

theorem alike_literal {v : Value} (h : Node.isLiteral v = true) :
    (Value.object []).Alike v ↔ CanonicalLiteral v := by
  cases v with
  | object fs =>
    rw [Value.Alike.empty_iff]
    constructor
    · rintro rfl
      exact .empty
    · intro hc
      cases hc with
      | empty => rfl
      | other h => cases h
  | _ =>
    refine iff_of_false nofun fun hc => ?_
    cases hc with
    | other ho hf =>
      rw [Node.isLiteral, ho, hf] at h
      cases h

theorem alike_own {key : Key} (hk : key ∈ Node.variantKeys) {fs : Fields}
    (h : Node.fits key (Fields.get key fs) = true)
    (ih : ∀ w, w.height < (Value.object fs).height → Faithful w) :
    ∃ w, (Node.decode (.object fs)).own key = .ok w ∧
      (w.Alike (Fields.get key fs) ↔ CanonicalField key (Fields.get key fs)) := by
  rw [Node.decode_object]
  have hmember (w : Value) (hw : w.height < (Fields.get key fs).height) : Faithful w :=
    ih w (Nat.lt_trans hw (Value.height_get_lt key fs))
  rcases Node.mem_variantKeys.mp hk with rfl | rfl | rfl | rfl | rfl
  · exact alike_group h hmember
  · exact alike_group h hmember
  · exact ⟨.object [], rfl, alike_literal h⟩
  · exact ⟨.object [], rfl, alike_literal h⟩
  · cases hv : Fields.get "percent" fs with
    | object gs =>
      refine ⟨test gs, ?_, alike_test gs⟩
      change (Node.percentOf (Fields.get "percent" fs)).encode = .ok (test gs)
      rw [hv]
      exact Percent.encode_ofFields gs
    | _ => rw [hv] at h; cases h

theorem rel_field {fs out : Fields} (ih : ∀ w, w.height < (Value.object fs).height → Faithful w)
    (h : (Node.decode (.object fs)).Writes (Node.remaining fs) out) {key : Key}
    (hk : key ∈ Node.variantKeys) :
    Option.Rel Value.Alike (Fields.find? key out) (Fields.find? key fs) ↔
      ∀ v, Fields.find? key fs = some v → v ≠ .null ∧ CanonicalField key v := by
  have hread := Node.find?_remaining key fs
  rw [if_pos hk] at hread
  have hsets := Node.sets_decode fs hk
  cases hv : Fields.find? key fs with
  | none =>
    have hnull : Fields.get key fs = .null := by rw [Fields.get, hv]; rfl
    rw [hnull, Node.fits_null] at hsets hread
    rw [h.rest hsets, hread]
    refine iff_of_true .none fun v hv => ?_
    cases hv
  | some v =>
    rw [Fields.get_of_find? hv] at hsets hread
    cases hf : Node.fits key v with
    | true =>
      -- Well shaped, and so written anew.
      obtain ⟨w, hw, hiff⟩ := alike_own hk (Fields.get_of_find? hv ▸ hf) ih
      rw [Fields.get_of_find? hv] at hiff
      rw [h.own (hsets.trans hf) hw]
      constructor
      · intro hrel u hu
        cases hu
        cases hrel with
        | some hwv =>
        refine ⟨?_, hiff.mp hwv⟩
        rintro rfl
        rw [Node.fits_null] at hf
        cases hf
      · exact fun hall => .some (hiff.mpr (hall v rfl).2)
    | false =>
      -- Ill shaped, and so kept word for word, unless it is null.
      rw [hf, if_neg Bool.false_ne_true] at hread
      rw [h.rest (hsets.trans hf), hread]
      by_cases hn : v = .null
      · subst hn
        refine iff_of_false (fun hrel => ?_) fun hall => (hall _ rfl).1 rfl
        cases hrel
      · rw [Value.given?_eq_some.mpr ⟨rfl, hn⟩]
        refine iff_of_true (.some (.same v)) fun u hu => ?_
        cases hu
        exact ⟨hn, canonicalField_of_not_fits hf⟩

/-- A value is written back as it was read exactly if it is canonical. -/
theorem encode_decode_alike_iff (v : Value) :
    ∃ w, (Condition.decode v).encode = .ok w ∧ (w.Alike v ↔ Canonical v) := by
  induction v using Value.height_induction with
  | step v ih =>
    cases v with
    | null => exact ⟨.object [], rfl, iff_of_false nofun nofun⟩
    | object fs =>
      obtain ⟨out, hout, hwrites⟩ : ∃ out, (Node.decode (.object fs)).encode = .ok (.object out) ∧
          (Node.decode (.object fs)).Writes (Node.remaining fs) out := by
        refine Node.exists_writes ?_ fun key hs => ?_
        · rw [Node.decode_object]
          exact Node.leftoverOf_eq_heldOver fs
        · have hk := Node.mem_variantKeys_of_sets hs
          rw [Node.sets_decode fs hk] at hs
          exact (alike_own hk hs ih).imp fun _ => And.left
      refine ⟨.object out, hout, ?_⟩
      rw [Value.Alike.object_iff, canonical_object_iff]
      constructor
      · exact fun h key hk => (rel_field ih hwrites hk).mp (h key)
      · intro h key
        by_cases hk : key ∈ Node.variantKeys
        · exact (rel_field ih hwrites hk).mpr (h key hk)
        · rw [hwrites.of_not_mem hk, Node.find?_remaining, if_neg hk]
          exact Value.Alike.rel_refl _
    | _ => exact ⟨.object [("condition", _)], rfl, iff_of_false nofun nofun⟩

end Wire

end Targeting
