import Targeting.Proofs.Writing

/-!
Contexts written as objects and read again. The id is written over an attribute of its name, and
reading takes the id from there or from the alias and keeps neither as an attribute. So a context
comes back as it was just if no attribute bears one of the two names, and its id comes back just if
it was given or none of these attributes can be taken for it.
-/

namespace Targeting

/-! ### Fields without some -/

namespace Fields

variable {key : Key} {keys : List Key} {fs : Fields}

theorem find?_eq_none : find? key fs = none ↔ ∀ f ∈ fs, f.1.same key = false := by
  induction fs with
  | nil => simp [find?]
  | cons f rest ih =>
    obtain ⟨k, v⟩ := f
    by_cases h : k.same key = true
    · simp [find?, h]
    · simp [find?, h, ih]

/-- Nothing is taken away just where there is nothing to take. -/
theorem without_eq_self : fs.without keys = fs ↔ ∀ key ∈ keys, find? key fs = none := by
  simp only [without, List.filter_eq_self, Bool.not_eq_true', List.any_eq_false, find?_eq_none,
    Bool.not_eq_true]
  constructor
  · intro h key hk f hf
    exact h f hf key hk
  · intro h f hf key hk
    exact h key hk f hf

/-- A field that is taken away may as well be replaced before. -/
theorem without_put {name : String} (h : .str name ∈ keys) (v : Value) :
    (put name v fs).without keys = fs.without keys := by
  have hany : keys.any (Key.str name).same = true :=
    List.any_eq_true.mpr ⟨.str name, h, Key.same_self _⟩
  unfold without
  induction fs with
  | nil => simp [put, hany]
  | cons f rest ih =>
    obtain ⟨k, w⟩ := f
    by_cases hk : k = .str name
    · subst hk
      simp [put, hany]
    · have hne : k.same name = false := by simpa using hk
      rw [put, hne, if_neg Bool.false_ne_true, List.filter_cons, List.filter_cons, ih]

end Fields

/-! ### Contexts -/

/-- Only the text itself is the key that it is. -/
theorem Value.eq_str_of_key? {k : Value} {name : String} (h : k.key? = some (.str name)) :
    k = .str name := by
  unfold key? at h
  split at h <;> simp_all

namespace Context

variable {id : Value} {key : Key} {fs : Fields}

theorem mem_idKeys : key ∈ idKeys ↔ key = .str "id" ∨ key = .str "randomizationId" := by
  simp [idKeys]

theorem any_same_idKeys (key : Key) : idKeys.any key.same = decide (key ∈ idKeys) := by
  rw [Bool.eq_iff_iff]
  simp [idKeys]

theorem find?_without_idKeys (key : Key) (fs : Fields) :
    Fields.find? key (fs.without idKeys) =
      if key = .str "id" ∨ key = .str "randomizationId" then none else Fields.find? key fs := by
  rw [Fields.find?_without, any_same_idKeys]
  simp [mem_idKeys]

theorem ofFields_eq (fs : Fields) : ofFields fs =
    ⟨(fs.get "id").orElse (fs.get "randomizationId"), .object (fs.without idKeys)⟩ := by
  unfold ofFields make
  split
  · rfl
  · rename_i h
    have hempty : fs.without idKeys = [] := by simpa [Value.truthy] using h
    rw [hempty]

/-- The fields that are written of a context. -/
def written (id : Value) (fs : Fields) : Fields := if id.isNull then fs else fs.put "id" id

theorem encode_object (id : Value) (fs : Fields) :
    encode ⟨id, .object fs⟩ = .ok (.object (written id fs)) := rfl

/-- An id that is null comes to be what its attributes hold under either name. -/
theorem ofFields_written_of_null (fs : Fields) : ofFields (written .null fs) =
    ⟨(fs.get "id").orElse (fs.get "randomizationId"), .object (fs.without idKeys)⟩ :=
  ofFields_eq fs

/-- An id that is given hides the attributes of either name. -/
theorem ofFields_written (h : id ≠ .null) (fs : Fields) :
    ofFields (written id fs) = ⟨id, .object (fs.without idKeys)⟩ := by
  have hnull : id.isNull = false := by cases id <;> simp_all [Value.isNull]
  have hget : (Fields.put "id" id fs).get "id" = id :=
    Fields.get_of_find? (by simp [Fields.find?_put])
  rw [written, hnull, if_neg Bool.false_ne_true, ofFields_eq, hget,
    Fields.without_put (mem_idKeys.mpr (Or.inl rfl)), Value.orElse, hnull]
  rfl

theorem orElse_eq_null {v w : Value} : v.orElse w = .null ↔ v = .null ∧ w = .null := by
  cases v <;> simp [Value.orElse, Value.isNull]

theorem id_ofFields_written :
    (ofFields (written id fs)).id = id ↔
      id ≠ .null ∨ fs.get "id" = .null ∧ fs.get "randomizationId" = .null := by
  by_cases h : id = .null
  · subst h
    rw [ofFields_written_of_null]
    simpa using orElse_eq_null
  · rw [ofFields_written h]
    simp [h]

theorem attributes_ofFields_written :
    (ofFields (written id fs)).attributes = .object (fs.without idKeys) := by
  by_cases h : id = .null
  · subst h
    rw [ofFields_written_of_null]
  · rw [ofFields_written h]

theorem without_idKeys_eq_self : fs.without idKeys = fs ↔
    Fields.find? "id" fs = none ∧ Fields.find? "randomizationId" fs = none := by
  rw [Fields.without_eq_self]
  simp [idKeys]

/-- A context without such attributes comes back as it was. -/
theorem ofFields_written_of_none (hid : Fields.find? "id" fs = none)
    (halias : Fields.find? "randomizationId" fs = none) :
    ofFields (written id fs) = ⟨id, .object fs⟩ := by
  have hattributes : (ofFields (written id fs)).attributes = .object fs := by
    rw [attributes_ofFields_written, without_idKeys_eq_self.mpr ⟨hid, halias⟩]
  have hsame : (ofFields (written id fs)).id = id := by
    rw [id_ofFields_written]
    right
    simp [Fields.get, hid, halias]
  rw [← hattributes]
  exact congrArg (Context.mk · _) hsame

/-- Any other field of a context is looked up as in the object that it was made from. -/
theorem get_ofFields {k : Value} (hid : k ≠ .str "id") (halias : k ≠ .str "randomizationId")
    (default : Value) : (ofFields fs).get k default = (Value.object fs).look k default := by
  have hselect : (ofFields fs).get k default = (ofFields fs).attributes.look k default := by
    unfold get select
    split
    · exact absurd rfl hid
    · rfl
  rw [hselect, ofFields_eq]
  unfold Value.look Value.toKey
  cases hk : k.key? with
  | none => rfl
  | some key =>
    have hnot : ¬(key = .str "id" ∨ key = .str "randomizationId") := by
      rintro (rfl | rfl)
      · exact hid (Value.eq_str_of_key? hk)
      · exact halias (Value.eq_str_of_key? hk)
    have hfind : Fields.find? key (fs.without idKeys) = Fields.find? key fs := by
      rw [find?_without_idKeys, if_neg hnot]
    exact congrArg (fun v : Option Value => Except.ok (v.getD default)) hfind

/-- A context with any id and any fields for attributes is written and read again. It comes back as
it was if and only if no attribute has one of the two names for an id, and with the same id if and
only if it had one or none of these attributes holds another. What is left of its attributes is all
that stands under other keys. So a context that was read from an object comes back as it was, and
its fields are those of the object, but for the two. -/
theorem reload_law :
    (∀ (id : Value) (fs : Fields), ∃ w c, encode ⟨id, .object fs⟩ = .ok w ∧ ofValue w = .ok c ∧
      (c.id = id ∧ c.attributes = .object fs ↔
        Fields.find? "id" fs = none ∧ Fields.find? "randomizationId" fs = none) ∧
      (c.id = id ↔ id ≠ .null ∨ fs.get "id" = .null ∧ fs.get "randomizationId" = .null) ∧
      ∃ gs, c.attributes = .object gs ∧ ∀ key, Fields.find? key gs =
        if key = .str "id" ∨ key = .str "randomizationId" then none else Fields.find? key fs) ∧
    ∀ fs : Fields, ∃ c gs, ofValue (.object fs) = .ok c ∧ c.attributes = .object gs ∧
      Fields.find? "id" gs = none ∧ Fields.find? "randomizationId" gs = none ∧
      (∃ w, c.encode = .ok w ∧ ofValue w = .ok c) ∧
      ∀ k default : Value, k ≠ .str "id" → k ≠ .str "randomizationId" →
        c.get k default = (Value.object fs).look k default := by
  constructor
  · intro id fs
    refine ⟨_, _, encode_object id fs, rfl, ?_, id_ofFields_written, fs.without idKeys,
      attributes_ofFields_written, fun key => find?_without_idKeys key fs⟩
    constructor
    · rintro ⟨-, h⟩
      rw [attributes_ofFields_written, Value.object.injEq] at h
      exact without_idKeys_eq_self.mp h
    · rintro ⟨hid, halias⟩
      rw [ofFields_written_of_none hid halias]
      exact ⟨rfl, rfl⟩
  · intro fs
    have hattributes : (ofFields fs).attributes = .object (fs.without idKeys) := by
      rw [ofFields_eq]
    have hid : Fields.find? "id" (fs.without idKeys) = none := by
      rw [find?_without_idKeys, if_pos (Or.inl rfl)]
    have halias : Fields.find? "randomizationId" (fs.without idKeys) = none := by
      rw [find?_without_idKeys, if_pos (Or.inr rfl)]
    refine ⟨ofFields fs, _, rfl, hattributes, hid, halias, ?_, fun k default h h' =>
      get_ofFields h h' default⟩
    rw [ofFields_eq]
    exact ⟨_, encode_object _ _, congrArg Except.ok (ofFields_written_of_none hid halias)⟩

/-- An id that is zero is given, one that is null is replaced by what stands under the alias, and a
field by number is found under the truth value that counts as that number. -/
theorem reload_law_taken :
    let hidden : Fields := [("id", .str "v"), ("x", .int 1)]
    let aliased : Fields := [("id", .null), ("randomizationId", .str "u")]
    let read : Fields := [("randomizationId", .str "u"), (.int 1, .str "x")]
    (∃ w c, encode ⟨.int 0, .object hidden⟩ = .ok w ∧ ofValue w = .ok c ∧ c.id = .int 0 ∧
      c.attributes ≠ .object hidden) ∧
    (∃ w c, encode ⟨.null, .object aliased⟩ = .ok w ∧ ofValue w = .ok c ∧ c.id ≠ .null) ∧
    ∃ c, ofValue (.object read) = .ok c ∧ (∃ w, c.encode = .ok w ∧ ofValue w = .ok c) ∧
      c.get (.bool true) .null = .ok (.str "x") := by
  intro hidden aliased read
  obtain ⟨hwritten, hread⟩ := reload_law
  refine ⟨?_, ?_, ?_⟩
  · obtain ⟨w, c, hw, hc, hsame, hid, -⟩ := hwritten (.int 0) hidden
    have hzero : c.id = .int 0 := hid.mpr (Or.inl nofun)
    refine ⟨w, c, hw, hc, hzero, ?_⟩
    intro h
    have hnone := (hsame.mp ⟨hzero, h⟩).1
    exact absurd hnone (by decide)
  · obtain ⟨w, c, hw, hc, -, hid, -⟩ := hwritten .null aliased
    refine ⟨w, c, hw, hc, ?_⟩
    intro h
    rcases hid.mp h with hne | ⟨-, halias⟩
    · exact hne rfl
    · cases halias
  · obtain ⟨c, gs, hc, -, -, -, hreload, hget⟩ := hread read
    exact ⟨c, hc, hreload, (hget (.bool true) .null nofun nofun).trans rfl⟩

end Context

end Targeting
