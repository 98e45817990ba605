import Targeting.Proofs.Reading

/-!
What is written of a node, field by field. A node writes a field for each of its variants that is
set, in place of what it has left over there, and the rest of what is left over as it is. Only
look-ups matter for that, so the order of fields is nowhere spoken of.
-/

namespace Targeting

/-- A value as a field that is left out where the value is null. -/
def Value.given? (v : Value) : Option Value := if v.isNull then none else some v

@[simp] theorem Value.given?_null : given? .null = none := rfl

@[simp] theorem Value.getD_given? (v : Value) : v.given?.getD .null = v := by
  cases v <;> rfl

theorem Value.given?_eq_some {v w : Value} : v.given? = some w ↔ v = w ∧ v ≠ .null := by
  cases v <;> simp [given?, isNull]

/-! ### Looking up fields -/

namespace Fields

variable {key : Key} {fs : Fields}

theorem get_of_find? {v : Value} (h : find? key fs = some v) : Fields.get key fs = v := by
  rw [Fields.get, h]
  rfl

theorem find?_of_get {v : Value} (h : Fields.get key fs = v) (hv : v ≠ .null) :
    find? key fs = some v := by
  cases hf : find? key fs with
  | none =>
    rw [Fields.get, hf] at h
    exact absurd h.symm hv
  | some w => rw [← get_of_find? hf, h]

theorem find?_eq_none_iff : (∀ key, find? key fs = none) ↔ fs = [] := by
  constructor
  · intro h
    cases fs with
    | nil => rfl
    | cons f rest =>
      have := h f.1
      rw [find?, Key.same_self] at this
      cases this
  · rintro rfl _
    rfl

theorem find?_append (key : Key) (fs gs : Fields) :
    find? key (fs ++ gs) = (find? key fs).or (find? key gs) := by
  induction fs with
  | nil => rfl
  | cons f rest ih =>
    obtain ⟨k, v⟩ := f
    rw [List.cons_append, find?, find?, ih]
    split <;> rfl

theorem find?_given (key : Key) (name : String) (v : Value) :
    find? key (given name v) = if key = .str name then v.given? else none := by
  cases v <;> simp [given, find?, Value.given?, Value.isNull]

theorem find?_put (key : Key) (name : String) (v : Value) (fs : Fields) :
    find? key (put name v fs) = if key = .str name then some v else find? key fs := by
  split
  · rename_i h
    rw [h, find?_put_self]
  · rename_i h
    exact find?_put_of_not_same (by simpa using h) v fs

theorem find?_without (key : Key) (keys : List Key) (fs : Fields) :
    find? key (fs.without keys) = if keys.any key.same then none else find? key fs := by
  unfold without
  induction fs with
  | nil => simp [find?]
  | cons f rest ih =>
    obtain ⟨k, v⟩ := f
    have hsame (h : k.same key = true) : keys.any k.same = keys.any key.same :=
      List.any_congr rfl fun other => Key.same_trans h
    rw [List.filter_cons, find?]
    cases hk : k.same key with
    | true =>
      rw [hsame hk]
      cases ha : keys.any key.same with
      | true => simpa [ha] using ih
      | false => simp [find?, hk]
    | false =>
      rw [if_neg Bool.false_ne_true, ← ih]
      split
      · rw [find?, hk, if_neg Bool.false_ne_true]
      · rfl

/-- The fields of some names, each made anew from what is given there. -/
def pick (names : List String) (f : Key → Value → Value) (fs : Fields) : Fields :=
  names.flatMap fun name : String => given name (f name (fs.get name))

theorem find?_pick (key : Key) (names : List String) (f : Key → Value → Value) (fs : Fields) :
    find? key (pick names f fs) =
      if key ∈ names.map Key.str then (f key (fs.get key)).given? else none := by
  induction names with
  | nil => rfl
  | cons name rest ih =>
    rw [pick, List.flatMap_cons, find?_append, find?_given, ← pick, ih]
    by_cases hk : key = .str name
    · subst hk
      simp only [List.map_cons, List.mem_cons, true_or, if_true]
      split <;> cases (f name (fs.get name)).given? <;> rfl
    · simp [hk]

end Fields

namespace Node

/-! ### What is left over -/

def variantNames : List String := ["or", "and", "true", "false", "percent"]

theorem variantKeys_eq : variantKeys = variantNames.map Key.str := rfl

theorem mem_variantKeys {key : Key} : key ∈ variantKeys ↔
    key = .str "or" ∨ key = .str "and" ∨ key = .str "true" ∨ key = .str "false" ∨
      key = .str "percent" := by
  simp [variantKeys]

theorem any_same_variantKeys (key : Key) :
    variantKeys.any key.same = decide (key ∈ variantKeys) := by
  rw [Bool.eq_iff_iff]
  simp [variantKeys]

theorem fits_null {key : Key} : fits key .null = false := by
  unfold fits
  split
  · rfl
  split <;> rfl

/-- The fields that decoding leaves over. -/
def remaining (fs : Fields) : Fields :=
  fs.without variantKeys ++ variantKeys.flatMap (misfit fs)

/-- Fields as they are held; none are nothing. -/
def heldOver : Fields → Value
  | [] => .null
  | fs => .object fs

theorem leftoverOf_eq_heldOver (fs : Fields) : leftoverOf fs = heldOver (remaining fs) := by
  unfold leftoverOf
  rw [← remaining]
  cases remaining fs <;> rfl

theorem toFields_heldOver (fs : Fields) :
    (if (heldOver fs).truthy then (heldOver fs).toFields else .ok []) = .ok fs := by
  cases fs <;> rfl

theorem misfits_eq_pick (fs : Fields) : variantKeys.flatMap (misfit fs) =
    Fields.pick variantNames (fun key v => if fits key v then .null else v) fs := by
  rw [variantKeys_eq, List.flatMap_map]
  refine List.flatMap_congr fun name _ => ?_
  unfold misfit
  dsimp only
  cases hf : fits name (fs.get name) with
  | true => simp [Fields.given]
  | false => cases hv : fs.get name <;> simp [Fields.given, Value.isNull]

theorem find?_remaining (key : Key) (fs : Fields) : Fields.find? key (remaining fs) =
    if key ∈ variantKeys then if fits key (fs.get key) then none else (fs.get key).given?
    else Fields.find? key fs := by
  rw [remaining, Fields.find?_append, Fields.find?_without, any_same_variantKeys, misfits_eq_pick,
    Fields.find?_pick, ← variantKeys_eq]
  by_cases hk : key ∈ variantKeys
  · simp only [hk, decide_true, if_true, Option.none_or]
    split <;> rfl
  · simp [hk]

/-! ### What is written -/

variable {n : Node Condition}

/-- The fields that a node writes beside its variants. What is left over and not given has none. -/
def extras (n : Node Condition) : Except Fault Fields :=
  if n.leftover.truthy then n.leftover.toFields else .ok []

/-- Whether the variant of a field is set. -/
def sets (n : Node Condition) (key : Key) : Bool :=
  if key = .str "or" then n.anyOf.isSet
  else if key = .str "and" then n.allOf.isSet
  else if key = .str "true" then n.always.truthy
  else if key = .str "false" then n.never.truthy
  else if key = .str "percent" then n.percent.isSet
  else false

/-- What a node writes in the field of a variant that is set. -/
def own (n : Node Condition) (key : Key) : Except Fault Value :=
  if key = .str "or" then Group.encode n.anyOf
  else if key = .str "and" then Group.encode n.allOf
  else if key = .str "percent" then n.percent.encode
  else .ok (.object [])

theorem sets_decode (fs : Fields) {key : Key} (h : key ∈ variantKeys) :
    (decode (.object fs)).sets key = fits key (fs.get key) := by
  rw [decode_object]
  rcases mem_variantKeys.mp h with rfl | rfl | rfl | rfl | rfl <;>
    simp [sets, assemble, decodeGroup_isSet, truthy_literalOf, isSet_percentOf, fits]

theorem mem_variantKeys_of_sets {key : Key} (h : n.sets key = true) : key ∈ variantKeys := by
  rw [mem_variantKeys]
  unfold sets at h
  grind

/-- Fields that are written of a node that has others left over. -/
structure Writes (n : Node Condition) (rest out : Fields) : Prop where
  own {key : Key} {w : Value} (hs : n.sets key = true) (h : n.own key = .ok w) :
    Fields.find? key out = some w
  rest {key : Key} (hs : n.sets key = false) : Fields.find? key out = Fields.find? key rest

theorem Writes.of_not_mem {rest out : Fields} (h : n.Writes rest out) {key : Key}
    (hk : key ∉ variantKeys) : Fields.find? key out = Fields.find? key rest := by
  refine h.rest ?_
  cases hs : n.sets key with
  | false => rfl
  | true => exact absurd (mem_variantKeys_of_sets hs) hk

def putIf (put : Bool) (name : String) (v : Value) (fs : Fields) : Fields :=
  if put then fs.put name v else fs

theorem find?_putIf (key : Key) (put : Bool) (name : String) (v : Value) (fs : Fields) :
    Fields.find? key (putIf put name v fs) =
      if put = true ∧ key = .str name then some v else Fields.find? key fs := by
  cases put with
  | true => simp [putIf, Fields.find?_put]
  | false => rfl

theorem bind_putIf {put : Bool} {e : Except Fault Value} {w : Value} (h : put = true → e = .ok w)
    (name : String) (fs : Fields) (k : Fields → Except Fault Value) :
    (if put then e.map (Fields.put name · fs) >>= k else .ok fs >>= k) =
      k (putIf put name w fs) := by
  cases put with
  | true => rw [if_pos rfl, h rfl]; rfl
  | false => rfl

theorem encode_eq {rest : Fields} {a b p : Value} (hrest : n.extras = .ok rest)
    (ha : n.anyOf.isSet = true → Group.encode n.anyOf = .ok a)
    (hb : n.allOf.isSet = true → Group.encode n.allOf = .ok b)
    (hp : n.percent.isSet = true → n.percent.encode = .ok p) :
    n.encode = .ok (.object (putIf n.percent.isSet "percent" p
      (putIf n.never.truthy "false" (.object []) (putIf n.always.truthy "true" (.object [])
        (putIf n.allOf.isSet "and" b (putIf n.anyOf.isSet "or" a rest)))))) := by
  obtain ⟨anyOf, allOf, always, never, percent, leftover⟩ := n
  dsimp only [extras] at hrest ha hb hp ⊢
  rw [encode, ← apply_ite (· >>= _), hrest]
  refine (bind_putIf ha "or" rest _).trans ((bind_putIf hb "and" _ _).trans ?_)
  exact bind_putIf hp "percent" _ _

/-- A node of which every part that is set can be written is written. -/
theorem exists_writes_of_extras {rest : Fields} (hrest : n.extras = .ok rest)
    (h : ∀ key, n.sets key = true → ∃ w, n.own key = .ok w) :
    ∃ out, n.encode = .ok (.object out) ∧ n.Writes rest out := by
  have hpart (key : Key) : ∃ w, n.sets key = true → n.own key = .ok w := by
    cases hs : n.sets key with
    | true => exact (h key hs).imp fun _ hw _ => hw
    | false => exact ⟨.null, nofun⟩
  obtain ⟨a, ha⟩ := hpart "or"
  obtain ⟨b, hb⟩ := hpart "and"
  obtain ⟨p, hp⟩ := hpart "percent"
  simp only [sets, own, ↓reduceIte] at ha hb hp
  refine ⟨_, encode_eq hrest ha hb hp, ?_, ?_⟩
  · intro key w hs hw
    clear h hpart hrest
    rcases mem_variantKeys.mp (mem_variantKeys_of_sets hs) with rfl | rfl | rfl | rfl | rfl <;>
      simp_all [find?_putIf, sets, own]
  · intro key hs
    unfold sets at hs
    simp only [find?_putIf]
    grind

theorem exists_writes {rest : Fields} (hrest : n.leftover = heldOver rest)
    (h : ∀ key, n.sets key = true → ∃ w, n.own key = .ok w) :
    ∃ out, n.encode = .ok (.object out) ∧ n.Writes rest out := by
  refine exists_writes_of_extras ?_ h
  rw [extras, hrest, toFields_heldOver]

end Node

theorem encodeAll_map {α : Type} (f : α → Condition) {R : α → Value → Prop} {as : List α}
    (h : ∀ a ∈ as, ∃ w, (f a).encode = .ok w ∧ R a w) :
    ∃ ws, encodeAll (as.map f) = .ok ws ∧ List.Forall₂ R as ws := by
  induction as with
  | nil => exact ⟨[], rfl, .nil⟩
  | cons a rest ih =>
    obtain ⟨⟨w, hw, hr⟩, hrest⟩ := List.forall_mem_cons.mp h
    obtain ⟨ws, hws, hall⟩ := ih hrest
    exact ⟨w :: ws, by rw [List.map_cons, encodeAll, hw, hws]; rfl, .cons hr hall⟩

end Targeting
