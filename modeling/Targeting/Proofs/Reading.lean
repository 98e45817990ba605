import Targeting.Proofs.Decoding
import Mathlib.Data.List.Basic

/-!
Deciding a wire document as it stands. A value can be read for its meaning without building a
condition from it: each level looks up the fields it needs, and what lies behind a decided group is
never looked at. The reader below does that, and evaluation agrees with it on every value, however
malformed, in its answer, in what it hashes and in what it writes.
-/

namespace Targeting

namespace Wire

/-- The elements of a group as it is written; none where a value has not the shape of a group. -/
def elements? : Value → Option (List Value)
  | .object fs =>
    match Fields.get "conditions" fs with
    | .null => some []
    | .array vs => some vs
    | _ => none
  | _ => none

/-- The word that a test goes by. What is given and spells no comparison is unknown. -/
def operator (v : Value) : Value :=
  if !v.truthy ∨ v = .str "LESS_OR_EQUAL" ∨ v = .str "GREATER_THAN" ∨ v = .str "BETWEEN" then v
  else .str "UNKNOWN"

/-- The two bounds that a range gives. -/
def range : Value → Value
  | .object fs => .object
    (Fields.given "microPercentLowerBound" (Fields.get "microPercentLowerBound" fs) ++
      Fields.given "microPercentUpperBound" (Fields.get "microPercentUpperBound" fs))
  | _ => .null

/-- What a percent test gives of the fields that belong to one. -/
def test (fs : Fields) : Value := .object
  (Fields.given "seed" (Fields.get "seed" fs) ++
    Fields.given "operator" (operator (Fields.get "operator" fs)) ++
    Fields.given "microPercent" (Fields.get "microPercent" fs) ++
    Fields.given "microPercentRange" (range (Fields.get "microPercentRange" fs)))

/-- The answer of a percent test for a bucket, none where it lacks its numbers. -/
def answer? (fs : Fields) (bucket : Number) : Option Bool :=
  let given := Fields.get "operator" fs
  if given = .str "LESS_OR_EQUAL" then
    (Fields.get "microPercent" fs).number?.map fun t => bucket.le t
  else if given = .str "GREATER_THAN" then
    (Fields.get "microPercent" fs).number?.map fun t => t.lt bucket
  else if given = .str "BETWEEN" then
    match Fields.get "microPercentRange" fs with
    | .object gs => do
      let lower ← (Fields.get "microPercentLowerBound" gs).number?
      let upper ← (Fields.get "microPercentUpperBound" gs).number?
      return lower.lt bucket && bucket.le upper
    | _ => none
  else none

/-- What is left of a node that means nothing: its fields without those of the variants, which
follow as far as they are given. -/
def remainder (fs : Fields) : Value := .object
  (fs.without Node.variantKeys ++
    Node.variantKeys.flatMap fun key => Fields.given key (Fields.get key fs))

/-- The height of an element of a group in a field. -/
theorem height_lt_of_elements {fs : Fields} {key : Key} {vs : List Value} {w : Value}
    (h : elements? (Fields.get key fs) = some vs) (hw : w ∈ vs) :
    w.height < (Value.object fs).height := by
  have hfield := Value.height_get_lt key fs
  unfold elements? at h
  split at h
  · rename_i gs hgs
    rw [hgs] at hfield
    have hmembers := Value.height_get_lt "conditions" gs
    split at h
    · cases h; cases hw
    · rename_i ws hws
      cases h
      rw [hws, Value.height] at hmembers
      have := Value.height_le_heightAll hw
      omega
    · cases h
  · cases h

section Reader

variable (E : Evaluator) (context : Slot Context)

def percent (fs : Fields) : Run Bool :=
  if !(Fields.get "operator" fs).truthy then Run.fail .invalidOperator
  else do
    let c ← Run.ofExcept (Context.coerce context)
    if !c.id.truthy then Run.fail .missingId
    else
      let b ← E.bucket (Fields.get "seed" fs) c.id
      match answer? fs b.toNumber with
      | some answer => return answer
      | none => do
        Run.note (.percentRejected (test fs))
        Run.fail .invalidOperator

def unknown (v : Value) : Run Bool := do
  Run.note (.unknownCondition v)
  return false

/-- Reads a wire document for its meaning at a level of nesting. -/
def interpret (level : Numeral) (v : Value) : Run Bool :=
  if E.maxDepth.toNumber.le level.toNumber then do
    Run.note (.depthExceeded E.maxDepth)
    return false
  else
    match v with
    | .object fs =>
      match _ : elements? (Fields.get "or" fs), _ : elements? (Fields.get "and" fs) with
      | some vs, _ => vs.attach.anyM fun w => interpret level.succ w.1
      | none, some vs => vs.attach.allM fun w => interpret level.succ w.1
      | none, none =>
        if Node.isLiteral (Fields.get "true" fs) then return true
        else if Node.isLiteral (Fields.get "false" fs) then return false
        else
          match Fields.get "percent" fs with
          | .object gs => percent E context gs
          | _ => unknown (remainder fs)
    | .null => unknown (.object [])
    | v => unknown (.object [("condition", v)])
termination_by v.height
decreasing_by
  · exact height_lt_of_elements (by assumption) w.2
  · exact height_lt_of_elements (by assumption) w.2

end Reader

end Wire

/-! ### Groups -/

section Sweep

variable {α : Type} (judge : α → Run Bool) (as : List α)

theorem sweep_true_eq_anyM : sweep true judge as = as.anyM judge := by
  induction as with
  | nil => rfl
  | cons a rest ih =>
    rw [sweep_cons, List.anyM_cons, ih]
    apply bind_congr
    intro b
    cases b <;> rfl

theorem sweep_false_eq_allM : sweep false judge as = as.allM judge := by
  induction as with
  | nil => rfl
  | cons a rest ih =>
    rw [sweep_cons, List.allM_cons, ih]
    apply bind_congr
    intro b
    cases b <;> rfl

theorem attach_anyM : (as.attach.anyM fun a => judge a.1) = as.anyM judge := by
  rw [← sweep_true_eq_anyM, ← sweep_map, List.attach_map_subtype_val, sweep_true_eq_anyM]

theorem attach_allM : (as.attach.allM fun a => judge a.1) = as.allM judge := by
  rw [← sweep_false_eq_allM, ← sweep_map, List.attach_map_subtype_val, sweep_false_eq_allM]

end Sweep

theorem decodeGroup_of_elements {v : Value} {vs : List Value} (h : Wire.elements? v = some vs) :
    (decodeGroup v).isSet = true ∧ (decodeGroup v).conditions = .ok (vs.map Condition.decode) := by
  cases v with
  | object fs =>
    rw [Wire.elements?] at h
    rw [decodeGroup_object]
    cases hc : Fields.get "conditions" fs with
    | null =>
      rw [hc] at h
      cases h
      exact ⟨rfl, rfl⟩
    | array ws =>
      rw [hc] at h
      cases h
      rw [decodeMembers, decodeAll_eq_map]
      exact ⟨rfl, rfl⟩
    | _ => rw [hc] at h; cases h
  | _ => cases h

theorem decodeGroup_of_no_elements {v : Value} (h : Wire.elements? v = none) :
    (decodeGroup v).isSet = false := by
  cases v with
  | object fs =>
    rw [Wire.elements?] at h
    rw [decodeGroup_object]
    cases hc : Fields.get "conditions" fs with
    | null => rw [hc] at h; cases h
    | array ws => rw [hc] at h; cases h
    | _ => rfl
  | _ => rfl

/-! ### Percent tests -/

namespace Operator

/-- A settled value stands for a usable comparison only where it is its word. -/
theorem comparison?_settle_plain (v : Value) {c : Comparison} (hc : c ≠ .unknown) :
    (Operator.plain v).settle.comparison? = some c ↔ v = .str c.word := by
  rw [comparison?_settle _ hc]
  cases v with
  | str s =>
    simp only [comparison?, Value.str.injEq]
    constructor
    · intro h
      exact (Comparison.word_of_ofWord? h).symm
    · rintro rfl
      exact Comparison.ofWord?_word c
  | _ => simp [comparison?]

theorem value_settle_plain (v : Value) : (Operator.plain v).settle.value = Wire.operator v := by
  cases v with
  | str s =>
    by_cases hs : s = ""
    · simp [settle, value, Wire.operator, Value.truthy, hs]
    · rw [settle, if_neg hs, value, Wire.operator]
      cases hw : Comparison.ofWord? s with
      | none =>
        have hne (c : Comparison) : s ≠ c.word := by
          rintro rfl
          rw [Comparison.ofWord?_word] at hw
          cases hw
        have hl := hne .lessOrEqual
        have hg := hne .greaterThan
        have hb := hne .between
        simp_all [Value.truthy, Comparison.word]
      | some c =>
        have hc := Comparison.word_of_ofWord? hw
        subst hc
        cases c <;> simp [Value.truthy, Comparison.word]
  | _ =>
    simp only [settle, Wire.operator]
    split <;> simp_all [value, Comparison.word]

end Operator

namespace Percent

theorem verdict_ofFields (fs : Fields) (b : Numeral) :
    (ofFields fs).verdict b = .ok (Wire.answer? fs b.toNumber) := by
  have hop (c : Comparison) (hc : c ≠ .unknown) :
      (ofFields fs).operator.comparison? = some c ↔ Fields.get "operator" fs = .str c.word :=
    Operator.comparison?_settle_plain _ hc
  have hl := hop .lessOrEqual (by decide)
  have hg := hop .greaterThan (by decide)
  have hb := hop .between (by decide)
  simp only [Comparison.word] at hl hg hb
  unfold verdict Wire.answer?
  by_cases h₁ : Fields.get "operator" fs = .str "LESS_OR_EQUAL"
  · rw [hl.mpr h₁]
    simp only [h₁, ↓reduceIte]
    rfl
  by_cases h₂ : Fields.get "operator" fs = .str "GREATER_THAN"
  · rw [hg.mpr h₂]
    simp only [h₂, ↓reduceIte]
    rfl
  by_cases h₃ : Fields.get "operator" fs = .str "BETWEEN"
  · rw [hb.mpr h₃]
    simp only [h₃, ↓reduceIte]
    cases hr : Fields.get "microPercentRange" fs with
    | object gs =>
      simp only [ofFields, make, rangeOf, hr, Range.contains?_filled]
      rfl
    | _ => simp [ofFields, make, rangeOf, hr]
  · simp only [h₁, h₂, h₃, ↓reduceIte]
    rw [← hl] at h₁
    rw [← hg] at h₂
    rw [← hb] at h₃
    cases hc : (ofFields fs).operator.comparison? with
    | none => rfl
    | some c => cases c <;> simp_all

theorem encode_ofFields (fs : Fields) : (ofFields fs).encode = .ok (Wire.test fs) := by
  have hop : (ofFields fs).operator.value = _ := Operator.value_settle_plain _
  unfold encode Wire.test
  rw [hop]
  cases hr : Fields.get "microPercentRange" fs with
  | object gs =>
    simp only [ofFields, make, rangeOf, hr]
    rfl
  | _ =>
    simp only [ofFields, make, rangeOf, hr]
    rfl

end Percent

theorem Evaluator.evaluatePercent_ofFields (E : Evaluator) (context : Slot Context) (fs : Fields) :
    E.evaluatePercent context (.filled (.ofFields fs)) = Wire.percent E context fs := by
  have ht : (Percent.ofFields fs).operator.truthy = (Fields.get "operator" fs).truthy :=
    Operator.truthy_settle _
  rw [evaluatePercent_filled, Wire.percent, ht]
  split
  · rfl
  apply bind_congr
  intro c
  split
  · rfl
  apply bind_congr
  intro b
  rw [Percent.verdict_ofFields, Percent.encode_ofFields]
  rfl

/-! ### Nodes -/

namespace Node

/-- What a decoded node has left over, as fields. -/
theorem toFields_leftoverOf (fs : Fields) :
    (if (leftoverOf fs).truthy then (leftoverOf fs).toFields else .ok []) =
      .ok (fs.without variantKeys ++ variantKeys.flatMap (misfit fs)) := by
  unfold leftoverOf
  cases fs.without variantKeys ++ variantKeys.flatMap (misfit fs) <;> rfl

theorem misfit_eq_given {fs : Fields} {key : Key} (h : fits key (Fields.get key fs) = false) :
    misfit fs key = Fields.given key (Fields.get key fs) := by
  unfold misfit
  cases hv : Fields.get key fs <;> simp_all [Fields.given, Value.isNull]

/-- Where no variant is well shaped, all that is given of them is left over. -/
theorem leftover_eq_remainder {fs : Fields}
    (h : ∀ key ∈ variantKeys, fits key (Fields.get key fs) = false) :
    .object (fs.without variantKeys ++ variantKeys.flatMap (misfit fs)) = Wire.remainder fs := by
  have hm : variantKeys.flatMap (misfit fs) =
      variantKeys.flatMap fun key => Fields.given key (Fields.get key fs) := by
    refine List.flatMap_congr fun key hk => misfit_eq_given (h key hk)
  rw [hm, Wire.remainder]

theorem fits_or (v : Value) : fits "or" v = isGroup v := by
  simp [fits]

theorem fits_and (v : Value) : fits "and" v = isGroup v := by
  simp [fits]

theorem fits_true (v : Value) : fits "true" v = isLiteral v := by
  simp [fits]

theorem fits_false (v : Value) : fits "false" v = isLiteral v := by
  simp [fits]

theorem fits_percent (v : Value) : fits "percent" v = v.isObject := by
  simp [fits]

theorem truthy_literalOf (v : Value) : (literalOf v).truthy = isLiteral v := by
  unfold literalOf
  cases isLiteral v <;> rfl

theorem isSet_percentOf (v : Value) : (percentOf v).isSet = v.isObject := by
  cases v <;> rfl

section Assemble

variable {A B : Group Condition}

/-- What an object means that has no group. -/
theorem variant_assemble (fs : Fields) (ha : A.isSet = false) (hb : B.isSet = false) :
    (assemble fs A B).variant =
      if isLiteral (Fields.get "true" fs) then .always
      else if isLiteral (Fields.get "false" fs) then .never
      else if (Fields.get "percent" fs).isObject then .percent (percentOf (Fields.get "percent" fs))
      else .unknown := by
  simp [variant, assemble, ha, hb, truthy_literalOf, isSet_percentOf]

theorem encode_assemble_unknown {fs : Fields} (hv : (assemble fs A B).variant = .unknown)
    (h : ∀ key ∈ variantKeys, fits key (Fields.get key fs) = false) :
    (assemble fs A B).encode = .ok (Wire.remainder fs) := by
  have hl : (assemble fs A B).leftover = leftoverOf fs := rfl
  rw [encode_of_unknown hv, hl, toFields_leftoverOf, ← leftover_eq_remainder h]
  rfl

end Assemble

end Node

namespace Evaluator

variable (E : Evaluator) (context : Slot Context)

/-- A decoded object that means something beside its groups, or nothing. -/
theorem dispatch_assemble (member : Condition → Run Bool) {fs : Fields} {A B : Group Condition}
    (ha : A.isSet = false) (hb : B.isSet = false)
    (hor : Node.isGroup (Fields.get "or" fs) = false)
    (hand : Node.isGroup (Fields.get "and" fs) = false) :
    (Node.assemble fs A B).dispatch (E.evaluatePercent context) member =
      if Node.isLiteral (Fields.get "true" fs) then pure true
      else if Node.isLiteral (Fields.get "false" fs) then pure false
      else
        match Fields.get "percent" fs with
        | .object gs => Wire.percent E context gs
        | _ => Wire.unknown (Wire.remainder fs) := by
  have hv := Node.variant_assemble fs ha hb
  cases ht : Node.isLiteral (Fields.get "true" fs) with
  | true => simp [Node.dispatch, hv, ht]
  | false =>
    cases hf : Node.isLiteral (Fields.get "false" fs) with
    | true => simp [Node.dispatch, hv, ht, hf]
    | false =>
      simp only [ht, hf, Bool.false_eq_true, ↓reduceIte] at hv ⊢
      cases hp : (Fields.get "percent" fs).isObject with
      | true =>
        cases hg : Fields.get "percent" fs with
        | object gs =>
          simp [Node.dispatch, hv, hg, Value.isObject, Node.percentOf, evaluatePercent_ofFields]
        | _ => simp [hg, Value.isObject] at hp
      | false =>
        rw [hp, if_neg Bool.false_ne_true] at hv
        have hfit : ∀ key ∈ Node.variantKeys, Node.fits key (Fields.get key fs) = false := by
          simp only [Node.variantKeys, List.forall_mem_cons, List.not_mem_nil, false_implies,
            implies_true, and_true]
          exact ⟨Node.fits_or _ ▸ hor, Node.fits_and _ ▸ hand, Node.fits_true _ ▸ ht,
            Node.fits_false _ ▸ hf, Node.fits_percent _ ▸ hp⟩
        rw [Node.dispatch, hv]
        simp only [Node.encode_assemble_unknown hv hfit]
        cases hg : Fields.get "percent" fs with
        | object gs => simp [hg, Value.isObject] at hp
        | _ => rfl

/-- Members that are read as they are evaluated are so one after another. -/
theorem sweep_decode {stop : Bool} {level : Numeral} {vs : List Value}
    (h : ∀ w ∈ vs, E.evaluate (.plain w) context level = Wire.interpret E context level w) :
    sweep stop (fun m => E.evaluate m context level) (vs.map Condition.decode) =
      sweep stop (Wire.interpret E context level) vs := by
  rw [sweep_map]
  apply sweep_congr
  intro w hw
  rw [evaluate_decode]
  exact h w hw

/-- A group that decides an object is swept over the members that it spells. -/
theorem dispatch_assemble_anyOf (member : Condition → Run Bool) {fs : Fields} {vs : List Value}
    (h : Wire.elements? (Fields.get "or" fs) = some vs) (B : Group Condition) :
    (Node.assemble fs (decodeGroup (Fields.get "or" fs)) B).dispatch (E.evaluatePercent context)
      member = sweep true member (vs.map Condition.decode) := by
  obtain ⟨hset, hcs⟩ := decodeGroup_of_elements h
  simp [Node.dispatch, Node.variant, Node.assemble, hset, hcs, Run.ofExcept, Run.done]

theorem dispatch_assemble_allOf (member : Condition → Run Bool) {fs : Fields} {vs : List Value}
    {A : Group Condition} (ha : A.isSet = false)
    (h : Wire.elements? (Fields.get "and" fs) = some vs) :
    (Node.assemble fs A (decodeGroup (Fields.get "and" fs))).dispatch (E.evaluatePercent context)
      member = sweep false member (vs.map Condition.decode) := by
  obtain ⟨hset, hcs⟩ := decodeGroup_of_elements h
  simp [Node.dispatch, Node.variant, Node.assemble, ha, hset, hcs, Run.ofExcept, Run.done]

/-- Evaluating a plain value is reading it. -/
theorem evaluate_plain_eq_interpret (v : Value) (level : Numeral) :
    E.evaluate (.plain v) context level = Wire.interpret E context level v := by
  -- Both go down to elements of the groups, which are less deep than the value.
  induction hn : v.height using Nat.strongRecOn generalizing v level with
  | ind n ih =>
    subst hn
    rw [evaluate_step, Wire.interpret.eq_def]
    split
    · rfl
    cases v with
    | object fs =>
      have hmember {key : Key} {vs : List Value}
          (h : Wire.elements? (Fields.get key fs) = some vs) : ∀ w ∈ vs,
            E.evaluate (.plain w) context level.succ = Wire.interpret E context level.succ w := by
        intro w hw
        exact ih w.height (Wire.height_lt_of_elements h hw) w level.succ rfl
      have hd : (Condition.plain (.object fs)).toNode =
          .assemble fs (decodeGroup (Fields.get "or" fs)) (decodeGroup (Fields.get "and" fs)) :=
        Node.decode_object fs
      rw [hd]
      dsimp only
      split
      · rename_i vs _ ho
        rw [attach_anyM, ← sweep_true_eq_anyM, dispatch_assemble_anyOf E context _ ho,
          sweep_decode E context (hmember ho)]
      · rename_i vs ho ha
        rw [attach_allM, ← sweep_false_eq_allM,
          dispatch_assemble_allOf E context _ (decodeGroup_of_no_elements ho) ha,
          sweep_decode E context (hmember ha)]
      · rename_i ho ha
        have hor := decodeGroup_of_no_elements ho
        have hand := decodeGroup_of_no_elements ha
        rw [dispatch_assemble E context _ hor hand (decodeGroup_isSet _ ▸ hor)
          (decodeGroup_isSet _ ▸ hand)]
    | _ => rfl

end Evaluator

end Targeting
