import Targeting.Batch
import Targeting.Proofs.Matching
import Targeting.Proofs.Writing

/-!
Encoding a condition and decoding it again. A regular condition comes back with every part of every
node as it was; only the order of the fields that its nodes have left over may change. Whatever is
decoded is regular, so decoding forgets at once all that it ever forgets.
-/

namespace Targeting

/-- The same value, but for the order of its fields. -/
inductive Value.Reordered : Value → Value → Prop where
  | same (v : Value) : Reordered v v
  | object {fs gs : Fields} (h : ∀ key, Fields.find? key fs = Fields.find? key gs) :
    Reordered (.object fs) (.object gs)

/-- An operator as tests are made with it. -/
inductive Operator.Settled : Operator → Prop where
  | known (c : Comparison) : Settled (.known c)
  | absent {v : Value} (h : v.truthy = false) : Settled (.plain v)

inductive Test.Regular : Test → Prop where
  | unset : Regular .unset
  | filled {p : Percent} (operator : p.operator.Settled) (range : p.range.WellFormed) :
    Regular (.filled p)

/-- Fields that stand beside the variants of a node: one in the place of a variant is there only
because that variant is not set, and has not its shape. -/
def Node.Beside (n : Node Condition) (fs : Fields) : Prop :=
  ∀ key ∈ variantKeys, ∀ v, Fields.find? key fs = some v →
    n.sets key = false ∧ v ≠ .null ∧ fits key v = false

/-- A node as decoding makes it, whatever its members are. -/
structure Node.Regular (n : Node Condition) : Prop where
  anyOf : Group.WellFormed n.anyOf
  allOf : Group.WellFormed n.allOf
  always : n.always = .null ∨ n.always = .bool true
  never : n.never = .null ∨ n.never = .bool true
  percent : Test.Regular n.percent
  leftover : n.leftover = .null ∨ ∃ fs, fs ≠ [] ∧ n.leftover = .object fs ∧ n.Beside fs

inductive Condition.Regular : Condition → Prop where
  | node {n : Node Condition} (parts : n.Regular) (anyOf : ∀ c ∈ Group.listed n.anyOf, Regular c)
    (allOf : ∀ c ∈ Group.listed n.allOf, Regular c) : Regular (.node n)

theorem Value.Reordered.heldOver {fs gs : Fields}
    (h : ∀ key, Fields.find? key fs = Fields.find? key gs) :
    Reordered (Node.heldOver fs) (Node.heldOver gs) := by
  have hnil : fs = [] ↔ gs = [] := by
    rw [← Fields.find?_eq_none_iff, ← Fields.find?_eq_none_iff]
    exact forall_congr' fun key => by rw [h]
  cases fs with
  | nil =>
    rw [hnil.mp rfl]
    exact .same _
  | cons f rest =>
    cases gs with
    | nil => cases hnil.mpr rfl
    | cons g others => exact .object h

/-! ### What decoding makes -/

theorem Operator.settled_settle (o : Operator) : o.settle.Settled := by
  cases o with
  | known c => exact .known c
  | plain v =>
    cases v with
    | str s =>
      rw [settle]
      split
      · rename_i h
        exact .absent (by simpa [Value.truthy] using h)
      · exact .known _
    | _ =>
      rw [settle]
      · split
        · exact .known _
        · rename_i h
          exact .absent (by simpa using h)
      · intro s hs
        cases hs

namespace Node

theorem percentOf_regular (v : Value) : Test.Regular (percentOf v) := by
  cases v with
  | object fs =>
    cases percentOf_wellFormed (.object fs) with
    | filled _ range => exact .filled (Operator.settled_settle _) range
  | _ => exact .unset

theorem literalOf_eq (v : Value) : literalOf v = .null ∨ literalOf v = .bool true := by
  unfold literalOf
  split
  · exact Or.inr rfl
  · exact Or.inl rfl

theorem decode_regular (v : Value) : (decode v).Regular := by
  cases v with
  | null => exact ⟨.unset, .unset, Or.inl rfl, Or.inl rfl, .unset, Or.inl rfl⟩
  | object fs =>
    have hsets {key : Key} (hk : key ∈ variantKeys) := sets_decode fs hk
    rw [decode_object] at hsets ⊢
    refine ⟨decodeGroup_wellFormed _, decodeGroup_wellFormed _, literalOf_eq _, literalOf_eq _,
      percentOf_regular _, ?_⟩
    have hleft : (assemble fs (decodeGroup (Fields.get "or" fs))
        (decodeGroup (Fields.get "and" fs))).leftover = heldOver (remaining fs) :=
      leftoverOf_eq_heldOver fs
    cases hr : remaining fs with
    | nil => exact Or.inl (by rw [hleft, hr, heldOver])
    | cons f rest =>
      refine Or.inr ⟨remaining fs, by simp [hr], by rw [hleft, hr]; rfl, fun key hk w hw => ?_⟩
      rw [find?_remaining, if_pos hk] at hw
      split at hw
      · cases hw
      · rename_i hfit
        obtain ⟨rfl, hn⟩ := Value.given?_eq_some.mp hw
        rw [hsets hk]
        exact ⟨by simpa using hfit, hn, by simpa using hfit⟩
  | _ =>
    refine ⟨.unset, .unset, Or.inl rfl, Or.inl rfl, .unset, Or.inr ⟨_, by simp, rfl, ?_⟩⟩
    intro key hk w hw
    rcases mem_variantKeys.mp hk with rfl | rfl | rfl | rfl | rfl <;> cases hw

end Node

/-- Whatever is decoded is regular at every depth. -/
theorem Condition.decode_regular (v : Value) : (decode v).Regular :=
  decode_induction (fun v anyOf allOf => .node (Node.decode_regular v) anyOf allOf) v

/-! ### Parts of a node -/

theorem Operator.Settled.settle_value {o : Operator} (h : o.Settled) :
    (Operator.plain o.value).settle = o := by
  cases h with
  | known c => cases c <;> rfl
  | @absent v h =>
    cases v with
    | str s =>
      have hs : s = "" := by simpa [Value.truthy] using h
      rw [hs]
      rfl
    | _ => simp [value, settle, h]

theorem Bounds.ofFields_encode (b : Bounds) : ∃ fs, b.encode = .object fs ∧ ofFields fs = b := by
  refine ⟨_, rfl, ?_⟩
  simp [ofFields, Fields.get, Fields.find?_append, Fields.find?_given]

theorem Range.WellFormed.rangeOf_encode {r : Range} (h : r.WellFormed) :
    ∃ w, (r.encode fun b => .ok b.encode) = .ok w ∧ Percent.rangeOf w = r := by
  cases h with
  | unset => exact ⟨.null, rfl, rfl⟩
  | filled b =>
    obtain ⟨fs, he, hb⟩ := b.ofFields_encode
    exact ⟨.object fs, by rw [← he]; rfl, by rw [Percent.rangeOf, hb]⟩

/-- A test as it is made from its own parts, with the operator brought into order. -/
def Percent.settled (p : Percent) : Percent :=
  { p with operator := (Operator.plain p.operator.value).settle }

theorem Percent.settled_eq {p : Percent} (h : p.operator.Settled) : p.settled = p := by
  rw [settled, h.settle_value]

theorem Percent.ofFields_encode {p : Percent} (h : p.range.WellFormed) :
    ∃ fs, p.encode = .ok (.object fs) ∧ ofFields fs = p.settled := by
  obtain ⟨w, hw, hrange⟩ := h.rangeOf_encode
  refine ⟨_, by rw [encode, hw]; rfl, ?_⟩
  obtain ⟨seed, operator, threshold, range⟩ := p
  simp [ofFields, make, settled, Fields.get, Fields.find?_append, Fields.find?_given, hrange]

theorem Test.WellFormed.percentOf_encode {t : Test} (h : t.WellFormed) (hs : t.isSet = true) :
    ∃ p w, t = .filled p ∧ p.range.WellFormed ∧ t.encode = .ok w ∧ w.isObject = true ∧
      Node.percentOf w = .filled p.settled := by
  cases h with
  | unset => cases hs
  | filled p range =>
    obtain ⟨fs, he, hp⟩ := Percent.ofFields_encode range
    exact ⟨p, .object fs, rfl, range, he, rfl, by rw [Node.percentOf, hp]⟩

theorem Test.Regular.wellFormed {t : Test} (h : t.Regular) : t.WellFormed := by
  cases h with
  | unset => exact .unset
  | filled operator range => exact .filled _ range

theorem Test.Regular.percentOf_encode {t : Test} (h : t.Regular) (hs : t.isSet = true) :
    ∃ w, t.encode = .ok w ∧ Node.percentOf w = t := by
  obtain ⟨p, w, rfl, -, hw, -, hp⟩ := h.wellFormed.percentOf_encode hs
  cases h with
  | filled operator range => exact ⟨w, hw, by rw [hp, Percent.settled_eq operator]⟩

theorem Group.WellFormed.decodeGroup_encode {R : Condition → Condition → Prop}
    {g : Group Condition} (h : g.WellFormed) (hs : g.isSet = true)
    (hm : ∀ c ∈ g.listed, ∃ w, c.encode = .ok w ∧ R c (.decode w)) :
    ∃ w, Group.encode g = .ok w ∧ Node.isGroup w = true ∧ g.Matches R (decodeGroup w) := by
  cases h with
  | unset => cases hs
  | missing => exact ⟨.object [], rfl, rfl, .same _⟩
  | listed cs =>
    obtain ⟨ws, hws, hall⟩ : ∃ ws, encodeAll (cs.map id) = .ok ws ∧
        List.Forall₂ (fun c w => R c (.decode w)) cs ws := encodeAll_map id hm
    rw [List.map_id] at hws
    refine ⟨.object [("conditions", .array ws)], ?_, rfl, ?_⟩
    · rw [Group.of, Group.encode, Members.encode, hws]
      rfl
    · refine .listed ?_
      rw [decodeAll_eq_map, List.forall₂_map_right_iff]
      exact hall

theorem decodeGroup_of_not_isGroup {v : Value} (h : Node.isGroup v = false) :
    decodeGroup v = .unset := by
  cases v with
  | object fs =>
    rw [Node.isGroup] at h
    rw [decodeGroup_object]
    cases hc : Fields.get "conditions" fs with
    | null => rw [hc] at h; cases h
    | array vs => rw [hc] at h; cases h
    | _ => rfl
  | _ => rfl

theorem Group.WellFormed.decodeGroup_written {R : Condition → Condition → Prop}
    {g : Group Condition} {w : Value} (h : g.WellFormed)
    (hm : ∀ c ∈ g.listed, ∃ w, c.encode = .ok w ∧ R c (.decode w))
    (hset : g.isSet = true → Group.encode g = .ok w)
    (hunset : g.isSet = false → Node.isGroup w = false) : g.Matches R (decodeGroup w) := by
  cases hs : g.isSet with
  | true =>
    obtain ⟨v, hv, -, hg⟩ := h.decodeGroup_encode hs hm
    rw [hset hs] at hv
    cases hv
    exact hg
  | false =>
    rw [decodeGroup_of_not_isGroup (hunset hs)]
    cases h with
    | unset => exact .same _
    | missing => cases hs
    | listed cs => cases hs

theorem Test.Regular.percentOf_written {t : Test} {w : Value} (h : t.Regular)
    (hset : t.isSet = true → t.encode = .ok w) (hunset : t.isSet = false → w.isObject = false) :
    Node.percentOf w = t := by
  cases hs : t.isSet with
  | true =>
    obtain ⟨v, hv, ht⟩ := h.percentOf_encode hs
    rw [hset hs] at hv
    cases hv
    exact ht
  | false =>
    have hw := hunset hs
    cases h with
    | unset =>
      cases w with
      | object fs => cases hw
      | _ => rfl
    | filled => cases hs

/-! ### Nodes -/

namespace Node

variable {n : Node Condition} {R : Condition → Condition → Prop}

theorem literalOf_written {v w : Value} (h : v = .null ∨ v = .bool true)
    (hset : v.truthy = true → .object [] = w) (hunset : v.truthy = false → isLiteral w = false) :
    literalOf w = v := by
  rcases h with rfl | rfl
  · rw [literalOf, hunset rfl]
    rfl
  · rw [← hset rfl]
    rfl

theorem Regular.rest (h : n.Regular) : ∃ rest, n.leftover = heldOver rest ∧ n.Beside rest := by
  rcases h.leftover with hl | ⟨fs, hne, hl, hrest⟩
  · exact ⟨[], hl, by intro _ _ _ hv; cases hv⟩
  · refine ⟨fs, ?_, hrest⟩
    rw [hl]
    cases fs with
    | nil => exact absurd rfl hne
    | cons f fs => rfl

/-- What is written in the field of a variant, from parts of their own kinds, has the shape of that
variant. -/
theorem own_fits (hA : Group.WellFormed n.anyOf) (hB : Group.WellFormed n.allOf)
    (hP : n.percent.WellFormed)
    (ha : ∀ c ∈ Group.listed n.anyOf, ∃ w, c.encode = .ok w ∧ R c (.decode w))
    (hb : ∀ c ∈ Group.listed n.allOf, ∃ w, c.encode = .ok w ∧ R c (.decode w)) {key : Key}
    (hs : n.sets key = true) : ∃ w, n.own key = .ok w ∧ fits key w = true := by
  rcases mem_variantKeys.mp (mem_variantKeys_of_sets hs) with rfl | rfl | rfl | rfl | rfl
  · obtain ⟨w, hw, hg, -⟩ := hA.decodeGroup_encode hs ha
    exact ⟨w, hw, hg⟩
  · obtain ⟨w, hw, hg, -⟩ := hB.decodeGroup_encode hs hb
    exact ⟨w, hw, hg⟩
  · exact ⟨_, rfl, rfl⟩
  · exact ⟨_, rfl, rfl⟩
  · obtain ⟨-, w, -, -, hw, hobject, -⟩ := hP.percentOf_encode hs
    exact ⟨w, hw, hobject⟩

/-- Where a node can be written, and what it has left over in the place of a variant that is not set
has not its shape, the shapes of variants stand in the places of those that are set. -/
theorem exists_written {rest : Fields} (hrest : n.extras = .ok rest)
    (hown : ∀ key, n.sets key = true → ∃ w, n.own key = .ok w ∧ fits key w = true)
    (hunset : ∀ key ∈ variantKeys, n.sets key = false → fits key (Fields.get key rest) = false) :
    ∃ out, n.encode = .ok (.object out) ∧ n.Writes rest out ∧
      (∀ key, n.sets key = true → n.own key = .ok (Fields.get key out)) ∧
      ∀ key ∈ variantKeys, fits key (Fields.get key out) = n.sets key := by
  obtain ⟨out, hout, hw⟩ :=
    exists_writes_of_extras hrest fun key hs => (hown key hs).imp fun _ => And.left
  have hget (key : Key) (hs : n.sets key = true) :
      ∃ w, n.own key = .ok w ∧ fits key w = true ∧ Fields.get key out = w := by
    obtain ⟨w, hk, hf⟩ := hown key hs
    exact ⟨w, hk, hf, Fields.get_of_find? (hw.own hs hk)⟩
  refine ⟨out, hout, hw, fun key hs => ?_, fun key hk => ?_⟩
  · obtain ⟨w, hk, -, hg⟩ := hget key hs
    rw [hg, hk]
  · cases hs : n.sets key with
    | true =>
      obtain ⟨w, -, hf, hg⟩ := hget key hs
      rw [hg, hf]
    | false => rw [Fields.get, hw.rest hs, ← Fields.get, hunset key hk hs]

theorem Beside.fits_eq_false {rest : Fields} (h : n.Beside rest) {key : Key}
    (hk : key ∈ variantKeys) : fits key (Fields.get key rest) = false := by
  cases hv : Fields.find? key rest with
  | none => rw [Fields.get, hv]; exact fits_null
  | some v =>
    rw [Fields.get_of_find? hv]
    exact (h key hk v hv).2.2

theorem Beside.find?_eq_given? {rest : Fields} (h : n.Beside rest) {key : Key}
    (hk : key ∈ variantKeys) : Fields.find? key rest = (Fields.get key rest).given? := by
  cases hv : Fields.find? key rest with
  | none => rw [Fields.get, hv]; rfl
  | some v =>
    rw [Fields.get_of_find? hv]
    exact (Value.given?_eq_some.mpr ⟨rfl, (h key hk v hv).2.1⟩).symm

/-- What stands beside the variants of a node is left over again. -/
theorem Writes.find?_remaining {rest out : Fields} (h : n.Writes rest out) (hrest : n.Beside rest)
    (hfits : ∀ key ∈ variantKeys, fits key (Fields.get key out) = n.sets key) (key : Key) :
    Fields.find? key rest = Fields.find? key (remaining out) := by
  rw [Node.find?_remaining]
  by_cases hk : key ∈ variantKeys
  · rw [if_pos hk, hfits key hk]
    cases hs : n.sets key with
    | true =>
      -- Nothing was left over in the place of a variant that is set.
      rw [if_pos rfl]
      cases hv : Fields.find? key rest with
      | none => rfl
      | some v => rw [(hrest key hk v hv).1] at hs; cases hs
    | false =>
      rw [if_neg Bool.false_ne_true, hrest.find?_eq_given? hk, Fields.get, Fields.get, h.rest hs]
  · rw [if_neg hk, h.of_not_mem hk]

/-- What has been written of a regular node is decoded to one that matches it. -/
theorem Regular.decode_encode (h : n.Regular)
    (ha : ∀ c ∈ Group.listed n.anyOf, ∃ w, c.encode = .ok w ∧ R c (.decode w))
    (hb : ∀ c ∈ Group.listed n.allOf, ∃ w, c.encode = .ok w ∧ R c (.decode w)) :
    ∃ w, n.encode = .ok w ∧ n.Matches R Eq Value.Reordered (decode w) := by
  obtain ⟨rest, hleft, hrest⟩ := h.rest
  have hextras : n.extras = .ok rest := by rw [extras, hleft, toFields_heldOver]
  obtain ⟨out, hout, hw, hset, hfits⟩ := exists_written hextras
    (fun _ => own_fits h.anyOf h.allOf h.percent.wellFormed ha hb)
    fun _ hk _ => hrest.fits_eq_false hk
  have hunset (key : Key) (hk : key ∈ variantKeys) (hs : n.sets key = false) :
      fits key (Fields.get key out) = false := (hfits key hk).trans hs
  refine ⟨.object out, hout, ?_⟩
  rw [decode_object]
  refine ⟨⟨?_, ?_, ?_, ?_⟩, ?_, ?_⟩
  · exact literalOf_written h.always (fun hs => Except.ok.inj (hset "true" hs))
      (hunset "true" (by decide))
  · exact literalOf_written h.never (fun hs => Except.ok.inj (hset "false" hs))
      (hunset "false" (by decide))
  · exact (h.percent.percentOf_written (hset "percent") (hunset "percent" (by decide))).symm
  · have hheld := Value.Reordered.heldOver (hw.find?_remaining hrest hfits)
    rw [← hleft, ← leftoverOf_eq_heldOver] at hheld
    exact hheld
  · exact h.anyOf.decodeGroup_written ha (hset "or") (hunset "or" (by decide))
  · exact h.allOf.decodeGroup_written hb (hset "and") (hunset "and" (by decide))

end Node

/-! ### Conditions -/

theorem Condition.Regular.matches_decode {c : Condition} (h : c.Regular) :
    ∃ w, c.encode = .ok w ∧ c.Matches Eq Value.Reordered (.decode w) := by
  induction h with
  | node parts _ _ anyOf allOf =>
    obtain ⟨w, hw, hm⟩ := parts.decode_encode anyOf allOf
    exact ⟨w, hw, .node hm.anyOf hm.allOf hm.toAkin⟩

theorem Named.ofValue_encode {n : Named} {w : Value} (hn : n.name.truthy = true)
    (h : n.condition.encode = .ok w) :
    ∃ v, n.encode = .ok v ∧ ofValue v = .ok ⟨n.name, .decode w⟩ := by
  refine ⟨.object [("name", n.name), ("condition", w)], ?_, ?_⟩
  · rw [encode, h]
    rfl
  · have hmake : make n.name (.decode w) = .ok ⟨n.name, .decode w⟩ := by rw [make, hn]; rfl
    exact hmake

/-- Decoding makes regular conditions, and a regular condition is decoded again from what is written
of it, part by part as it was. So a value that is decoded, encoded and decoded again gives what it
gave at first. The same holds of a regular condition under a name. -/
theorem Condition.regular_round_trip :
    (∀ v, (decode v).Regular) ∧
    (∀ c : Condition, c.Regular →
      ∃ w, c.encode = .ok w ∧ c.Matches Eq Value.Reordered (decode w)) ∧
    (∀ v, ∃ w, (decode v).encode = .ok w ∧ (decode v).Matches Eq Value.Reordered (decode w)) ∧
    (∀ n : Named, n.name.truthy = true → n.condition.Regular →
      ∃ w d, n.encode = .ok w ∧ Named.ofValue w = .ok ⟨n.name, d⟩ ∧
        n.condition.Matches Eq Value.Reordered d) := by
  refine ⟨decode_regular, fun c h => h.matches_decode, fun v => (decode_regular v).matches_decode,
    fun n hn h => ?_⟩
  obtain ⟨w, hw, hm⟩ := h.matches_decode
  obtain ⟨v, hv, hd⟩ := Named.ofValue_encode hn hw
  exact ⟨v, _, hv, hd, hm⟩

/-- A node with a number in the place of its first group comes back with the number, which stands
behind the other field then. -/
theorem Condition.regular_round_trip_misfit :
    let p : Percent := ⟨.int 0, .plain (.str ""), .float .nan, .filled ⟨.null, .str "x"⟩⟩
    let n : Node Condition := { (Node.empty : Node Condition) with
      allOf := Group.loose .null
      never := .bool true
      percent := .filled p
      leftover := .object [("or", .int 3), ("note", .null)] }
    let c : Condition := .node (.ofAny [.node n, .node .empty])
    c.Regular ∧
      (∃ w, c.encode = .ok w ∧ c.Matches Eq Value.Reordered (decode w)) ∧
      ∃ w d, Named.encode ⟨.str "n", c⟩ = .ok w ∧ Named.ofValue w = .ok ⟨.str "n", d⟩ ∧
        c.Matches Eq Value.Reordered d := by
  intro p n c
  have hn : n.Regular := by
    refine ⟨.unset, .missing, Or.inl rfl, Or.inr rfl, .filled (.absent rfl) (.filled _),
      Or.inr ⟨_, by decide, rfl, ?_⟩⟩
    intro key hk v hv
    rcases Node.mem_variantKeys.mp hk with rfl | rfl | rfl | rfl | rfl <;> cases hv
    exact ⟨rfl, nofun, rfl⟩
  have hempty : (Node.empty : Node Condition).Regular :=
    ⟨.unset, .unset, Or.inl rfl, Or.inl rfl, .unset, Or.inl rfl⟩
  have hc : c.Regular := by
    refine .node ⟨.listed _, .unset, Or.inl rfl, Or.inl rfl, .unset, Or.inl rfl⟩ ?_ nofun
    refine List.forall_mem_cons.mpr ⟨.node hn nofun nofun, List.forall_mem_singleton.mpr ?_⟩
    exact .node hempty nofun nofun
  exact ⟨hc, regular_round_trip.2.1 c hc, regular_round_trip.2.2.2 ⟨.str "n", c⟩ rfl hc⟩

end Targeting
