import Targeting.Proofs.Nesting

/-!
What decoding promises of every node. A group that is built lists its members or was never given
any, a test that is built has bounds of its own kind or none, and what is left over is an object or
nothing. The same holds of all members, so no part of a decoded condition is missing when it is
decided.
-/

namespace Targeting

inductive Range.WellFormed : Range → Prop where
  | unset : WellFormed .unset
  | filled (b : Bounds) : WellFormed (.filled b)

inductive Test.WellFormed : Test → Prop where
  | unset : WellFormed .unset
  | filled (p : Percent) (range : p.range.WellFormed) : WellFormed (.filled p)

inductive Group.WellFormed : Group Condition → Prop where
  | unset : WellFormed .unset
  | missing : WellFormed (Group.loose .null)
  | listed (cs : List Condition) : WellFormed (Group.of cs)

/-- A node of which every part is of its own kind, whatever its members are. -/
structure Node.WellFormed (n : Node Condition) : Prop where
  anyOf : Group.WellFormed n.anyOf
  allOf : Group.WellFormed n.allOf
  percent : n.percent.WellFormed
  leftover : n.leftover = .null ∨ ∃ fs, n.leftover = .object fs

inductive Condition.WellFormed : Condition → Prop where
  | node {n : Node Condition} (parts : n.WellFormed)
      (anyOf : ∀ c ∈ Group.listed n.anyOf, WellFormed c)
      (allOf : ∀ c ∈ Group.listed n.allOf, WellFormed c) : WellFormed (.node n)

namespace Condition.WellFormed

theorem ofTest {p : Percent} (h : p.range.WellFormed) : WellFormed (.node (.ofTest p)) :=
  .node ⟨.unset, .unset, .filled p h, Or.inl rfl⟩ nofun nofun

theorem ofAny {cs : List Condition} (h : ∀ c ∈ cs, c.WellFormed) : WellFormed (.node (.ofAny cs)) :=
  .node ⟨.listed cs, .unset, .unset, Or.inl rfl⟩ h nofun

theorem ofAll {cs : List Condition} (h : ∀ c ∈ cs, c.WellFormed) : WellFormed (.node (.ofAll cs)) :=
  .node ⟨.unset, .listed cs, .unset, Or.inl rfl⟩ nofun h

end Condition.WellFormed

/-! ### What decoding builds -/

theorem decodeGroup_wellFormed (v : Value) : (decodeGroup v).WellFormed := by
  cases v with
  | object fs =>
    rw [decodeGroup_object]
    cases Fields.get "conditions" fs with
    | null => exact .missing
    | array vs => exact .listed _
    | _ => exact .unset
  | _ => exact .unset

/-- Members of a decoded group are decoded from less deep values. -/
theorem mem_listed_decodeGroup {v : Value} {c : Condition} (h : c ∈ (decodeGroup v).listed) :
    ∃ w, c = .decode w ∧ w.height < v.height := by
  cases v with
  | object fs =>
    rw [decodeGroup_object] at h
    have hlt := Value.height_get_lt "conditions" fs
    cases hv : Fields.get "conditions" fs with
    | array vs =>
      rw [hv, decodeMembers, decodeAll_eq_map] at h
      obtain ⟨w, hw, rfl⟩ := List.mem_map.mp h
      have hle := Value.height_le_heightAll hw
      rw [hv, Value.height] at hlt
      exact ⟨w, rfl, by omega⟩
    | _ => rw [hv] at h; cases h
  | _ => cases h

namespace Node

theorem percentOf_wellFormed (v : Value) : (percentOf v).WellFormed := by
  cases v with
  | object fs =>
    refine .filled _ ?_
    change (Percent.rangeOf (Fields.get "microPercentRange" fs)).WellFormed
    cases Fields.get "microPercentRange" fs with
    | object gs => exact .filled _
    | _ => exact .unset
  | _ => exact .unset

theorem leftoverOf_eq (fs : Fields) : leftoverOf fs = .null ∨ ∃ gs, leftoverOf fs = .object gs := by
  unfold leftoverOf
  split
  · exact Or.inl rfl
  · exact Or.inr ⟨_, rfl⟩

theorem decode_wellFormed (v : Value) : (decode v).WellFormed := by
  cases v with
  | object fs =>
    rw [decode_object]
    exact ⟨decodeGroup_wellFormed _, decodeGroup_wellFormed _, percentOf_wellFormed _,
      leftoverOf_eq fs⟩
  | null => exact ⟨.unset, .unset, .unset, Or.inl rfl⟩
  | _ => exact ⟨.unset, .unset, .unset, Or.inr ⟨_, rfl⟩⟩

theorem mem_listed_decode {v : Value} {c : Condition}
    (h : c ∈ Group.listed (decode v).anyOf ∨ c ∈ Group.listed (decode v).allOf) :
    ∃ w, c = .decode w ∧ w.height < v.height := by
  cases v with
  | object fs =>
    rw [decode_object] at h
    rcases h with h | h
    · obtain ⟨w, hw, hlt⟩ := mem_listed_decodeGroup h
      exact ⟨w, hw, Nat.lt_trans hlt (Value.height_get_lt "or" fs)⟩
    · obtain ⟨w, hw, hlt⟩ := mem_listed_decodeGroup h
      exact ⟨w, hw, Nat.lt_trans hlt (Value.height_get_lt "and" fs)⟩
  | _ => rcases h with h | h <;> cases h

end Node

namespace Condition

/-- What holds of a decoded condition once it holds of the members of its groups holds of every
decoded condition. -/
theorem decode_induction {motive : Condition → Prop}
    (node : ∀ v, (∀ c ∈ Group.listed (Node.decode v).anyOf, motive c) →
      (∀ c ∈ Group.listed (Node.decode v).allOf, motive c) → motive (decode v)) (v : Value) :
    motive (decode v) := by
  induction v using Value.height_induction with
  | step v ih =>
    refine node v (fun c hc => ?_) fun c hc => ?_
    · obtain ⟨w, rfl, hlt⟩ := Node.mem_listed_decode (Or.inl hc)
      exact ih w hlt
    · obtain ⟨w, rfl, hlt⟩ := Node.mem_listed_decode (Or.inr hc)
      exact ih w hlt

/-- Whatever is decoded is well formed at every depth. -/
theorem decode_wellFormed (v : Value) : (decode v).WellFormed :=
  decode_induction (fun v anyOf allOf => .node (Node.decode_wellFormed v) anyOf allOf) v

end Condition

/-! ### What is found of it -/

theorem Group.WellFormed.conditions {g : Group Condition} (h : g.WellFormed)
    (hs : g.isSet = true) : g.conditions = .ok g.listed := by
  cases h with
  | unset => cases hs
  | missing => rfl
  | listed cs => rfl

/-- The members on which a well-formed node depends are listed in one of its groups. -/
theorem Node.WellFormed.listed_of_mem_members {n : Node Condition} (h : n.WellFormed)
    {c : Condition} (hc : c ∈ n.members) :
    c ∈ Group.listed n.anyOf ∨ c ∈ Group.listed n.allOf := by
  unfold members at hc
  split at hc
  · rename_i hv
    obtain ⟨hs, rfl⟩ := variant_eq_anyOf hv
    exact Or.inl (Group.visited_of_ok (h.anyOf.conditions hs) ▸ hc)
  · rename_i hv
    obtain ⟨-, hs, rfl⟩ := variant_eq_allOf hv
    exact Or.inr (Group.visited_of_ok (h.allOf.conditions hs) ▸ hc)
  · cases hc

theorem Condition.WellFormed.toNode {c : Condition} (h : c.WellFormed) : c.toNode.WellFormed := by
  cases h with
  | node parts _ _ => exact parts

theorem Condition.WellFormed.of_mem_members {c m : Condition} (h : c.WellFormed)
    (hm : m ∈ c.toNode.members) : m.WellFormed := by
  cases h with
  | node parts anyOf allOf =>
    rcases parts.listed_of_mem_members hm with hm | hm
    · exact anyOf m hm
    · exact allOf m hm

theorem Test.WellFormed.filled_of_isSet {t : Test} (h : t.WellFormed) (hs : t.isSet = true) :
    ∃ p : Percent, t = .filled p ∧ p.range.WellFormed := by
  cases h with
  | unset => cases hs
  | filled p range => exact ⟨p, rfl, range⟩

namespace Percent

/-- A test whose bounds are its own always comes to a verdict, if only that it has no answer. -/
theorem verdict_of_wellFormed {p : Percent} (h : p.range.WellFormed) (bucket : Numeral) :
    ∃ answer, p.verdict bucket = .ok answer := by
  have hrange : ∃ answer, p.range.contains? bucket.toNumber = .ok answer := by
    cases hr : p.range with
    | plain v => rw [hr] at h; cases h; exact ⟨_, rfl⟩
    | filled b => exact ⟨_, Range.contains?_filled b _⟩
    | foreign x => rw [hr] at h; cases h
  unfold verdict
  dsimp only
  split
  · exact ⟨_, rfl⟩
  · exact ⟨_, rfl⟩
  · exact hrange
  · exact ⟨_, rfl⟩

theorem encode_of_wellFormed {p : Percent} (h : p.range.WellFormed) :
    ∃ v, p.encode = .ok v := by
  unfold encode
  cases hr : p.range with
  | plain v => rw [hr] at h; cases h; exact ⟨_, rfl⟩
  | filled b => exact ⟨_, rfl⟩
  | foreign x => rw [hr] at h; cases h

end Percent

namespace Node

variable {n : Node Condition}

theorem variant_eq_percent {t : Test} (h : n.variant = .percent t) :
    t = n.percent ∧ n.percent.isSet = true := by
  unfold variant at h
  repeat' split at h
  all_goals cases h
  exact ⟨rfl, by assumption⟩

/-- A node that means nothing is written as what it has left over. -/
theorem encode_of_unknown (h : n.variant = .unknown) :
    n.encode = (if n.leftover.truthy then n.leftover.toFields else .ok []).map .object := by
  obtain ⟨anyOf, allOf, always, never, percent, leftover⟩ := n
  unfold variant at h
  repeat' split at h
  all_goals cases h
  rename_i ha hb hc hd he
  dsimp only at ha hb hc hd he
  simp only [encode, ha, hb, hc, hd, he]
  split
  · cases leftover.toFields <;> rfl
  · rfl

theorem WellFormed.encode_of_unknown (hn : n.WellFormed) (h : n.variant = .unknown) :
    ∃ v, n.encode = .ok v := by
  rw [Node.encode_of_unknown h]
  rcases hn.leftover with hl | ⟨fs, hl⟩
  · exact ⟨.object [], by rw [hl]; rfl⟩
  · rw [hl]
    split
    · exact ⟨_, rfl⟩
    · exact ⟨_, rfl⟩

end Node

end Targeting
