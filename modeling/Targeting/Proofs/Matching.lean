import Targeting.Proofs.Nesting
import Mathlib.Data.List.Forall2

/-!
Conditions compared part by part. Two of them match if they are built alike and differ only in their
percent tests and in what they have left over, and in these as far as given relations allow. What
decides one of two matching nodes then decides the other.
-/

namespace Targeting

inductive Group.Matches (R : Condition → Condition → Prop) :
    Group Condition → Group Condition → Prop where
  | same (g : Group Condition) : Matches R g g
  | listed {cs ds : List Condition} (h : List.Forall₂ R cs ds) :
    Matches R (Group.of cs) (Group.of ds)

/-- Nodes that are alike beside their groups. -/
structure Node.Akin (T : Test → Test → Prop) (L : Value → Value → Prop) (n m : Node Condition) :
    Prop where
  always : m.always = n.always
  never : m.never = n.never
  percent : T n.percent m.percent
  leftover : L n.leftover m.leftover

structure Node.Matches (R : Condition → Condition → Prop) (T : Test → Test → Prop)
    (L : Value → Value → Prop) (n m : Node Condition) : Prop extends Node.Akin T L n m where
  anyOf : Group.Matches R n.anyOf m.anyOf
  allOf : Group.Matches R n.allOf m.allOf

/-- Matching conditions: `T` relates their tests and `L` what their nodes have left over. -/
inductive Condition.Matches (T : Test → Test → Prop) (L : Value → Value → Prop) :
    Condition → Condition → Prop where
  | same (c : Condition) : Matches T L c c
  | node {n m : Node Condition} (anyOf : Group.Matches (Matches T L) n.anyOf m.anyOf)
    (allOf : Group.Matches (Matches T L) n.allOf m.allOf) (rest : Node.Akin T L n m) :
    Matches T L (.node n) (.node m)

inductive Variant.Matches (R : Condition → Condition → Prop) (T : Test → Test → Prop) :
    Variant Condition → Variant Condition → Prop where
  | anyOf {g k : Group Condition} (h : g.Matches R k) : Matches R T (.anyOf g) (.anyOf k)
  | allOf {g k : Group Condition} (h : g.Matches R k) : Matches R T (.allOf g) (.allOf k)
  | always : Matches R T .always .always
  | never : Matches R T .never .never
  | percent {s t : Test} (h : T s t) : Matches R T (.percent s) (.percent t)
  | unknown : Matches R T .unknown .unknown

variable {R : Condition → Condition → Prop} {T : Test → Test → Prop} {L : Value → Value → Prop}

namespace Group

variable {g k : Group Condition}

theorem Matches.isSet (h : g.Matches R k) : k.isSet = g.isSet := by
  cases h <;> rfl

/-- What evaluations of two matching groups visit matches one by one; where one has nothing to
visit, neither has the other. -/
theorem Matches.conditions (h : g.Matches R k) (hR : ∀ c, R c c) :
    (∃ f, g.conditions = .error f ∧ k.conditions = .error f) ∨
      ∃ cs ds, g.conditions = .ok cs ∧ k.conditions = .ok ds ∧ List.Forall₂ R cs ds := by
  cases h with
  | same =>
    cases hg : g.conditions with
    | error f => exact Or.inl ⟨f, rfl, rfl⟩
    | ok cs => exact Or.inr ⟨cs, cs, rfl, rfl, List.forall₂_same.mpr fun c _ => hR c⟩
  | listed h => exact Or.inr ⟨_, _, rfl, rfl, h⟩

theorem Matches.visited (h : g.Matches R k) (hR : ∀ c, R c c) :
    List.Forall₂ R g.visited k.visited := by
  rcases h.conditions hR with ⟨f, hg, hk⟩ | ⟨cs, ds, hg, hk, hall⟩
  · unfold Group.visited
    rw [hg, hk]
    exact .nil
  · rw [visited_of_ok hg, visited_of_ok hk]
    exact hall

end Group

namespace Node

variable {n m : Node Condition}

theorem Matches.refl (hT : ∀ t, T t t) (hL : ∀ v, L v v) (n : Node Condition) :
    n.Matches R T L n :=
  ⟨⟨rfl, rfl, hT _, hL _⟩, .same _, .same _⟩

/-- Nodes of which the same variants are set mean matching things. -/
theorem variant_matches (ha : Group.Matches R n.anyOf m.anyOf)
    (hb : Group.Matches R n.allOf m.allOf) (hc : m.always.truthy = n.always.truthy)
    (hd : m.never.truthy = n.never.truthy) (he : m.percent.isSet = n.percent.isSet)
    (hT : n.percent.isSet = true → T n.percent m.percent) :
    n.variant.Matches R T m.variant := by
  unfold Node.variant
  rw [ha.isSet, hb.isSet, hc, hd, he]
  split
  · exact .anyOf ha
  split
  · exact .allOf hb
  split
  · exact .always
  split
  · exact .never
  split
  · exact .percent (hT ‹_›)
  · exact .unknown

theorem Matches.variant (h : n.Matches R T L m) (hT : ∀ s t, T s t → t.isSet = s.isSet) :
    n.variant.Matches R T m.variant :=
  variant_matches h.anyOf h.allOf (by rw [h.always]) (by rw [h.never]) (hT _ _ h.percent)
    fun _ => h.percent

theorem Matches.members (h : n.Matches R T L m) (hR : ∀ c, R c c)
    (hT : ∀ s t, T s t → t.isSet = s.isSet) : List.Forall₂ R n.members m.members := by
  have hv := h.variant hT
  unfold Node.members
  generalize n.variant = v at hv
  generalize m.variant = w at hv
  cases hv with
  | anyOf h => exact h.visited hR
  | allOf h => exact h.visited hR
  | _ => exact .nil

end Node

namespace Condition

theorem Matches.toNode {c d : Condition} (h : c.Matches T L d) (hT : ∀ t, T t t)
    (hL : ∀ v, L v v) : c.toNode.Matches (Matches T L) T L d.toNode := by
  cases h with
  | same => exact .refl hT hL _
  | node anyOf allOf rest => exact ⟨rest, anyOf, allOf⟩

end Condition

/-! ### Heights -/

theorem heightAll_eq_of_forall₂ {cs ds : List Condition} (h : List.Forall₂ R cs ds)
    (hR : ∀ c ∈ cs, ∀ d, R c d → d.height = c.height) : heightAll ds = heightAll cs := by
  induction h with
  | nil => rfl
  | cons hd _ ih =>
    rw [heightAll, heightAll, hR _ List.mem_cons_self _ hd,
      ih fun c hc => hR c (List.mem_cons_of_mem _ hc)]

theorem Group.Matches.height_eq {g k : Group Condition} (h : g.Matches R k)
    (hR : ∀ c ∈ g.listed, ∀ d, R c d → d.height = c.height) : k.height = g.height := by
  cases h with
  | same => rfl
  | listed h => exact congrArg (· + 1) (heightAll_eq_of_forall₂ h hR)

/-- Matching conditions are equally deep. -/
theorem Condition.Matches.height_eq {c d : Condition} (h : c.Matches T L d) :
    d.height = c.height := by
  induction c using Condition.induction generalizing d with
  | plain v => cases h; rfl
  | foreign x => cases h; rfl
  | node n anyOf allOf =>
    cases h with
    | same => rfl
    | node ha hb rest =>
      rw [Condition.height, Condition.height, ha.height_eq fun c hc _ hd => anyOf c hc hd,
        hb.height_eq fun c hc _ hd => allOf c hc hd]

end Targeting
