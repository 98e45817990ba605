import Targeting.Number

/-!
Numbers as they are written: an integer, a binary64 number, or a truth value that counts as zero or
one. All lie on the one line of `Number`. Arithmetic keeps integers exact and rounds to binary64
where it is given such a number.
-/

namespace Targeting

inductive Numeral where
  | bool (b : Bool)
  | int (n : Int)
  | float (x : Binary64)
  deriving DecidableEq, Repr

namespace Numeral

instance : Coe Int Numeral := ⟨.int⟩

def toNumber : Numeral → Number
  | .bool b => .ofInt b.toInt
  | .int n => .ofInt n
  | .float x => x.toNumber

/-- What same numerals have in common: their number, or the bits where they are no number. -/
def place : Numeral → Number × Option Binary64
  | .bool b => (.ofInt b.toInt, none)
  | .int n => (.ofInt n, none)
  | .float x => if x.isNaN then (.nan, some x) else (x.toNumber, none)

/-- Equal as numbers; what is no number is the same only as itself. -/
def same (a b : Numeral) : Bool := a.place == b.place

theorem same_iff {a b : Numeral} : a.same b = true ↔ a.place = b.place := by
  simp [same]

@[simp] theorem same_self (a : Numeral) : a.same a = true := by simp [same]

/-- One more. -/
def succ : Numeral → Numeral
  | .bool b => .int (b.toInt + 1)
  | .int n => .int (n + 1)
  | .float x =>
    match x.toNumber with
    | .finite q => .float (.ofRat (q + 1))
    | _ => .float x

/-- The remainder of a natural number, taken towards the floor so that it has the sign of the
modulus. None where the modulus is zero. -/
def remainder? (n : Nat) : Numeral → Option Numeral
  | .bool b => if b then some (.int 0) else none
  | .int m => if m = 0 then none else some (.int (Int.fmod n m))
  | .float m =>
    let x := Binary64.ofRat n
    match m.toNumber, x.toNumber with
    | .finite q, .finite p =>
      if q = 0 then none
      else
        let r := p - q * (p / q).floor
        some (.float (if r = 0 then .zero m.isNegative else .ofRat r))
    | .posInf, _ => some (.float x)
    | .negInf, _ => some (.float (if n = 0 then .zero true else m))
    | _, _ => some (.float m)

theorem remainder?_int {n : Nat} {m : Int} (h : m ≠ 0) :
    remainder? n (.int m) = some (.int (Int.fmod n m)) := by
  simp [remainder?, h]

/-- A modulus above zero leaves a remainder that is a number. -/
theorem remainder?_of_pos {m : Numeral} (h : (Number.ofInt 0).lt m.toNumber = true) (n : Nat) :
    ∃ r, remainder? n m = some r ∧ r.toNumber ≠ .nan := by
  cases m with
  | bool b =>
    cases b with
    | true => exact ⟨.int 0, rfl, nofun⟩
    | false => exact absurd h (by decide)
  | int m =>
    have hm : m ≠ 0 := by
      rintro rfl
      exact absurd h (by decide)
    exact ⟨_, remainder?_int hm, nofun⟩
  | float m =>
    have hfloat (x : Binary64) (hx : x.isNaN = false) : (Numeral.float x).toNumber ≠ .nan := by
      rw [toNumber, ne_eq, Binary64.toNumber_eq_nan, hx]
      decide
    have hzero (negative : Bool) : (Binary64.zero negative).isNaN = false :=
      Binary64.isNaN_withSign (Nat.zero_le _)
    have hm : (Numeral.float m).toNumber ≠ .nan := by
      intro hm
      rw [hm] at h
      exact absurd h (by decide)
    rw [toNumber] at h
    unfold remainder?
    dsimp only
    split
    · rename_i q p hq hp
      have hq : q ≠ 0 := by
        rintro rfl
        rw [hq] at h
        exact absurd h (by decide)
      rw [if_neg hq]
      refine ⟨_, rfl, hfloat _ ?_⟩
      split
      · exact hzero _
      · exact Binary64.isNaN_ofRat _
    · exact ⟨_, rfl, hfloat _ (Binary64.isNaN_ofRat _)⟩
    · rename_i hq
      rw [hq] at h
      exact absurd h (by decide)
    · exact ⟨_, rfl, hm⟩

end Numeral

end Targeting
