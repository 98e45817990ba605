import Targeting.Numeral

/-!
What a field of an object is known by. Objects as written have text for keys; fields that are listed
as pairs may have any scalar. Keys equal in value are one key. Something that is no plain data can
be a key only if it is told from all else by a number.
-/

namespace Targeting

/-- What stands for an object that is no plain data: its text, and its number if it has one. -/
structure Token where
  text : String
  number : Option Nat
  deriving DecidableEq, Repr

inductive Key where
  | null
  | bool (b : Bool)
  | int (n : Int)
  | float (x : Binary64)
  | str (s : String)
  | foreign (text : String) (number : Nat)
  deriving DecidableEq, Repr

namespace Key

instance : Coe String Key := ⟨.str⟩

/-- The number a key counts as. -/
def numeral? : Key → Option Numeral
  | .bool b => some (.bool b)
  | .int n => some (.int n)
  | .float x => some (.float x)
  | _ => none

def same (a b : Key) : Bool :=
  match a.numeral?, b.numeral? with
  | some m, some n => m.same n
  | none, none => a == b
  | _, _ => false

@[simp] theorem same_self (a : Key) : a.same a = true := by
  cases a <;> simp [same, numeral?]

theorem same_comm (a b : Key) : a.same b = b.same a := by
  rw [Bool.eq_iff_iff]
  cases ha : a.numeral? <;> cases hb : b.numeral? <;> simp [same, ha, hb, Numeral.same_iff]
  all_goals exact eq_comm

theorem same_trans {a b c : Key} (h : a.same b = true) : a.same c = b.same c := by
  rw [Bool.eq_iff_iff]
  cases ha : a.numeral? <;> cases hb : b.numeral? <;> cases hc : c.numeral? <;>
    simp_all [same, Numeral.same_iff]

@[simp] theorem str_same {s : String} {k : Key} : (Key.str s).same k = decide (k = .str s) := by
  cases k with
  | str t => rw [Bool.eq_iff_iff]; simpa [same, numeral?] using eq_comm
  | _ => simp [same, numeral?]

@[simp] theorem same_str {s : String} {k : Key} : k.same (.str s) = decide (k = .str s) := by
  rw [same_comm, str_same]

end Key

end Targeting
