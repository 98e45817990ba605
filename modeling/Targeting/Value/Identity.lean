import Targeting.Value

/-!
Whether two values are the same value, decided part by part.
-/

namespace Targeting.Value

mutual

def identical : Value → Value → Bool
  | .null, .null => true
  | .bool a, .bool b => a == b
  | .int a, .int b => a == b
  | .float a, .float b => a == b
  | .str a, .str b => a == b
  | .array vs, .array ws => identicalAll vs ws
  | .object fs, .object gs => identicalFields fs gs
  | .foreign a, .foreign b => a == b
  | _, _ => false

def identicalAll : List Value → List Value → Bool
  | [], [] => true
  | v :: vs, w :: ws => identical v w && identicalAll vs ws
  | _, _ => false

def identicalFields : List (Key × Value) → List (Key × Value) → Bool
  | [], [] => true
  | (k, v) :: fs, (l, w) :: gs => k == l && identical v w && identicalFields fs gs
  | _, _ => false

end

mutual

theorem identical_iff : (v w : Value) → (identical v w = true ↔ v = w)
  | .null, w => by cases w <;> simp [identical]
  | .bool _, w => by cases w <;> simp [identical]
  | .int _, w => by cases w <;> simp [identical]
  | .float _, w => by cases w <;> simp [identical]
  | .str _, w => by cases w <;> simp [identical]
  | .array vs, w => by cases w <;> simp [identical, identicalAll_iff vs]
  | .object fs, w => by cases w <;> simp [identical, identicalFields_iff fs]
  | .foreign _, w => by cases w <;> simp [identical]

theorem identicalAll_iff : (vs ws : List Value) → (identicalAll vs ws = true ↔ vs = ws)
  | [], ws => by cases ws <;> simp [identicalAll]
  | v :: vs, ws => by cases ws <;> simp [identicalAll, identical_iff v, identicalAll_iff vs]

theorem identicalFields_iff :
    (fs gs : List (Key × Value)) → (identicalFields fs gs = true ↔ fs = gs)
  | [], gs => by cases gs <;> simp [identicalFields]
  | (k, v) :: fs, gs => by
    cases gs with
    | nil => simp [identicalFields]
    | cons g gs =>
      obtain ⟨l, w⟩ := g
      simp [identicalFields, identical_iff v, identicalFields_iff fs, and_assoc]

end

instance : DecidableEq Value := fun v w =>
  decidable_of_iff (identical v w = true) (identical_iff v w)

end Targeting.Value
