import Targeting.Fault

/-!
What a run leaves behind: its outcome, the texts it had hashed and the records it wrote. A run that
fails keeps what it hashed and wrote before; what would have followed it contributes nothing.
-/

namespace Targeting

inductive Record where
  | initialized (fingerprinter : String)
  | evaluated (count : Nat) (instanceId : Value)
  | depthExceeded (limit : Numeral)
  | percentRejected (condition : Value)
  | unknownCondition (condition : Value)
  deriving DecidableEq, Repr

inductive Level where
  | debug
  | info
  | warning
  deriving DecidableEq, Repr

namespace Record

def level : Record → Level
  | .depthExceeded _ => .warning
  | .unknownCondition _ => .info
  | _ => .debug

def message : Record → String
  | .initialized _ => "ConditionEvaluator initialized"
  | .evaluated _ _ => "Evaluated named conditions"
  | .depthExceeded _ => "Evaluating condition to false because it exceeded maximum depth"
  | .percentRejected _ => "Percent condition cannot be evaluated"
  | .unknownCondition _ => "Evaluating unknown condition %s to false"

/-- What a record tells beside its message. -/
def details : Record → Fields
  | .initialized name => [("fingerprinter", .str name)]
  | .evaluated count id => [("count", .int count), ("instance_id", id)]
  | .depthExceeded limit => [("max_depth", .ofNumeral limit)]
  | .percentRejected c | .unknownCondition c => [("condition", c)]

end Record

structure Run (α : Type) where
  outcome : Except Fault α
  hashed : List String
  log : List Record

namespace Run

variable {α β : Type}

@[ext] theorem ext {r s : Run α} (ho : r.outcome = s.outcome) (hh : r.hashed = s.hashed)
    (hl : r.log = s.log) : r = s := by
  cases r; cases s; simp_all

def done (a : α) : Run α := ⟨.ok a, [], []⟩

def fail (f : Fault) : Run α := ⟨.error f, [], []⟩

def note (r : Record) : Run Unit := ⟨.ok (), [], [r]⟩

def hash (text : String) : Run Unit := ⟨.ok (), [text], []⟩

def ofExcept : Except Fault α → Run α
  | .ok a => done a
  | .error f => fail f

/-- Goes on with a run's answer, after all that it hashed and wrote. -/
def andThen (r : Run α) (f : α → Run β) : Run β :=
  match r.outcome with
  | .ok a =>
    let s := f a
    ⟨s.outcome, r.hashed ++ s.hashed, r.log ++ s.log⟩
  | .error e => ⟨.error e, r.hashed, r.log⟩

instance : Monad Run where
  pure := done
  bind := andThen

instance : LawfulMonad Run := LawfulMonad.mk' Run
  (by rintro α ⟨_ | _, _, _⟩ <;> simp [Functor.map, andThen, done])
  (by intro α β x f; simp [Bind.bind, Pure.pure, andThen, done])
  (by
    rintro α β γ ⟨_ | a, h, l⟩ f g
    · rfl
    · cases hf : (f a).outcome <;> simp [Bind.bind, andThen, hf])

@[simp] theorem pure_eq (a : α) : (pure a : Run α) = ⟨.ok a, [], []⟩ := rfl

@[simp] theorem mk_ok_bind (a : α) (h : List String) (l : List Record) (f : α → Run β) :
    (Run.mk (.ok a) h l >>= f) = ⟨(f a).outcome, h ++ (f a).hashed, l ++ (f a).log⟩ := rfl

@[simp] theorem mk_error_bind (e : Fault) (h : List String) (l : List Record) (f : α → Run β) :
    (Run.mk (.error e) h l >>= f) = ⟨.error e, h, l⟩ := rfl

@[simp] theorem fail_bind (e : Fault) (f : α → Run β) : (fail e >>= f) = fail e := rfl

theorem note_bind (r : Record) (f : Unit → Run β) :
    (note r >>= f) = ⟨(f ()).outcome, (f ()).hashed, r :: (f ()).log⟩ := rfl

theorem hash_bind (text : String) (f : Unit → Run β) :
    (hash text >>= f) = ⟨(f ()).outcome, text :: (f ()).hashed, (f ()).log⟩ := rfl

end Run

end Targeting
