import MachineSpec.Format
import MachineSpec.Reference.Kind

/-!
# Log

What reading and writing a specification report on the way, and computations that carry their
report along.

* `Log.Entry`            one report
* `Log.Entry.level`, `target`, `message`   how it is shown
* `Logged`               a value together with the reports made on the way to it
* `Logged.tell`          one report
* `Logged.outcome`       what a computation that may fail comes to, its reports aside
* `Logged.reports`       the reports that it makes, whatever it comes to
-/

namespace MachineSpec

namespace Log

inductive Entry where
  | decoding (format : Format) (size : Nat)
  | decodingStream (format : Format)
  | encoding (format : Format)
  | selected (kind : Kind) (selector : String)
  | resolved (kind : Kind) (selector : String)
  deriving DecidableEq, Repr

namespace Entry

def level : Entry → String
  | .decoding .. | .decodingStream .. | .encoding .. => "DEBUG"
  | .selected .. | .resolved .. => "TRACE"

/-- the part of the program that reports -/
def target : Entry → String
  | .decoding f _ | .decodingStream f | .encoding f => "vmspec::" ++ f.name
  | .selected .. | .resolved .. => "vmspec::resolver"

def message : Entry → String
  | .decoding f n => "decoding " ++ f.name ++ " spec (" ++ toString n ++ " bytes)"
  | .decodingStream f => "decoding " ++ f.name ++ " spec from stream"
  | .encoding f => "encoding " ++ f.name ++ " spec"
  | .selected k s => k.name ++ " selected by " ++ s
  | .resolved k s => k.name ++ " resolved by " ++ s

end Entry

end Log

/-- a value together with the reports made on the way to it -/
structure Logged (α : Type) where
  value : α
  log : List Log.Entry

namespace Logged
variable {α β : Type}

instance : Monad Logged where
  pure a := ⟨a, []⟩
  bind x f := ⟨(f x.value).value, x.log ++ (f x.value).log⟩

def tell (e : Log.Entry) : Logged Unit := ⟨(), [e]⟩

@[simp] theorem value_pure (a : α) : (pure a : Logged α).value = a := rfl
@[simp] theorem log_pure (a : α) : (pure a : Logged α).log = [] := rfl
@[simp] theorem value_bind (x : Logged α) (f : α → Logged β) :
    (x >>= f).value = (f x.value).value := rfl
@[simp] theorem log_bind (x : Logged α) (f : α → Logged β) :
    (x >>= f).log = x.log ++ (f x.value).log := rfl
@[simp] theorem value_map (f : α → β) (x : Logged α) : (f <$> x).value = f x.value := rfl
@[simp] theorem log_map (f : α → β) (x : Logged α) : (f <$> x).log = x.log := by
  show x.log ++ [] = x.log
  simp
@[simp] theorem log_tell (e : Log.Entry) : (tell e).log = [e] := rfl

theorem ext {x y : Logged α} (hv : x.value = y.value) (hl : x.log = y.log) : x = y := by
  cases x; cases y; simp_all

instance : LawfulMonad Logged :=
  LawfulMonad.mk' Logged (fun _ => ext rfl (by simp)) (fun _ _ => ext rfl (by simp))
    (fun _ _ _ => ext rfl (by simp))

@[simp] theorem value_mapM (f : α → Logged β) (xs : List α) :
    (xs.mapM f).value = xs.map fun a => (f a).value := by
  induction xs with
  | nil => rfl
  | cons a xs ih => simp [List.mapM_cons, ih]

@[simp] theorem log_mapM (f : α → Logged β) (xs : List α) :
    (xs.mapM f).log = xs.flatMap fun a => (f a).log := by
  induction xs with
  | nil => rfl
  | cons a xs ih => simp [List.mapM_cons, ih]

/-! ## computations that may fail -/

section outcome
variable {ε ε' : Type}

/-- what a computation that may fail comes to, its reports aside -/
def outcome (x : ExceptT ε Logged α) : Except ε α := x.run.value

@[simp] theorem outcome_bind (x : ExceptT ε Logged α) (f : α → ExceptT ε Logged β) :
    outcome (x >>= f) = (outcome x).bind fun a => outcome (f a) := by
  show (ExceptT.bindCont f x.value).value = _
  unfold outcome ExceptT.run
  cases x.value <;> rfl

@[simp] theorem outcome_map (f : α → β) (x : ExceptT ε Logged α) :
    outcome (f <$> x) = (outcome x).map f := by
  unfold outcome
  rw [ExceptT.run_map, value_map]

@[simp] theorem outcome_adapt (f : ε → ε') (x : ExceptT ε Logged α) :
    outcome (x.adapt f) = (outcome x).mapError f := rfl

theorem outcome_mapM_cons (f : α → ExceptT ε Logged β) (a : α) (as : List α) :
    outcome ((a :: as).mapM f) =
      (outcome (f a)).bind fun b => (outcome (as.mapM f)).map (b :: ·) := by
  rw [List.mapM_cons, outcome_bind]
  congr 1
  funext b
  rw [outcome_bind]
  cases outcome (as.mapM f) <;> rfl

/-- the reports that a computation that may fail makes, whatever it comes to -/
def reports (x : ExceptT ε Logged α) : List Log.Entry := x.run.log

/-- what follows reports only if the first step comes to a value -/
theorem reports_bind (x : ExceptT ε Logged α) (f : α → ExceptT ε Logged β) :
    reports (x >>= f) = reports x ++ match outcome x with
      | .ok a => reports (f a)
      | .error _ => [] := by
  show x.log ++ (ExceptT.bindCont f x.value).log = _
  unfold outcome reports ExceptT.run
  cases x.value <;> rfl

@[simp] theorem reports_map (f : α → β) (x : ExceptT ε Logged α) :
    reports (f <$> x) = reports x := by
  unfold reports
  rw [ExceptT.run_map, log_map]

@[simp] theorem reports_adapt (f : ε → ε') (x : ExceptT ε Logged α) :
    reports (x.adapt f) = reports x := log_map (Except.mapError f) x.run

end outcome

end Logged

end MachineSpec
