import MachineSpec.Log

/-!
# Computations that come to a value

What a computation that may fail comes to, told from its parts: a sequence comes to a value if each
step does.

* `exists_of_bind`, `bind_ok`   the first step of a sequence that comes to a value
* `exists_of_outcome_bind`, `exists_of_outcome_map`   the same with reports on the way
* `Accepted`         a computation, with reports on the way, that comes to a value
* `accepted_bind`, `accepted_map`, `accepted_mapM`   when a sequence of them does
* `fault?`           the error that a computation comes to instead
* `fault?_bind`, `fault?_map`, `fault?_mapM`   which one that is for a sequence
-/

namespace MachineSpec

open Logged (outcome)

theorem exists_of_bind {ε α β : Type} {x : Except ε α} {f : α → Except ε β} {b : β}
    (h : x >>= f = .ok b) : ∃ a, x = .ok a ∧ f a = .ok b := by
  cases x with
  | error e => cases h
  | ok a => exact ⟨a, rfl, h⟩

theorem bind_ok {ε α β : Type} {x : Except ε α} {f : α → Except ε β} {a : α} {y : Except ε β}
    (h : x = .ok a) (hf : f a = y) : x >>= f = y := by
  rw [h]
  exact hf

section outcome
variable {ε ε' α β : Type}

theorem exists_of_outcome_bind {x : ExceptT ε Logged α} {f : α → ExceptT ε Logged β} {b : β}
    (h : outcome (x >>= f) = .ok b) : ∃ a, outcome x = .ok a ∧ outcome (f a) = .ok b := by
  rw [Logged.outcome_bind] at h
  exact exists_of_bind h

theorem exists_of_outcome_map {f : α → β} {x : ExceptT ε Logged α} {b : β}
    (h : outcome (f <$> x) = .ok b) : ∃ a, outcome x = .ok a ∧ f a = b := by
  rw [Logged.outcome_map] at h
  cases hx : outcome x with
  | error e =>
    rw [hx] at h
    cases h
  | ok a =>
    rw [hx] at h
    exact ⟨a, rfl, Except.ok.inj h⟩

theorem of_outcome_adapt {f : ε → ε'} {x : ExceptT ε Logged α} {a : α}
    (h : outcome (x.adapt f) = .ok a) : outcome x = .ok a := by
  rw [Logged.outcome_adapt] at h
  cases hx : outcome x with
  | error e =>
    rw [hx] at h
    cases h
  | ok b =>
    rw [hx] at h
    cases h
    rfl

end outcome

section accepted
variable {ε ε' α β : Type}

/-- the computation comes to a value -/
def Accepted (x : ExceptT ε Logged α) : Prop := ∃ a, outcome x = .ok a

theorem accepted_pure (a : α) : Accepted (pure a : ExceptT ε Logged α) := ⟨a, rfl⟩

theorem not_accepted_throw (e : ε) : ¬ Accepted (throw e : ExceptT ε Logged α) := by
  rintro ⟨a, h⟩
  cases h

theorem accepted_bind {x : ExceptT ε Logged α} {f : α → ExceptT ε Logged β} :
    Accepted (x >>= f) ↔ ∃ a, outcome x = .ok a ∧ Accepted (f a) := by
  unfold Accepted
  rw [Logged.outcome_bind]
  cases hx : outcome x with
  | error e => exact ⟨fun ⟨_, h⟩ => (by cases h), fun ⟨_, h, _⟩ => (by cases h)⟩
  | ok a =>
    constructor
    · exact fun h => ⟨a, rfl, h⟩
    · rintro ⟨a', h, hf⟩
      cases h
      exact hf

/-- what follows need not depend on the value that a computation comes to -/
theorem accepted_bind_iff {x : ExceptT ε Logged α} {f : α → ExceptT ε Logged β} {p : Prop}
    (h : ∀ a, Accepted (f a) ↔ p) : Accepted (x >>= f) ↔ Accepted x ∧ p := by
  rw [accepted_bind]
  simp only [h]
  exact ⟨fun ⟨a, ha, hp⟩ => ⟨⟨a, ha⟩, hp⟩, fun ⟨⟨a, ha⟩, hp⟩ => ⟨a, ha, hp⟩⟩

/-- a check, and what follows it -/
theorem accepted_check {x : ExceptT ε Logged Unit} {f : Unit → ExceptT ε Logged β} :
    Accepted (x >>= f) ↔ Accepted x ∧ Accepted (f ()) :=
  accepted_bind_iff fun _ => Iff.rfl

theorem accepted_map {f : α → β} {x : ExceptT ε Logged α} : Accepted (f <$> x) ↔ Accepted x := by
  unfold Accepted
  rw [Logged.outcome_map]
  cases outcome x with
  | error e => exact ⟨fun ⟨_, h⟩ => (by cases h), fun ⟨_, h⟩ => (by cases h)⟩
  | ok a => exact ⟨fun _ => ⟨a, rfl⟩, fun _ => ⟨f a, rfl⟩⟩

/-- what is done with the value that a computation comes to need not matter -/
theorem accepted_bind_pure {f : α → β} {x : ExceptT ε Logged α} :
    Accepted (x >>= fun a => pure (f a)) ↔ Accepted x := by
  rw [bind_pure_comp]
  exact accepted_map

theorem accepted_adapt {f : ε → ε'} {x : ExceptT ε Logged α} :
    Accepted (x.adapt f) ↔ Accepted x := by
  unfold Accepted
  rw [Logged.outcome_adapt]
  cases outcome x with
  | error e => exact ⟨fun ⟨_, h⟩ => (by cases h), fun ⟨_, h⟩ => (by cases h)⟩
  | ok a => exact ⟨fun _ => ⟨a, rfl⟩, fun _ => ⟨a, rfl⟩⟩

theorem accepted_mapM {f : α → ExceptT ε Logged β} {as : List α} :
    Accepted (as.mapM f) ↔ ∀ a ∈ as, Accepted (f a) := by
  induction as with
  | nil => exact ⟨fun _ _ h => absurd h List.not_mem_nil, fun _ => ⟨[], rfl⟩⟩
  | cons a as ih =>
    rw [List.mapM_cons, List.forall_mem_cons, ← ih]
    exact accepted_bind_iff fun _ => accepted_bind_pure

end accepted

section fault
variable {ε ε' α β : Type}

/-- the error that a computation, with reports on the way, comes to -/
def fault? (x : ExceptT ε Logged α) : Option ε :=
  match outcome x with
  | .ok _ => none
  | .error e => some e

theorem fault?_of_ok {x : ExceptT ε Logged α} {a : α} (h : outcome x = .ok a) :
    fault? x = none := by
  unfold fault?
  rw [h]

theorem fault?_of_error {x : ExceptT ε Logged α} {e : ε} (h : outcome x = .error e) :
    fault? x = some e := by
  unfold fault?
  rw [h]

theorem fault?_eq_some {x : ExceptT ε Logged α} {e : ε} :
    fault? x = some e ↔ outcome x = .error e := by
  unfold fault?
  cases outcome x with
  | ok a => exact ⟨nofun, nofun⟩
  | error e' => exact ⟨fun h => congrArg _ (Option.some.inj h), fun h => by cases h; rfl⟩

/-- the error of a sequence is that of its first step, or else that of the rest -/
theorem fault?_bind {x : ExceptT ε Logged α} {f : α → ExceptT ε Logged β} {y : Option ε}
    (h : ∀ a, outcome x = .ok a → fault? (f a) = y) : fault? (x >>= f) = (fault? x).or y := by
  have hbind := Logged.outcome_bind x f
  cases hx : outcome x with
  | error e =>
    rw [hx] at hbind
    rw [fault?_of_error hbind, fault?_of_error hx]
    rfl
  | ok a =>
    rw [hx] at hbind
    rw [fault?_of_ok hx, Option.none_or, ← h a hx]
    unfold fault?
    rw [hbind]
    rfl

theorem fault?_map {f : α → β} {x : ExceptT ε Logged α} : fault? (f <$> x) = fault? x := by
  unfold fault?
  rw [Logged.outcome_map]
  cases outcome x <;> rfl

theorem fault?_bind_pure {f : α → β} {x : ExceptT ε Logged α} :
    fault? (x >>= fun a => pure (f a)) = fault? x := by
  rw [bind_pure_comp]
  exact fault?_map

theorem fault?_adapt {f : ε → ε'} {x : ExceptT ε Logged α} :
    fault? (x.adapt f) = (fault? x).map f := by
  unfold fault?
  rw [Logged.outcome_adapt]
  cases outcome x <;> rfl

theorem findSome?_cons_or (f : α → Option β) (a : α) (as : List α) :
    (a :: as).findSome? f = (f a).or (as.findSome? f) := by
  rw [List.findSome?_cons]
  cases f a <;> rfl

/-- the error of a row of computations is the first one -/
theorem fault?_mapM {f : α → ExceptT ε Logged β} {as : List α} :
    fault? (as.mapM f) = as.findSome? fun a => fault? (f a) := by
  induction as with
  | nil => rfl
  | cons a as ih =>
    rw [List.mapM_cons, fault?_bind fun _ _ => fault?_bind_pure, ih, findSome?_cons_or]

end fault

end MachineSpec
