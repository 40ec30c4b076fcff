/-!
# Runs of characters

Where a run of characters of a class ends: at the first character of another class, or with the
text.

* `takeWhile_run`, `dropWhile_run`   the run in front, and what follows it
* `takeWhile_stop`, `dropWhile_stop`   the same where a character of another class is at hand
* `exists_run`                       every list is a run and what stops it
-/

namespace MachineSpec.Text
variable {α : Type} {p : α → Bool} {run rest : List α}

/-- no element of the class comes first -/
def Stops (p : α → Bool) (rest : List α) : Prop := ∀ x, rest.head? = some x → p x = false

theorem stops_nil : Stops p [] := fun _ h => by cases h

theorem stops_cons {x : α} (h : p x = false) : Stops p (x :: rest) := fun y hy => by
  cases hy
  exact h

theorem takeWhile_of_stops (h : Stops p rest) : rest.takeWhile p = [] := by
  cases rest with
  | nil => rfl
  | cons x rest => exact List.takeWhile_cons_of_neg (by rw [h x rfl]; exact Bool.false_ne_true)

theorem dropWhile_of_stops (h : Stops p rest) : rest.dropWhile p = rest := by
  cases rest with
  | nil => rfl
  | cons x rest => exact List.dropWhile_cons_of_neg (by rw [h x rfl]; exact Bool.false_ne_true)

theorem takeWhile_run (hp : ∀ x ∈ run, p x = true) (h : Stops p rest) :
    (run ++ rest).takeWhile p = run := by
  rw [List.takeWhile_append_of_pos hp, takeWhile_of_stops h, List.append_nil]

theorem dropWhile_run (hp : ∀ x ∈ run, p x = true) (h : Stops p rest) :
    (run ++ rest).dropWhile p = rest := by
  rw [List.dropWhile_append_of_pos hp, dropWhile_of_stops h]

theorem takeWhile_stop {x : α} (hp : ∀ y ∈ run, p y = true) (hx : p x = false) :
    (run ++ x :: rest).takeWhile p = run :=
  takeWhile_run hp (stops_cons hx)

theorem dropWhile_stop {x : α} (hp : ∀ y ∈ run, p y = true) (hx : p x = false) :
    (run ++ x :: rest).dropWhile p = x :: rest :=
  dropWhile_run hp (stops_cons hx)

/-- a list is a run of a class and what stops it -/
theorem exists_run (p : α → Bool) (s : List α) :
    ∃ run rest, s = run ++ rest ∧ (∀ x ∈ run, p x = true) ∧ Stops p rest := by
  refine ⟨s.takeWhile p, s.dropWhile p, List.takeWhile_append_dropWhile.symm,
    fun x hx => List.all_eq_true.1 List.all_takeWhile x hx, fun x hx => ?_⟩
  have hne : s.dropWhile p ≠ [] := fun h => by rw [h] at hx; cases hx
  have hh := List.head_dropWhile_not p hne
  rw [List.head?_eq_some_head hne] at hx
  injection hx with hx
  rwa [hx] at hh

end MachineSpec.Text
