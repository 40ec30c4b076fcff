import MachineSpec.Proofs.Reference.Selection
import MachineSpec.Reference.Steps
import Mathlib.Data.List.Induction

/-!
# Storing in entities

Every step stores its text in the same way: the name of its selector gives a place, and the text is
put there in the reference of the entity, or of an empty one.  So one step settles the text under its
own selector, a step that starts over settles all of them, and a run is told from its last steps.

* `LawfulLookup`          entities that are a reference and something beside it
* `Step.run_eq`           what every step does
* `Step.get?_after`       what a step settles
* `get?_afterAll`         the texts after a run
* `select_eq_some_iff`    the selection, told by the texts
* `StoreLaws`, `storeLaws`   all laws, for references of each kind and for templates
-/

namespace MachineSpec.Lookup

open Logged (outcome)
open Reference (index? index?_eq_none_iff exists_index?)

/-- taking the reference of an entity out and putting one in do not disturb each other -/
class LawfulLookup (α : Type) [Lookup α] : Prop where
  reference_withReference (a : α) (r : Reference (kind α)) : reference (withReference a r) = r
  withReference_reference (a : α) : withReference a (reference a) = a
  reference_empty : reference (empty : α) = .empty

open LawfulLookup (reference_withReference reference_empty)

instance (k : Kind) : LawfulLookup (Reference k) where
  reference_withReference _ _ := rfl
  withReference_reference _ := rfl
  reference_empty := rfl

instance : LawfulLookup DiskTemplate where
  reference_withReference _ _ := rfl
  withReference_reference _ := rfl
  reference_empty := rfl

section lookup
variable {α : Type} [Lookup α]

/-! ## what a step does -/

theorem outcome_assign (a : α) (marker? : Option String) (value : String) :
    outcome (assign a marker? value) =
      match index? (kind α) (marker?.getD (kind α).primary) with
      | none => .error ⟨kind α, marker?.getD (kind α).primary⟩
      | some i => .ok (withReference a ((reference a).put i value)) := by
  unfold assign
  rw [Logged.outcome_bind, Kind.outcome_named]
  cases index? (kind α) (marker?.getD (kind α).primary) <;> rfl

namespace Step
variable {a a' : α} {step : Step}

/-- every step puts its text in the place of its selector, if there is one -/
theorem run_eq (a : α) (step : Step) :
    step.run a = match index? (kind α) (step.name (kind α)) with
      | none => .error (step.failure? (kind α))
      | some i =>
        .ok (withReference (step.base a) ((reference (step.base a)).put i step.value)) := by
  cases step with
  | assign marker? value =>
    show (outcome (Lookup.assign a marker? value)).mapError some = _
    rw [outcome_assign]
    dsimp only [name, failure?, base, Step.value]
    cases index? (kind α) (marker?.getD (kind α).primary) <;> rfl
  | resolve marker? value =>
    show (outcome (Lookup.assign (empty : α) marker? value)).mapError some = _
    rw [outcome_assign]
    dsimp only [name, failure?, base, Step.value]
    cases index? (kind α) (marker?.getD (kind α).primary) <;> rfl
  | set name value =>
    dsimp only [run, Step.name, failure?, base, Step.value]
    unfold set? Reference.set?
    cases index? (kind α) name <;> rfl

theorem run_of_not_mem (a : α) (h : step.name (kind α) ∉ (kind α).selectors) :
    step.run a = .error (step.failure? (kind α)) := by
  rw [run_eq, index?_eq_none_iff.2 h]

theorem exists_run_of_mem (a : α) (h : step.name (kind α) ∈ (kind α).selectors) :
    ∃ a', step.run a = .ok a' := by
  obtain ⟨i, hi⟩ := exists_index? h
  rw [run_eq, hi]
  exact ⟨_, rfl⟩

/-- a step that does not fail has found the place of its selector -/
theorem exists_of_run (h : step.run a = .ok a') :
    ∃ i, index? (kind α) (step.name (kind α)) = some i ∧
      a' = withReference (step.base a) ((reference (step.base a)).put i step.value) := by
  rw [run_eq] at h
  cases hi : index? (kind α) (step.name (kind α)) with
  | none =>
    rw [hi] at h
    cases h
  | some i =>
    rw [hi] at h
    exact ⟨i, rfl, (Except.ok.inj h).symm⟩

theorem after_of_ok (h : step.run a = .ok a') : step.after a = a' := by
  unfold after
  rw [h]

theorem after_of_error {e : Option UnsupportedSelector} (h : step.run a = .error e) :
    step.after a = a := by
  unfold after
  rw [h]

/-- a missing marker stands for the first selector -/
theorem run_unmarked (a : α) {first : String} (h : (kind α).selectors.head? = some first)
    (value : String) :
    (assign none value).run a = (assign (some first) value).run a ∧
      (resolve none value).run a = (resolve (some first) value).run a := by
  have hp : (kind α).primary = first := Option.some.inj ((kind α).head?_selectors.symm.trans h)
  rw [run_eq, run_eq, run_eq, run_eq]
  dsimp only [name, failure?, Option.getD_none, Option.getD_some]
  rw [hp]
  exact ⟨rfl, rfl⟩

end Step

/-! ## what a step settles -/

section lawful
variable [LawfulLookup α]

theorem get?_withReference (a : α) (r : Reference (kind α)) (name : String) :
    get? (withReference a r) name = r.get? name := by
  unfold get?
  rw [reference_withReference]

theorem get?_empty {name : String} (h : name ∈ (kind α).selectors) :
    get? (empty : α) name = some "" := by
  unfold get?
  rw [reference_empty]
  exact Reference.get?_empty h

namespace Step
variable {a a' : α} {step : Step}

/-- the text is there, and all others are as they were in what it was stored in -/
theorem get?_of_run (h : step.run a = .ok a') (name : String) :
    get? a' name =
      if name = step.name (kind α) then some step.value else get? (step.base a) name := by
  obtain ⟨i, hi, rfl⟩ := exists_of_run h
  rw [get?_withReference, Reference.get?_put _ hi]
  rfl

/-- beside the reference nothing is different from what it was stored in -/
theorem withReference_of_run (h : step.run a = .ok a') :
    withReference (step.base a) (reference a') = a' := by
  obtain ⟨i, hi, rfl⟩ := exists_of_run h
  rw [reference_withReference]

/-- a step settles a text, or leaves it as it was -/
theorem get?_after (a : α) (step : Step) {name : String} (hname : name ∈ (kind α).selectors) :
    get? (step.after a) name = some ((step.settles? (kind α) name).getD ((get? a name).getD "")) := by
  have hget : get? a name = some ((get? a name).getD "") := Reference.get?_eq_some_getD _ hname
  unfold settles?
  by_cases hm : step.name (kind α) ∈ (kind α).selectors
  · obtain ⟨a', ha'⟩ := exists_run_of_mem a hm
    rw [after_of_ok ha', get?_of_run ha', if_neg (not_not_intro hm)]
    by_cases hn : step.name (kind α) = name
    · rw [if_pos hn, if_pos hn.symm]
      rfl
    · rw [if_neg hn, if_neg (Ne.symm hn)]
      cases step with
      | resolve marker? value => exact get?_empty hname
      | assign marker? value => exact hget
      | set other value => exact hget
  · rw [after_of_error (run_of_not_mem a hm), if_pos hm]
    exact hget

end Step

/-! ## runs -/

/-- after a run every text is the one that was stored last -/
theorem get?_afterAll (steps : List Step) {name : String} (hname : name ∈ (kind α).selectors) :
    get? (afterAll steps : α) name = some (lastStored (kind α) name steps) := by
  induction steps using List.reverseRecOn with
  | nil => exact get?_empty hname
  | append_singleton steps step ih =>
    rw [afterAll_append_singleton, Step.get?_after _ _ hname, ih, lastStored_append_singleton]
    rfl

/-- a step that fails and one that stores elsewhere leave a text alone -/
example : lastStored .zone "name"
    [.set "name" "a", .resolve (some "address") "b", .assign none "c"] = "a" := by decide

end lawful

/-! ## selections -/

theorem select_eq_none_iff {a : α} :
    (select a).value = none ↔ ∀ name ∈ (kind α).selectors, get? a name = some "" := by
  rw [value_select]
  exact Reference.selection?_eq_none_iff

theorem select_eq_some_iff {a : α} {s : Selection} :
    (select a).value = some s ↔
      ∃ before after, (kind α).selectors = before ++ s.selector :: after ∧
        get? a s.selector = some s.value ∧ s.value ≠ "" ∧
        (∀ name ∈ before, get? a name = some "") ∧ s.primary = decide (before = []) := by
  rw [value_select]
  exact Reference.selection?_eq_some_iff

end lookup

/-! ## the laws -/

/-- the laws of storing in entities of one type -/
structure StoreLaws (α : Type) [Lookup α] : Prop where
  /-- after a run every text is the one that was stored last -/
  stored (steps : List Step) : ∀ name ∈ (kind α).selectors,
    get? (afterAll steps : α) name = some (lastStored (kind α) name steps)
  /-- a step whose selector is in the table does not fail -/
  succeeds (a : α) (step : Step) : step.name (kind α) ∈ (kind α).selectors →
    ∃ a', step.run a = .ok a'
  /-- any other step fails, is reported by kind and name, and leaves the entity as it is -/
  fails (a : α) (step : Step) : step.name (kind α) ∉ (kind α).selectors →
    step.run a = .error (step.failure? (kind α)) ∧ step.after a = a
  /-- a step that does not fail has stored its text -/
  written (a a' : α) (step : Step) : step.run a = .ok a' →
    step.after a = a' ∧ get? a' (step.name (kind α)) = some step.value
  /-- and nothing else is different from what it was stored in -/
  kept (a a' : α) (step : Step) : step.run a = .ok a' →
    (∀ name, name ≠ step.name (kind α) → get? a' name = get? (step.base a) name) ∧
      a' = withReference (step.base a) (reference a')
  /-- what a step that starts over stores in has no texts -/
  cleared : ∀ name ∈ (kind α).selectors, get? (empty : α) name = some ""
  /-- a missing marker stands for the first selector -/
  unmarked (a : α) (first value : String) : (kind α).selectors.head? = some first →
      (Step.assign none value).run a = (Step.assign (some first) value).run a ∧
      (Step.resolve none value).run a = (Step.resolve (some first) value).run a
  /-- nothing is selected if and only if all texts are empty -/
  unselected (a : α) : (select a).value = none ↔
    ∀ name ∈ (kind α).selectors, get? a name = some ""
  /-- else it is the first text that is not empty, primary if its selector is the first -/
  selected (a : α) (s : Selection) : (select a).value = some s ↔
    ∃ before after, (kind α).selectors = before ++ s.selector :: after ∧
      get? a s.selector = some s.value ∧ s.value ≠ "" ∧
      (∀ name ∈ before, get? a name = some "") ∧ s.primary = decide (before = [])
  /-- and without a marker just then -/
  marked (a : α) (s : Selection) : (select a).value = some s →
    (s.marker? = none ↔ (kind α).selectors.head? = some s.selector)

theorem storeLaws_of_lawful (α : Type) [Lookup α] [LawfulLookup α] : StoreLaws α where
  stored steps _ hname := get?_afterAll steps hname
  succeeds a _ h := Step.exists_run_of_mem a h
  fails a _ h := ⟨Step.run_of_not_mem a h, Step.after_of_error (Step.run_of_not_mem a h)⟩
  written _ _ _ h := ⟨Step.after_of_ok h, by rw [Step.get?_of_run h, if_pos rfl]⟩
  kept _ _ _ h :=
    ⟨fun name hn => by rw [Step.get?_of_run h, if_neg hn], (Step.withReference_of_run h).symm⟩
  cleared _ hname := get?_empty hname
  unmarked a _ value h := Step.run_unmarked a h value
  unselected _ := select_eq_none_iff
  selected _ _ := select_eq_some_iff
  marked a _ h := Reference.marker?_eq_none_iff ((value_select a).symm.trans h)

/-- a template keeps its version and its options, unless it is started over -/
theorem beside_of_run {t t' : DiskTemplate} {step : Step} (h : step.run t = .ok t') :
    t'.version = (step.base t).version ∧ t'.options = (step.base t).options := by
  have hkept := Step.withReference_of_run h
  rw [← hkept]
  exact ⟨rfl, rfl⟩

/-- references of each kind and templates keep the laws of storing, and a template also keeps what
it has beside its reference -/
theorem storeLaws :
    (∀ k, StoreLaws (Reference k)) ∧ StoreLaws DiskTemplate ∧
      ∀ (t t' : DiskTemplate) (step : Step), step.run t = .ok t' →
        match step with
        | .resolve .. => t'.version = 0 ∧ t'.options = []
        | .assign .. | .set .. => t'.version = t.version ∧ t'.options = t.options := by
  refine ⟨fun k => storeLaws_of_lawful (Reference k), storeLaws_of_lawful DiskTemplate, ?_⟩
  intro t t' step h
  cases step <;> exact beside_of_run h

end MachineSpec.Lookup
