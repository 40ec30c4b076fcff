import MachineSpec.Markup.Content
import MachineSpec.Proofs.Outcome

/-!
# What the children of an element change

What is read of an element that holds others is changed by one child after the other.  A property
that one child more does not break holds in the end, whether it speaks of the children so far or
only of what has been read.

* `Rule.Keeps`                a property that a child of a rule does not break
* `Element.of_changes`        from one child more to all children
* `Element.keeps_changes`     what every rule keeps holds in the end
* `Element.forall_of_listOf`  the items of a list
-/

namespace MachineSpec

open Logged (outcome)

namespace Markup

section rules
variable {α β : Type} {p : α → Prop} {q : β → Prop} {rules : List (Rule α)} {start a : α}
  {name : String} {read : Element → Reading β} {e : Element}

/-- a property that a child of this rule does not break -/
def Rule.Keeps (p : α → Prop) (r : Rule α) : Prop :=
  ∀ e f, outcome (r.read e) = .ok f → ∀ a, p a → p (f a)

theorem Rule.Keeps.set {put : β → α → α}
    (h : ∀ e b, outcome (read e) = .ok b → ∀ a, p a → p (put b a)) :
    (Rule.set name read put).Keeps p := by
  intro e f hf
  obtain ⟨b, hb, rfl⟩ := exists_of_outcome_map hf
  exact h e b hb

theorem Rule.Keeps.setSome {put : Option β → α → α}
    (h : ∀ e b, outcome (read e) = .ok b → ∀ a, p a → p (put (some b) a)) :
    (Rule.setSome name read put).Keeps p := Keeps.set h

theorem Rule.Keeps.item (h : ∀ e b, outcome (read e) = .ok b → q b) :
    (Rule.item name read).Keeps fun bs => ∀ b ∈ bs, q b := by
  intro e f hf bs hbs
  obtain ⟨b, hb, rfl⟩ := exists_of_outcome_map hf
  exact List.forall_mem_append.2 ⟨hbs, List.forall_mem_singleton.2 (h e b hb)⟩

namespace Element

theorem exists_rule {child : Element} {f : α → α} (h : outcome (e.change rules child) = .ok f) :
    ∃ r ∈ rules, r.name = child.name ∧ outcome (r.read child) = .ok f := by
  unfold change at h
  split at h
  · next r hr =>
    have hn : (r.name == child.name) = true :=
      List.find?_some (p := fun r : Rule α => r.name == child.name) hr
    exact ⟨r, List.mem_of_find?_eq_some hr, eq_of_beq hn, h⟩
  · cases h

section changes
variable {p : List Element → α → Prop}
  (step : ∀ es child f b, outcome (e.change rules child) = .ok f → p es b →
    p (es ++ [child]) (f b))
include step

/-- children that come behind others, one after the other -/
theorem of_mapM_change {before es : List Element} {fs : List (α → α)} {b : α}
    (h : outcome (es.mapM (e.change rules)) = .ok fs) (hb : p before b) :
    p (before ++ es) (fs.foldl (fun a f => f a) b) := by
  induction es generalizing before fs b with
  | nil =>
    cases h
    rwa [List.append_nil]
  | cons child es ih =>
    rw [List.mapM_cons] at h
    obtain ⟨f, hf, h⟩ := exists_of_outcome_bind h
    obtain ⟨fs', hfs, h⟩ := exists_of_outcome_bind h
    cases h
    have hall := ih hfs (step before child f b hf hb)
    rwa [List.append_assoc] at hall

/-- what holds before the first child, and of one child more if it held before, holds of all -/
theorem of_changes (start_ok : p [] start) (h : outcome (e.changes rules start) = .ok a) :
    p e.children a := by
  obtain ⟨fs, hfs, h⟩ := exists_of_outcome_bind h
  cases h
  exact of_mapM_change step hfs start_ok

end changes

/-- what every rule keeps holds in the end -/
theorem keeps_changes (hr : ∀ r ∈ rules, r.Keeps p) (hs : p start)
    (h : outcome (e.changes rules start) = .ok a) : p a :=
  of_changes (p := fun _ a => p a) (fun _ child f b hf hb => by
    obtain ⟨r, hm, -, hf⟩ := exists_rule hf
    exact hr r hm child f hf b hb) hs h

theorem changes_of_fields (h : outcome (e.fields rules start) = .ok a) :
    outcome (e.changes rules start) = .ok a := by
  obtain ⟨_, -, h⟩ := exists_of_outcome_bind h
  obtain ⟨_, -, h⟩ := exists_of_outcome_bind h
  exact h

theorem keeps_fields (hr : ∀ r ∈ rules, r.Keeps p) (hs : p start)
    (h : outcome (e.fields rules start) = .ok a) : p a :=
  keeps_changes hr hs (changes_of_fields h)

theorem forall_of_items (hread : ∀ e b, outcome (read e) = .ok b → q b) {bs : List β}
    (h : outcome (e.items name read) = .ok bs) : ∀ b ∈ bs, q b := by
  obtain ⟨_, -, h⟩ := exists_of_outcome_bind h
  exact keeps_changes (List.forall_mem_singleton.2 (Rule.Keeps.item hread))
    (fun _ hb => absurd hb List.not_mem_nil) h

theorem forall_of_listOf (hread : ∀ e b, outcome (read e) = .ok b → q b) {bs : List β}
    (h : outcome (listOf name read e) = .ok bs) : ∀ b ∈ bs, q b := by
  obtain ⟨_, -, h⟩ := exists_of_outcome_bind h
  exact forall_of_items hread h

end Element

end rules

end Markup

end MachineSpec
