import MachineSpec.Markup.Grammar
import MachineSpec.Proofs.Outcome

/-!
# Attributes of a text are distinct

A tag whose attributes repeat a name is refused, so no element that a text holds has two attributes
of one name.  This is kept token by token, from the tags to the elements that are not closed yet and
to the one that is complete at the end.

* `nodup_attributesFrom`        the attributes of a tag
* `Progress.distinct_take`      one token more
* `Element.distinct_ofText`     the element of a text
-/

namespace MachineSpec.Markup

theorem Attribute.lookup_of_next {total : Nat} {seen : List (List Char × Nat)} {cs : List Char}
    {a : Attribute.Raw} (h : Attribute.next total seen cs = .ok (some a)) :
    seen.lookup a.key = none := by
  unfold Attribute.next at h
  split at h
  · cases h
  · obtain ⟨r, -, h⟩ := exists_of_bind h
    dsimp only at h
    split at h
    · cases h
    · next hl =>
      obtain ⟨v, -, h⟩ := exists_of_bind h
      cases h
      exact hl

/-- a tag is refused when two of its attributes have the same name -/
theorem nodup_attributesFrom {total : Nat} {seen : List (List Char × Nat)} {cs : List Char}
    {as : List (String × String)} (h : attributesFrom total seen cs = .ok as) :
    (as.map Prod.fst).Nodup ∧
      ∀ key, (seen.lookup key).isSome → String.ofList key ∉ as.map Prod.fst := by
  fun_induction attributesFrom total seen cs generalizing as with
  | case1 => cases h
  | case2 =>
    cases h
    exact ⟨List.nodup_nil, fun _ _ => List.not_mem_nil⟩
  | case3 seen cs a hn ih =>
    obtain ⟨value, -, h⟩ := exists_of_bind h
    obtain ⟨rest, hr, h⟩ := exists_of_bind h
    cases h
    obtain ⟨hnodup, hseen⟩ := ih hr
    refine ⟨List.nodup_cons.2 ⟨hseen a.key ?_, hnodup⟩, fun key hk hm => ?_⟩
    · rw [List.lookup_cons, beq_self_eq_true]
      rfl
    · rcases List.mem_cons.1 hm with he | hm
      · rw [String.ofList_injective he, Attribute.lookup_of_next hn] at hk
        cases hk
      · refine hseen key ?_ hm
        rw [List.lookup_cons]
        split
        · rfl
        · exact hk

namespace Element

theorem distinct_ofTag {tag : List Char} {e : Element} (h : ofTag tag = .ok e) : e.Distinct := by
  obtain ⟨as, ha, he⟩ := exists_of_bind h
  cases he
  exact .intro (nodup_attributesFrom ha).1 fun _ hc => absurd hc List.not_mem_nil

theorem Distinct.addText {e : Element} (h : e.Distinct) (s : String) : (e.addText s).Distinct := by
  obtain ⟨hkeys, hchildren⟩ := h
  cases e
  exact .intro hkeys hchildren

theorem Distinct.addChild {e child : Element} (h : e.Distinct) (hc : child.Distinct) :
    (e.addChild child).Distinct := by
  obtain ⟨hkeys, hchildren⟩ := h
  cases e
  refine .intro hkeys fun c hm => ?_
  rcases List.mem_append.1 hm with hm | hm
  · exact hchildren c hm
  · exact List.mem_singleton.1 hm ▸ hc

end Element

/-- how far the tree has come, with no doubled attributes so far -/
def Progress.Distinct : Progress → Prop
  | .inside stack => ∀ e ∈ stack, e.Distinct
  | .finished root => root.Distinct

namespace Progress

theorem distinct_close {e : Element} {stack : List Element} (he : e.Distinct)
    (hs : ∀ e ∈ stack, e.Distinct) : (close e stack).Distinct := by
  cases stack with
  | nil => exact he
  | cons p ps =>
    obtain ⟨hp, hps⟩ := List.forall_mem_cons.1 hs
    exact List.forall_mem_cons.2 ⟨hp.addChild he, hps⟩

theorem distinct_addText (s : String) {stack : List Element} (hs : ∀ e ∈ stack, e.Distinct) :
    ∀ e ∈ addText s stack, e.Distinct := by
  cases stack with
  | nil => exact hs
  | cons p ps =>
    obtain ⟨hp, hps⟩ := List.forall_mem_cons.1 hs
    exact List.forall_mem_cons.2 ⟨hp.addText s, hps⟩

/-- one token more doubles no attributes -/
theorem distinct_take {stack : List Element} (hs : ∀ e ∈ stack, e.Distinct) {t : Token}
    {progress : Progress} (h : take stack t = .ok progress) : progress.Distinct := by
  cases t with
  | text cs =>
    obtain ⟨s, -, h⟩ := exists_of_bind h
    cases h
    exact distinct_addText s hs
  | literal cs =>
    cases h
    exact distinct_addText _ hs
  | skipped =>
    cases h
    exact hs
  | opening tag =>
    obtain ⟨e, he, h⟩ := exists_of_bind h
    cases h
    exact List.forall_mem_cons.2 ⟨Element.distinct_ofTag he, hs⟩
  | single tag =>
    obtain ⟨e, he, h⟩ := exists_of_bind h
    cases h
    exact distinct_close (Element.distinct_ofTag he) hs
  | closing name =>
    unfold take at h
    cases stack with
    | nil => cases h
    | cons e es =>
      obtain ⟨he, hes⟩ := List.forall_mem_cons.1 hs
      dsimp only at h
      split at h
      · cases h
        exact distinct_close he hes
      · cases h

end Progress

namespace Element

theorem distinct_readFrom {stack : List Element} {place : List Char} {root : Element}
    (hs : ∀ e ∈ stack, e.Distinct) (h : readFrom stack place = .ok root) : root.Distinct := by
  fun_induction readFrom stack place with
  | case1 => cases h
  | case2 => cases h
  | case3 stack place t rest ht root' hp =>
    cases h
    exact Progress.distinct_take hs hp
  | case4 stack place t rest ht stack' hp ih => exact ih (Progress.distinct_take hs hp) h

/-- the elements of a text have no doubled attributes -/
theorem distinct_ofText {cs : List Char} {root : Element} (h : ofText cs = .ok root) :
    root.Distinct :=
  distinct_readFrom (fun _ he => absurd he List.not_mem_nil) h

end Element

end MachineSpec.Markup
