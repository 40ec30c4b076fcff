import MachineSpec.Spec.Canonical

/-!
# The selector that stands for a reference

A reference is written by its first selector with a text, and reading that selector back puts the
text into an otherwise empty reference.

* `get?_put`, `get?_empty`   the texts of a reference, told by the names of its selectors
* `selection?_eq_some_iff`, `selection?_eq_none_iff`   the selection, told by these texts
* `selection?_put`        the selection of a reference with a single text
* `exists_first`, `exists_selection`   what a selection says of its reference
* `canonical_of_none`, `canonical_eq_put`   being canonical keeps the text of the selection
* `selection?_canonical`, `canonical_canonical`   being canonical changes no selection, and holds
                          from then on
* `marker?_eq_none_iff`, `outcome_named`   the marker of a selection names its selector
* `Lookup.value_select`   selecting an entity finds its selection
-/

namespace MachineSpec

/-- a marker names a selector if it is in the table -/
theorem Kind.outcome_named (k : Kind) (marker? : Option String) :
    Logged.outcome (k.named marker?) =
      match Reference.index? k (marker?.getD k.primary) with
      | none => .error ⟨k, marker?.getD k.primary⟩
      | some i => .ok i := by
  unfold named
  dsimp only
  cases Reference.index? k (marker?.getD k.primary) with
  | none => rfl
  | some i => cases marker? <;> rfl

namespace Reference
variable {k : Kind}

theorem index?_get (k : Kind) (i : Fin k.selectors.length) :
    index? k (k.selectors.get i) = some i := by
  refine List.finIdxOf?_eq_some_iff.2 ⟨rfl, fun j hj he => ?_⟩
  have hij := (List.getElem_inj k.selectors_nodup).1 he
  omega

theorem get_of_index? {name : String} {i : Fin k.selectors.length} (h : index? k name = some i) :
    k.selectors.get i = name :=
  (List.finIdxOf?_eq_some_iff.1 h).1

theorem index?_eq_none_iff {name : String} : index? k name = none ↔ name ∉ k.selectors :=
  List.finIdxOf?_eq_none_iff

theorem exists_index? {name : String} (h : name ∈ k.selectors) : ∃ i, index? k name = some i := by
  cases hi : index? k name with
  | none => exact absurd h (index?_eq_none_iff.1 hi)
  | some i => exact ⟨i, rfl⟩

/-! ## texts -/

theorem get?_get (r : Reference k) (i : Fin k.selectors.length) :
    r.get? (k.selectors.get i) = some (r.values.get i) :=
  congrArg (Option.map fun j => r.values.get j) (index?_get k i)

theorem ext_get {r q : Reference k} (h : ∀ i, r.values.get i = q.values.get i) : r = q := by
  cases r
  cases q
  exact congrArg Reference.mk (Vector.ext fun i hi => h ⟨i, hi⟩)

theorem get_empty (i : Fin k.selectors.length) : (empty : Reference k).values.get i = "" :=
  Vector.getElem_replicate _

theorem get_put (r : Reference k) (i j : Fin k.selectors.length) (value : String) :
    (r.put i value).values.get j = if i = j then value else r.values.get j := by
  show (r.values.set i.val value i.isLt)[j.val] = _
  rw [Vector.getElem_set]
  simp only [Fin.ext_iff]
  rfl

/-- an empty text is stored in an empty reference already -/
theorem put_empty (i : Fin k.selectors.length) : (empty : Reference k).put i "" = empty :=
  congrArg Reference.mk Vector.set_replicate_self

theorem get?_empty {name : String} (h : name ∈ k.selectors) :
    (empty : Reference k).get? name = some "" := by
  obtain ⟨i, hi⟩ := exists_index? h
  unfold get?
  rw [hi]
  exact congrArg some (get_empty i)

theorem get?_eq_some_getD (r : Reference k) {name : String} (h : name ∈ k.selectors) :
    r.get? name = some ((r.get? name).getD "") := by
  obtain ⟨i, hi⟩ := exists_index? h
  unfold get?
  rw [hi]
  rfl

/-- a text that is put under a selector is under no other -/
theorem get?_put (r : Reference k) {name : String} {i : Fin k.selectors.length}
    (hi : index? k name = some i) (value other : String) :
    (r.put i value).get? other = if other = name then some value else r.get? other := by
  unfold get?
  cases hj : index? k other with
  | none =>
    have hne : other ≠ name := by
      rintro rfl
      rw [hi] at hj
      cases hj
    rw [if_neg hne]
    rfl
  | some j =>
    have hiff : other = name ↔ i = j := by
      rw [← get_of_index? hi, ← get_of_index? hj]
      constructor
      · exact fun h => Fin.ext ((List.getElem_inj k.selectors_nodup).1 h.symm)
      · exact fun h => congrArg k.selectors.get h.symm
    show some ((r.put i value).values.get j) = _
    rw [get_put]
    simp only [hiff]
    split <;> rfl

theorem entries_eq (r : Reference k) :
    r.entries = k.selectors.map fun name => (name, (r.get? name).getD "") := by
  unfold entries
  refine List.ext_getElem ?_ fun i hi hi' => ?_
  · rw [List.length_zip, Vector.length_toList, List.length_map, Nat.min_self]
  · have hk : i < k.selectors.length := by rwa [List.length_map] at hi'
    have hget : r.get? k.selectors[i] = some r.values[i] := r.get?_get ⟨i, hk⟩
    rw [List.getElem_zip, List.getElem_map, hget]
    rfl

/-! ## selections -/

/-- in a list where a single text is not empty, that text is found -/
theorem find?_zip_set (names : List String) (i : Nat) (hi : i < names.length) {value : String}
    (hv : value ≠ "") :
    (names.zip ((List.replicate names.length "").set i value)).find? (fun e => e.2 ≠ "") =
      some (names[i], value) := by
  induction names generalizing i with
  | nil => exact absurd hi (Nat.not_lt_zero i)
  | cons name names ih =>
    cases i with
    | zero =>
      show List.find? _ ((name, value) :: _) = _
      rw [List.find?_cons_of_pos (by simpa using hv)]
      rfl
    | succ i =>
      show List.find? _ ((name, "") :: names.zip _) = _
      rw [List.find?_cons_of_neg (by simp), ih i (Nat.lt_of_succ_lt_succ hi)]
      rfl

theorem find?_zip_replicate (names : List String) :
    (names.zip (List.replicate names.length "")).find? (fun e => e.2 ≠ "") = none := by
  induction names with
  | nil => rfl
  | cons name names ih =>
    show List.find? _ ((name, "") :: names.zip _) = _
    rw [List.find?_cons_of_neg (by simp), ih]

theorem selection?_put (i : Fin k.selectors.length) {value : String} (hv : value ≠ "") :
    (empty.put i value).selection? =
      some ⟨k.selectors.get i, value, k.selectors.get i = k.primary⟩ := by
  have hl : (empty.put i value).values.toList =
      (List.replicate k.selectors.length "").set i value := by
    show ((Vector.replicate _ "").set i.val value i.isLt).toList = _
    rw [Vector.toList_set, Vector.toList_replicate]
  unfold selection? entries
  rw [hl, find?_zip_set _ _ i.isLt hv]
  rfl

theorem selection?_empty : (empty : Reference k).selection? = none := by
  have hl : (empty : Reference k).values.toList = List.replicate k.selectors.length "" :=
    Vector.toList_replicate
  unfold selection? entries
  rw [hl, find?_zip_replicate]
  rfl

/-- the primary selector is the one with none before it -/
theorem primary_eq_iff {name : String} {before after : List String}
    (h : k.selectors = before ++ name :: after) : name = k.primary ↔ before = [] := by
  have hnodup := k.selectors_nodup
  unfold Kind.primary
  rw [h] at hnodup ⊢
  cases before with
  | nil => exact iff_of_true rfl rfl
  | cons first before =>
    refine iff_of_false (fun heq => ?_) (List.cons_ne_nil first before)
    have heq : name = first := heq
    subst heq
    exact (List.nodup_cons.1 hnodup).1 (List.mem_append_right before (List.mem_cons_self ..))

theorem selection?_eq_none_iff {r : Reference k} :
    r.selection? = none ↔ ∀ name ∈ k.selectors, r.get? name = some "" := by
  unfold selection?
  rw [Option.map_eq_none_iff, entries_eq, List.find?_eq_none, List.forall_mem_map]
  refine forall₂_congr fun name hname => ?_
  rw [get?_eq_some_getD r hname]
  simp

/-- the selection is the first selector with a text -/
theorem selection?_eq_some_iff {r : Reference k} {s : Selection} :
    r.selection? = some s ↔ ∃ before after, k.selectors = before ++ s.selector :: after ∧
      r.get? s.selector = some s.value ∧ s.value ≠ "" ∧
      (∀ name ∈ before, r.get? name = some "") ∧ s.primary = decide (before = []) := by
  unfold selection?
  rw [Option.map_eq_some_iff, entries_eq, List.find?_map]
  constructor
  · rintro ⟨e, he, rfl⟩
    obtain ⟨name, hname, rfl⟩ := Option.map_eq_some_iff.1 he
    obtain ⟨hv, before, after, hk, hbefore⟩ := List.find?_eq_some_iff_append.1 hname
    refine ⟨before, after, hk, get?_eq_some_getD r ?_, by simpa using hv, fun other hother => ?_, ?_⟩
    · rw [hk]
      exact List.mem_append_right before (List.mem_cons_self ..)
    · rw [get?_eq_some_getD r (hk ▸ List.mem_append_left _ hother)]
      simpa using hbefore other hother
    · exact decide_eq_decide.2 (primary_eq_iff hk)
  · rintro ⟨before, after, hk, hget, hv, hbefore, hp⟩
    have hfind : k.selectors.find? ((fun e : String × String => decide (e.2 ≠ "")) ∘
        fun name => (name, (r.get? name).getD "")) = some s.selector := by
      refine List.find?_eq_some_iff_append.2 ⟨?_, before, after, hk, fun other hother => ?_⟩
      · simpa [hget] using hv
      · simp [hbefore other hother]
    refine ⟨(s.selector, s.value), ?_, ?_⟩
    · rw [hfind, Option.map_some, hget]
      rfl
    · have hprimary : decide (s.selector = k.primary) = s.primary := by
        rw [hp]
        exact decide_eq_decide.2 (primary_eq_iff hk)
      rw [hprimary]

/-- the text that a selection stands for is the first that is not empty -/
theorem exists_first {r : Reference k} {s : Selection} (h : r.selection? = some s) :
    ∃ i : Fin k.selectors.length, index? k s.selector = some i ∧ r.values.get i = s.value ∧
      ∀ j < i, r.values.get j = "" := by
  obtain ⟨e, he, rfl⟩ := Option.map_eq_some_iff.1 h
  obtain ⟨-, n, hn, hget, hbefore⟩ := List.find?_eq_some_iff_getElem.1 he
  unfold entries at hn hget hbefore
  have hk : n < k.selectors.length := by
    rw [List.length_zip] at hn
    omega
  rw [List.getElem_zip] at hget
  refine ⟨⟨n, hk⟩, ?_, congrArg Prod.snd hget, fun j hj => ?_⟩
  · rw [← index?_get k ⟨n, hk⟩]
    exact congrArg (index? k) (congrArg Prod.fst hget).symm
  · have hb := hbefore j hj
    rw [List.getElem_zip] at hb
    have hempty : r.values[j] = "" := by simpa using hb
    exact hempty

/-- a selection has a text, and names one of the selectors; it is primary when that is the first -/
theorem exists_selection {r : Reference k} {s : Selection} (h : r.selection? = some s) :
    s.value ≠ "" ∧ (s.primary = decide (s.selector = k.primary)) ∧
      ∃ i, index? k s.selector = some i := by
  obtain ⟨e, he, rfl⟩ := Option.map_eq_some_iff.1 h
  obtain ⟨i, hi, -, -⟩ := exists_first h
  exact ⟨by simpa using List.find?_some he, rfl, i, hi⟩

/-! ## canonical references -/

theorem get_canonical (r : Reference k) (i : Fin k.selectors.length) :
    r.canonical.values.get i = if ∀ j < i, r.values.get j = "" then r.values.get i else "" :=
  Vector.getElem_ofFn _

theorem get_of_none {r : Reference k} (h : r.selection? = none) (i : Fin k.selectors.length) :
    r.values.get i = "" := by
  have hget := r.get?_get i
  rw [selection?_eq_none_iff.1 h _ (List.get_mem _ i)] at hget
  exact (Option.some.inj hget).symm

theorem canonical_of_none {r : Reference k} (h : r.selection? = none) : r.canonical = empty := by
  refine ext_get fun i => ?_
  rw [get_canonical, get_of_none h, ite_self, get_empty]

/-- the text that is kept is the one of the selection -/
theorem canonical_eq_put {r : Reference k} {s : Selection} {i : Fin k.selectors.length}
    (h : r.selection? = some s) (hi : index? k s.selector = some i) :
    r.canonical = empty.put i s.value := by
  obtain ⟨hv, -, -⟩ := exists_selection h
  obtain ⟨n, hn, hvalue, hbefore⟩ := exists_first h
  cases hn.symm.trans hi
  refine ext_get fun m => ?_
  rw [get_canonical, get_put, get_empty]
  by_cases him : i = m
  · subst him
    rw [if_pos rfl, if_pos hbefore, hvalue]
  · rw [if_neg him]
    by_cases hall : ∀ j < m, r.values.get j = ""
    · have hmi : m < i := by
        have hle : ¬i < m := fun hlt => hv (hvalue.symm.trans (hall i hlt))
        omega
      rw [if_pos hall, hbefore m hmi]
    · rw [if_neg hall]

theorem selection?_canonical (r : Reference k) : r.canonical.selection? = r.selection? := by
  cases h : r.selection? with
  | none => rw [canonical_of_none h, selection?_empty]
  | some s =>
    obtain ⟨hv, hp, i, hi⟩ := exists_selection h
    rw [canonical_eq_put h hi, selection?_put i hv, get_of_index? hi, ← hp]

theorem canonical_canonical (r : Reference k) : r.canonical.canonical = r.canonical := by
  have hs := selection?_canonical r
  cases h : r.selection? with
  | none =>
    rw [h] at hs
    rw [canonical_of_none hs, canonical_of_none h]
  | some s =>
    obtain ⟨-, -, i, hi⟩ := exists_selection h
    rw [h] at hs
    rw [canonical_eq_put hs hi, canonical_eq_put h hi]

/-- the marker of a selection, or the primary selector in its place, is the selector -/
theorem getD_marker? {r : Reference k} {s : Selection} (h : r.selection? = some s) :
    s.marker?.getD k.primary = s.selector := by
  obtain ⟨-, hp, -⟩ := exists_selection h
  unfold Selection.marker?
  cases hc : s.primary with
  | true =>
    rw [hc] at hp
    exact (of_decide_eq_true hp.symm).symm
  | false => rfl

theorem marker?_eq_none_iff {r : Reference k} {s : Selection} (h : r.selection? = some s) :
    s.marker? = none ↔ k.selectors.head? = some s.selector := by
  obtain ⟨-, hp, -⟩ := exists_selection h
  unfold Selection.marker?
  rw [k.head?_selectors, hp]
  by_cases hs : s.selector = k.primary
  · rw [if_pos (decide_eq_true hs)]
    exact iff_of_true rfl (congrArg some hs.symm)
  · rw [if_neg (by simpa using hs)]
    exact iff_of_false nofun fun he => hs (Option.some.inj he).symm

theorem outcome_named {r : Reference k} {s : Selection} {i : Fin k.selectors.length}
    (h : r.selection? = some s) (hi : index? k s.selector = some i) :
    Logged.outcome (k.named s.marker?) = .ok i := by
  rw [Kind.outcome_named, getD_marker? h, hi]

end Reference

theorem Lookup.value_select {α : Type} [Lookup α] (a : α) : (select a).value = selection? a := by
  unfold select
  dsimp only
  cases (selection? a).bind Selection.marker? <;> rfl

end MachineSpec
