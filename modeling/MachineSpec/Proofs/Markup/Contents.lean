import MachineSpec.Proofs.Markup.Leaves
import MachineSpec.Proofs.Markup.Trees

/-!
# Written elements read back

An element that holds others is read child by child, each by the rule for its name.  Written nodes
turn what has been read before them into what has been read after them; a part that is not written
turns nothing, since reading starts from the value that such a part stands for.

* `Node.Reads`              a node that can be written and is read as a value
* `Turns`                   nodes that turn one value into another
* `Turns.outcome_changes`   reading an element goes from the start value to the one turned into
* `Turns.set`, `part`, `many`   a child, a child that may be missing, children of one name
* `Turns.text`, `number`, `keyword`, `optional`, `each`   what is written for a field
-/

namespace MachineSpec.Markup

open Node Logged Element

variable {α β : Type}

/-- a node that can be written, bears a name, and is read as a value -/
structure Node.Reads (name : String) (read : Element → Reading α) (n : Node) (a : α) : Prop where
  sound : n.isSound = true
  named : n.toElement.name = name
  outcome : outcome (read n.toElement) = .ok a

/-- nodes that can be written and turn one value into another, by the rules for their names -/
inductive Turns (rules : List (Rule α)) : Nodes → α → α → Prop
  | nil (a : α) : Turns rules [] a a
  | cons {n : Node} {ns : Nodes} {r : Rule α} {f : α → α} {a b : α} (sound : n.isSound = true)
      (rule : (rules.find? fun r => r.name == n.toElement.name) = some r)
      (read : outcome (r.read n.toElement) = .ok f) (rest : Turns rules ns (f a) b) :
      Turns rules (n :: ns) a b

namespace Turns
variable {rules : List (Rule α)} {ns ms : Nodes} {a b c : α}

theorem areSound (h : Turns rules ns a b) : areSound ns = true := by
  induction h with
  | nil => rfl
  | cons sound _ _ _ ih => exact areSound_cons.2 ⟨sound, ih⟩

theorem append (h : Turns rules ns a b) (h' : Turns rules ms b c) :
    Turns rules (ns ++ ms) a c := by
  induction h with
  | nil => exact h'
  | cons sound rule read _ ih => exact .cons sound rule read (ih h')

theorem cast (h : Turns rules ns a b) (hb : b = c) : Turns rules ns a c := hb ▸ h

/-- reading an element goes from the start value to the one that its children turn it into -/
theorem outcome_changes (h : Turns rules ns a b) {e : Element}
    (he : e.children = childElements ns) : outcome (e.changes rules a) = .ok b := by
  have hm : ∃ fs, outcome ((childElements ns).mapM (e.change rules)) = .ok fs ∧
      fs.foldl (fun a f => f a) a = b := by
    clear he
    induction h with
    | nil a => exact ⟨[], rfl, rfl⟩
    | @cons n ns r f a b _ rule read _ ih =>
      obtain ⟨fs, hfs, hb⟩ := ih
      refine ⟨f :: fs, ?_, hb⟩
      have hc : outcome (e.change rules n.toElement) = .ok f := by
        unfold change
        rw [rule]
        exact read
      rw [childElements, outcome_mapM_cons, hc, hfs]
      rfl
  obtain ⟨fs, hfs, hb⟩ := hm
  unfold changes
  rw [he, outcome_bind, hfs]
  exact congrArg Except.ok hb

end Turns

/-- an element without attributes is read as what its children turn the start value into -/
theorem Turns.reads {name : String} {rules : List (Rule α)} {start a : α} {ns : Nodes}
    (h : Turns rules ns start a) (hname : isName name = true) :
    Node.Reads name (fun e => e.fields rules start) (.group name [] ns) a where
  sound := isSound_group.2 ⟨isSoundTag_nil hname, h.areSound⟩
  named := rfl
  outcome := by
    show outcome (fields (.mk name [] "" (childElements ns)) rules start) = _
    unfold fields
    rw [outcome_bind, outcome_bind]
    exact h.outcome_changes rfl

/-! ## children -/

namespace Turns
variable {rules : List (Rule α)} {a : α} {name : String} {read : Element → Reading β}
  {put : β → α → α}

theorem set {n : Node} {b : β} (h : n.Reads name read b)
    (hr : (rules.find? fun r => r.name == name) = some (.set name read put)) :
    Turns rules [n] a (put b a) := by
  refine .cons h.sound (by rw [h.named]; exact hr) ?_ (.nil _)
  show outcome (put <$> read n.toElement) = _
  rw [outcome_map, h.outcome]
  rfl

theorem setSome {n : Node} {b : β} {put : Option β → α → α} (h : n.Reads name read b)
    (hr : (rules.find? fun r => r.name == name) = some (.setSome name read put)) :
    Turns rules [n] a (put (some b) a) := by
  have hs : (rules.find? fun r => r.name == name) =
      some (.set name read fun b => put (some b)) := hr
  have ht := set (a := a) h hs
  exact ht

theorem many (puts : List β → α → α) {γ : Type} {node : γ → Node} {g : γ → β}
    (h : ∀ x, (node x).Reads name read (g x))
    (hr : (rules.find? fun r => r.name == name) = some (.set name read put))
    (hnil : ∀ a, puts [] a = a) (hcons : ∀ b bs a, puts bs (put b a) = puts (b :: bs) a)
    (xs : List γ) : Turns rules (xs.map node) a (puts (xs.map g) a) := by
  induction xs generalizing a with
  | nil =>
    rw [List.map_nil, List.map_nil, hnil]
    exact .nil a
  | cons x xs ih =>
    rw [List.map_cons, List.map_cons, ← hcons]
    exact (set (h x) hr).append ih

/-- a child that may be missing; reading starts without it -/
theorem part {γ : Type} {node : γ → Node} {g : γ → β} {put : Option β → α → α}
    (h : ∀ x, (node x).Reads name read (g x))
    (hr : (rules.find? fun r => r.name == name) = some (.setSome name read put))
    (x : Option γ) (hn : put none a = a) :
    Turns rules (x.map node).toList a (put (x.map g) a) := by
  cases x with
  | none =>
    show Turns rules [] a (put none a)
    rw [hn]
    exact .nil a
  | some x => exact setSome (h x) hr

theorem optional {γ : Type} {f : γ → Logged Node} {g : γ → β} {put : Option β → α → α}
    (h : ∀ x, (f x).value.Reads name read (g x))
    (hr : (rules.find? fun r => r.name == name) = some (.setSome name read put))
    (x : Option γ) (hn : put none a = a) :
    Turns rules (Nodes.optional x f).value a (put (x.map g) a) := by
  have hv : (Nodes.optional x f).value = (x.map fun x => (f x).value).toList := by
    cases x <;> rfl
  rw [hv]
  exact part h hr x hn

end Turns

/-! ## leaves -/

theorem reads_leaf {name text : String} (hname : isName name = true) {read : Element → Reading α}
    {a : α} (h : outcome (read (.mk name [] text [])) = .ok a) :
    Node.Reads name read (.leaf name [] text) a where
  sound := isSoundTag_nil hname
  named := rfl
  outcome := h

namespace Turns
variable {rules : List (Rule α)} {a : α} {name : String}

theorem text {put : String → α → α} (hname : isName name = true)
    (hr : (rules.find? fun r => r.name == name) = some (.set name asText put))
    (s : String) (he : put "" a = a) : Turns rules (Nodes.text name s) a (put s a) := by
  unfold Nodes.text
  split
  · next hs =>
    rw [hs, he]
    exact .nil a
  · exact set (reads_leaf hname (outcome_asText name s)) hr

theorem number {put : UInt32 → α → α} (hname : isName name = true)
    (hr : (rules.find? fun r => r.name == name) = some (.set name asNumber put))
    (n : UInt32) (hz : put 0 a = a) : Turns rules (Nodes.number name n) a (put n a) := by
  unfold Nodes.number
  split
  · next hn =>
    rw [hn, hz]
    exact .nil a
  · exact set (reads_leaf hname (outcome_asNumber name n)) hr

theorem keyword [Keyword β] [LawfulKeyword β] {put : Option β → α → α} (hname : isName name = true)
    (hr : (rules.find? fun r => r.name == name) = some (.setSome name asKeyword put))
    (hw : ∀ b : β, Text.trim (Keyword.word b) = Keyword.word b) (b : Option β)
    (hn : put none a = a) : Turns rules (Nodes.keyword name b) a (put b a) := by
  cases b with
  | none =>
    rw [hn]
    exact .nil a
  | some b => exact setSome (reads_leaf hname (outcome_asKeyword name (hw b))) hr

end Turns

theorem isSound_selected {name : String} (hname : isName name = true) [Lookup α] (a : α) :
    (Nodes.selected name a).value.isSound = true ∧
      (Nodes.selected name a).value.toElement.name = name := by
  rw [Nodes.value_selected]
  cases Lookup.selection? a with
  | none => exact ⟨isSoundTag_nil hname, rfl⟩
  | some s =>
    refine ⟨?_, rfl⟩
    show isSoundTag name (markerAttributes s.marker?) = true
    cases s.marker? with
    | none => exact isSoundTag_nil hname
    | some m => exact isSoundTag_single hname rfl m

theorem reads_selected {k : Kind} {name : String} (hname : isName name = true) (r : Reference k) :
    (Nodes.selected name r).value.Reads name asReference r.canonical where
  sound := (isSound_selected hname r).1
  named := (isSound_selected hname r).2
  outcome := outcome_asReference name r

/-! ## groups of elements -/

theorem value_join (groups : List (Logged Nodes)) :
    (Nodes.join groups).value = groups.flatMap (·.value) := by
  unfold Nodes.join
  rw [value_bind, value_mapM]
  exact List.flatMap_def.symm

namespace Turns
variable {rules : List (Rule α)} {a b c : α}

theorem done : Turns rules (Nodes.join []).value a a := .nil a

theorem group {g : Logged Nodes} {gs : List (Logged Nodes)} (h : Turns rules g.value a b)
    (hs : Turns rules (Nodes.join gs).value b c) :
    Turns rules (Nodes.join (g :: gs)).value a c := by
  rw [value_join] at hs ⊢
  exact h.append hs

end Turns

/-! ## lists -/

theorem value_join_single (xs : List α) (f : α → Logged Node) :
    (Nodes.join (xs.map fun a => do return [← f a])).value = xs.map fun a => (f a).value := by
  rw [value_join, List.flatMap_map]
  exact List.map_eq_flatMap.symm

namespace Turns
variable {item name : String} {read : Element → Reading β} {γ : Type} {g : γ → β}

theorem find?_item (item : String) (read : Element → Reading β) :
    ([Rule.item item read].find? fun r => r.name == item) = some (.item item read) :=
  List.find?_cons_of_pos (beq_self_eq_true item)

theorem items {node : γ → Node} (h : ∀ x, (node x).Reads item read (g x)) (xs : List γ)
    {bs : List β} : Turns [.item item read] (xs.map node) bs (bs ++ xs.map g) :=
  many (fun cs bs => bs ++ cs) h (find?_item item read) (fun bs => List.append_nil bs)
    (fun b cs bs => List.append_assoc bs [b] cs) xs

variable {rules : List (Rule α)} {a : α} {put : List β → α → α}

theorem wrapped {f : γ → Logged Nodes} {xs : List γ} {bs : List β}
    (h : Turns [.item item read] (Nodes.join (xs.map f)).value [] bs) (hname : isName name = true)
    (hr : (rules.find? fun r => r.name == name) = some (.set name (listOf item read) put))
    (he : xs = [] → put bs a = a) : Turns rules (Nodes.wrapped name xs f).value a (put bs a) := by
  unfold Nodes.wrapped
  cases xs with
  | nil =>
    rw [he rfl]
    exact .nil a
  | cons x xs =>
    have hl : Node.Reads name (listOf item read)
        (.group name [] (Nodes.join ((x :: xs).map f)).value) bs := by
      have h' := h.reads hname
      exact ⟨h'.sound, h'.named, h'.outcome⟩
    exact set hl hr

theorem each {f : γ → Logged Node} (h : ∀ x, (f x).value.Reads item read (g x))
    (hname : isName name = true)
    (hr : (rules.find? fun r => r.name == name) = some (.set name (listOf item read) put))
    (xs : List γ) (he : put [] a = a) :
    Turns rules (Nodes.each name xs f).value a (put (xs.map g) a) := by
  have hx : Turns [.item item read]
      (Nodes.join (xs.map fun x => do return [← f x])).value [] (xs.map g) := by
    rw [value_join_single]
    exact items h xs
  refine wrapped hx hname hr ?_
  rintro rfl
  exact he

end Turns

end MachineSpec.Markup
