import Mathlib.Data.List.Pairwise
import Mathlib.Logic.Relation
import MachineSpec.Markup.Arrangement
import MachineSpec.Proofs.Markup.Acceptance

/-!
# The order of elements

An element is read by the rules for its children, each of which changes another part of what has
been read.  So children of different names may change places; elements around one list add to it, so
they may share its items in any way; and a grant is read as if those before it were not there.

* `Leads`                          what the children of an element change, one after the other
* `Rule.Commutes`, `Gathers`, `Overwrites`   what may be done with the children of a rule
* `Respects`                       a reading that takes no notice of a rearrangement
* `Arranged`                       rules that take no notice of one
* `Spec.ofElement_rearranged`      any number of them
-/

namespace MachineSpec

open Logged (outcome)

namespace Markup

open Element

/-! ## children, one after the other -/

section leads
variable {α β : Type} {rules : List (Rule α)} {es ds : List Element} {a b : α}

/-- children turn what has been read before them into what has been read after them -/
def Leads (rules : List (Rule α)) : List Element → α → α → Prop
  | [], a, b => a = b
  | c :: cs, a, b => ∃ r f, (rules.find? fun r => r.name == c.name) = some r ∧
      outcome (r.read c) = .ok f ∧ Leads rules cs (f a) b

theorem outcome_change_iff {e c : Element} {f : α → α} :
    outcome (e.change rules c) = .ok f ↔
      ∃ r, (rules.find? fun r => r.name == c.name) = some r ∧ outcome (r.read c) = .ok f := by
  unfold change
  cases h : rules.find? fun r => r.name == c.name with
  | none => exact ⟨nofun, nofun⟩
  | some r => exact ⟨fun hf => ⟨r, rfl, hf⟩, fun ⟨_, hr, hf⟩ => Option.some.inj hr ▸ hf⟩

theorem leads_iff_mapM {e : Element} : Leads rules es a b ↔
    ∃ fs, outcome (es.mapM (e.change rules)) = .ok fs ∧ fs.foldl (fun a f => f a) a = b := by
  induction es generalizing a with
  | nil =>
    constructor
    · exact fun h => ⟨[], rfl, h⟩
    · rintro ⟨fs, hfs, hb⟩
      cases hfs
      exact hb
  | cons c es ih =>
    constructor
    · rintro ⟨r, f, hr, hf, h⟩
      obtain ⟨fs, hfs, hb⟩ := ih.1 h
      have hc : outcome (e.change rules c) = .ok f := outcome_change_iff.2 ⟨r, hr, hf⟩
      refine ⟨f :: fs, ?_, hb⟩
      rw [Logged.outcome_mapM_cons, hc, hfs]
      rfl
    · rintro ⟨fs, hfs, hb⟩
      rw [List.mapM_cons] at hfs
      obtain ⟨f, hf, hfs⟩ := exists_of_outcome_bind hfs
      obtain ⟨fs', hfs', h⟩ := exists_of_outcome_bind hfs
      cases h
      obtain ⟨r, hr, hf⟩ := outcome_change_iff.1 hf
      exact ⟨r, f, hr, hf, ih.2 ⟨fs', hfs', hb⟩⟩

theorem outcome_changes_iff {e : Element} :
    outcome (e.changes rules a) = .ok b ↔ Leads rules e.children a b := by
  rw [leads_iff_mapM (e := e)]
  constructor
  · intro h
    obtain ⟨fs, hfs, h⟩ := exists_of_outcome_bind h
    cases h
    exact ⟨fs, hfs, rfl⟩
  · rintro ⟨fs, hfs, rfl⟩
    unfold changes
    rw [Logged.outcome_bind, hfs]
    rfl

theorem leads_append : Leads rules (es ++ ds) a b ↔
    ∃ m, Leads rules es a m ∧ Leads rules ds m b := by
  induction es generalizing a with
  | nil => exact ⟨fun h => ⟨a, rfl, h⟩, fun ⟨_, hm, h⟩ => hm ▸ h⟩
  | cons c es ih =>
    constructor
    · rintro ⟨r, f, hr, hf, h⟩
      obtain ⟨m, hm, h⟩ := ih.1 h
      exact ⟨m, ⟨r, f, hr, hf, hm⟩, h⟩
    · rintro ⟨m, ⟨r, f, hr, hf, hm⟩, h⟩
      exact ⟨r, f, hr, hf, ih.2 ⟨m, hm, h⟩⟩

/-- only a stretch of the children is put differently -/
theorem Leads.replace {before after es' : List Element}
    (h : Leads rules (before ++ (es ++ after)) a b)
    (hes : ∀ a b, Leads rules es a b → Leads rules es' a b) :
    Leads rules (before ++ (es' ++ after)) a b := by
  obtain ⟨m, hm, h⟩ := leads_append.1 h
  obtain ⟨m', hm', h⟩ := leads_append.1 h
  exact leads_append.2 ⟨m, hm, leads_append.2 ⟨m', hes m m' hm', h⟩⟩

end leads

/-! ## what a rule allows -/

namespace Rule
variable {α β γ : Type} {r r' : Rule α} {name name' : String} {read : Element → Reading β}
  {read' : Element → Reading γ} {put : β → α → α} {put' : γ → α → α}

/-- what a child changes is to put a value into what has been read -/
def Puts (r : Rule α) (put : β → α → α) : Prop :=
  ∀ c f, outcome (r.read c) = .ok f → ∃ b, f = put b

theorem Puts.set : (Rule.set name read put).Puts put := by
  intro c f h
  obtain ⟨b, -, rfl⟩ := exists_of_outcome_map h
  exact ⟨b, rfl⟩

@[simp] theorem setSome_eq {put : Option β → α → α} :
    Rule.setSome name read put = .set name read fun b => put (some b) := rfl

@[simp] theorem name_set : (Rule.set name read put).name = name := rfl

/-- two rules whose children may change places -/
def Commutes (r r' : Rule α) : Prop :=
  ∀ c c' f f', outcome (r.read c) = .ok f → outcome (r'.read c') = .ok f' → ∀ a, f' (f a) = f (f' a)

instance : Std.Symm (@Commutes α) where
  symm _ _ h c c' f f' hf hf' a := (h c' c f' f hf' hf a).symm

theorem Commutes.of_puts (h : r.Puts put) (h' : r'.Puts put')
    (hput : ∀ b b' a, put' b' (put b a) = put b (put' b' a)) : r.Commutes r' := by
  intro c c' f f' hf hf' a
  obtain ⟨b, rfl⟩ := h c f hf
  obtain ⟨b', rfl⟩ := h' c' f' hf'
  exact hput b b' a

@[simp] theorem Commutes.set (hput : ∀ b b' a, put' b' (put b a) = put b (put' b' a)) :
    (Rule.set name read put).Commutes (.set name' read' put') := .of_puts .set .set hput

/-- a rule for the elements around the items of a list, which adds them to those before -/
inductive Gathers : Rule α → Prop
  | set {β : Type} {name item : String} {read : Element → Reading β} {put : List β → α → α}
      (nil : ∀ a, put [] a = a)
      (append : ∀ bs cs a, put cs (put bs a) = put (bs ++ cs) a) :
      Gathers (.set name (listOf item read) put)

attribute [simp] Gathers.set

/-- a child of the rule replaces what an earlier one has put -/
def Overwrites (r : Rule α) : Prop :=
  ∀ c c' f f', outcome (r.read c) = .ok f → outcome (r.read c') = .ok f' → ∀ a, f' (f a) = f' a

theorem Overwrites.set (hput : ∀ b b' a, put b' (put b a) = put b' a) :
    (Rule.set name read put).Overwrites := by
  intro c c' f f' hf hf' a
  obtain ⟨b, rfl⟩ := Puts.set c f hf
  obtain ⟨b', rfl⟩ := Puts.set c' f' hf'
  exact hput b b' a

end Rule

/-! ## what a rearrangement keeps -/

namespace Element.Rearranged
variable {e e' : Element}

/-- only the children of an element change -/
theorem exists_children (h : Rearranged e e') :
    ∃ n as t es es', e = .mk n as t es ∧ e' = .mk n as t es' ∧ es ≠ [] ∧ es' ≠ [] := by
  cases h with
  | @regroup n as t before ws ws' after name wrapper some named some' named' plain' items =>
    refine ⟨n, as, t, _, _, rfl, rfl, ?_, ?_⟩ <;> simp [some, some']
  | _ => exact ⟨_, _, _, _, _, rfl, rfl, by simp, by simp⟩

theorem name_eq (h : Rearranged e e') : e'.name = e.name := by
  obtain ⟨n, as, t, es, es', rfl, rfl, -⟩ := h.exists_children
  rfl

end Element.Rearranged

section respects
variable {α β : Type} {name item : String} {read : Element → Reading β}

/-- the reading of an element of this name takes no notice of a rearrangement -/
def Respects (name : String) (read : Element → Reading β) : Prop :=
  ∀ e e', e.name = name → Rearranged e e' →
    ∀ b, outcome (read e) = .ok b → outcome (read e') = .ok b

/-- there is nothing to rearrange in an element that holds no others -/
theorem Respects.leaf (h : ∀ e b, outcome (read e) = .ok b → e.children = []) :
    Respects name read := by
  intro e e' _ hr b hb
  obtain ⟨n, as, t, es, es', rfl, -, hne, -⟩ := hr.exists_children
  exact absurd (h _ b hb) hne

theorem Respects.map {f : β → α} (h : Respects name read) :
    Respects name fun e => f <$> read e := by
  intro e e' hn hr a ha
  obtain ⟨b, hb, rfl⟩ := exists_of_outcome_map ha
  rw [Logged.outcome_map, h e e' hn hr b hb]
  rfl

/-- rules for the children of an element that take no notice of a rearrangement -/
structure Arranged (name : String) (rules : List (Rule α)) : Prop where
  commute : name ≠ "Hostname" → rules.Pairwise Rule.Commutes
  gather : ∀ r ∈ rules, r.name ∈ wrappers → r.Gathers
  overwrite : name = "AuthorizedKeys" → ∀ r ∈ rules, r.Overwrites
  grant : name = "AuthorizedKeys" → ∀ c : Element, c.IsGrant →
    ∃ r f, (rules.find? fun r => r.name == c.name) = some r ∧ outcome (r.read c) = .ok f
  inside : ∀ r ∈ rules, Respects r.name r.read

end respects

/-! ## one change among the children -/

section changes
variable {α β : Type} {rules : List (Rule α)} {a b : α}

theorem rule_of_find? {c : Element} {r : Rule α}
    (h : (rules.find? fun r => r.name == c.name) = some r) : r ∈ rules ∧ r.name = c.name :=
  ⟨List.mem_of_find?_eq_some h,
    eq_of_beq (List.find?_some (p := fun r : Rule α => r.name == c.name) h)⟩

theorem Leads.swap (hrules : rules.Pairwise Rule.Commutes) {c d : Element} (hcd : c.name ≠ d.name)
    (h : Leads rules [c, d] a b) : Leads rules [d, c] a b := by
  obtain ⟨r, f, hr, hf, r', f', hr', hf', rfl⟩ := h
  obtain ⟨hmem, hname⟩ := rule_of_find? hr
  obtain ⟨hmem', hname'⟩ := rule_of_find? hr'
  have hne : r ≠ r' := fun h => hcd (hname.symm.trans ((congrArg Rule.name h).trans hname'))
  have hcomm : r.Commutes r' := hrules.forall hmem hmem' hne
  exact ⟨r', f', hr', hf', r, f, hr, hf, (hcomm c d f f' hf hf' a).symm⟩

/-- what tells two values apart is replaced by the children of a rule -/
def Rule.Blind (r : Rule α) (a b : α) : Prop := ∀ c f, outcome (r.read c) = .ok f → f a = f b

/-- so it makes no difference before a child of that rule, whatever stands between -/
theorem Leads.of_blind (hrules : rules.Pairwise Rule.Commutes) {es after : List Element}
    {d : Element} {r : Rule α} (hr : (rules.find? fun r => r.name == d.name) = some r) {a' : α}
    (ha : r.Blind a a') (h : Leads rules (es ++ d :: after) a b) :
    Leads rules (es ++ d :: after) a' b := by
  induction es generalizing a a' with
  | nil =>
    obtain ⟨r', f, hr', hf, h⟩ := h
    cases Option.some.inj (hr.symm.trans hr')
    exact ⟨r, f, hr, hf, ha d f hf ▸ h⟩
  | cons c es ih =>
    obtain ⟨r', f, hr', hf, h⟩ := h
    refine ⟨r', f, hr', hf, ih ?_ h⟩
    by_cases hsame : r = r'
    · subst hsame
      intro _ g _
      rw [ha c f hf]
    · have hcomm : r'.Commutes r :=
        hrules.forall (rule_of_find? hr').1 (rule_of_find? hr).1 (Ne.symm hsame)
      intro d g hg
      rw [hcomm c d f g hf hg, hcomm c d f g hf hg, ha d g hg]

theorem Leads.precede (hrules : rules.Pairwise Rule.Commutes)
    (hover : ∀ r ∈ rules, r.Overwrites) {between after : List Element} {c d : Element}
    (hcd : c.name = d.name) {r : Rule α} {f : α → α}
    (hr : (rules.find? fun r => r.name == c.name) = some r) (hf : outcome (r.read c) = .ok f)
    (h : Leads rules (between ++ d :: after) a b) :
    Leads rules (c :: (between ++ d :: after)) a b := by
  refine ⟨r, f, hr, hf, h.of_blind hrules (r := r) (hcd ▸ hr) ?_⟩
  exact fun d g hg => (hover r (rule_of_find? hr).1 c d f g hf hg a).symm

theorem Leads.inside (hrules : ∀ r ∈ rules, Respects r.name r.read) {c c' : Element}
    (hc : Rearranged c c') (h : Leads rules [c] a b) : Leads rules [c'] a b := by
  obtain ⟨r, f, hr, hf, rfl⟩ := h
  obtain ⟨hmem, hname⟩ := rule_of_find? hr
  exact ⟨r, f, by rw [hc.name_eq]; exact hr, hrules r hmem c c' hname.symm hc f hf, rfl⟩

/-! ## lists -/

variable {name item : String} {read : Element → Reading β}

/-- the items of a list come behind those before them -/
theorem leads_item {es : List Element} {bs ds : List β} :
    Leads [.item item read] es bs ds ↔ ∃ cs, ds = bs ++ cs ∧ Leads [.item item read] es [] cs := by
  induction es generalizing bs ds with
  | nil =>
    constructor
    · rintro rfl
      exact ⟨[], (List.append_nil bs).symm, rfl⟩
    · rintro ⟨cs, rfl, h⟩
      exact h ▸ (List.append_nil bs).symm
  | cons e es ih =>
    constructor
    · rintro ⟨r, f, hr, hf, h⟩
      cases List.mem_singleton.1 (rule_of_find? hr).1
      obtain ⟨b, hb, rfl⟩ := exists_of_outcome_map hf
      obtain ⟨cs, rfl, hcs⟩ := ih.1 h
      exact ⟨b :: cs, List.append_assoc bs [b] cs, _, _, hr, hf, ih.2 ⟨cs, rfl, hcs⟩⟩
    · rintro ⟨cs, rfl, r, f, hr, hf, h⟩
      cases List.mem_singleton.1 (rule_of_find? hr).1
      obtain ⟨b, hb, rfl⟩ := exists_of_outcome_map hf
      obtain ⟨cs', rfl, hcs⟩ := ih.1 h
      exact ⟨_, _, hr, hf, ih.2 ⟨cs', (List.append_assoc bs [b] cs').symm, hcs⟩⟩

theorem outcome_allow_nil_iff {e : Element} :
    outcome (e.allow []) = .ok () ↔ e.attributes = [] := by
  unfold allow
  cases e.attributes with
  | nil => exact ⟨fun _ => rfl, fun _ => rfl⟩
  | cons a as => exact ⟨nofun, nofun⟩

theorem outcome_fields_iff {e : Element} :
    outcome (e.fields rules a) = .ok b ↔ e.IsPlain ∧ Leads rules e.children a b := by
  rw [← outcome_changes_iff]
  constructor
  · intro h
    obtain ⟨_, ha, h⟩ := exists_of_outcome_bind h
    obtain ⟨_, ht, h⟩ := exists_of_outcome_bind h
    exact ⟨⟨outcome_allow_nil_iff.1 ha, Grammar.accepted_noText.1 ⟨_, ht⟩⟩, h⟩
  · rintro ⟨⟨ha, ht⟩, h⟩
    obtain ⟨_, ht⟩ := Grammar.accepted_noText.2 ht
    unfold fields
    rw [Logged.outcome_bind, outcome_allow_nil_iff.2 ha, Except.bind, Logged.outcome_bind, ht]
    exact h

theorem outcome_listOf_iff {e : Element} {bs : List β} :
    outcome (listOf item read e) = .ok bs ↔
      e.IsPlain ∧ Leads [.item item read] e.children [] bs := outcome_fields_iff

/-- elements around one list hold its items in the order in which they stand -/
theorem leads_listOf {put : List β → α → α} (nil : ∀ a, put [] a = a)
    (append : ∀ bs cs a, put cs (put bs a) = put (bs ++ cs) a)
    (hr : (rules.find? fun r => r.name == name) = some (.set name (listOf item read) put))
    {ws : List Element} (hws : ∀ w ∈ ws, w.name = name) :
    Leads rules ws a b ↔ (∀ w ∈ ws, w.IsPlain) ∧
      ∃ bs, Leads [.item item read] (ws.flatMap children) [] bs ∧ b = put bs a := by
  induction ws generalizing a with
  | nil =>
    constructor
    · rintro rfl
      exact ⟨nofun, [], rfl, (nil a).symm⟩
    · rintro ⟨-, bs, rfl, rfl⟩
      exact (nil a).symm
  | cons w ws ih =>
    have hws' := fun w' hw => hws w' (List.mem_cons_of_mem w hw)
    rw [← hws w List.mem_cons_self] at hr
    rw [List.forall_mem_cons]
    constructor
    · rintro ⟨r, f, hr', hf, h⟩
      cases Option.some.inj (hr.symm.trans hr')
      obtain ⟨bs, hbs, rfl⟩ := exists_of_outcome_map hf
      obtain ⟨hw, hbs⟩ := outcome_listOf_iff.1 hbs
      obtain ⟨hplain, cs, hcs, rfl⟩ := (ih hws').1 h
      refine ⟨⟨hw, hplain⟩, bs ++ cs, ?_, append bs cs a⟩
      exact leads_append.2 ⟨bs, hbs, leads_item.2 ⟨cs, rfl, hcs⟩⟩
    · rintro ⟨⟨hw, hplain⟩, ds, hds, rfl⟩
      obtain ⟨bs, hbs, hds⟩ := leads_append.1 hds
      obtain ⟨cs, rfl, hcs⟩ := leads_item.1 hds
      refine ⟨_, put bs, hr, ?_, (ih hws').2 ⟨hplain, cs, hcs, (append bs cs a).symm⟩⟩
      show outcome (put <$> listOf item read w) = _
      rw [Logged.outcome_map, outcome_listOf_iff.2 ⟨hw, hbs⟩]
      rfl

theorem Leads.regroup {r : Rule α} (hr : (rules.find? fun r => r.name == name) = some r)
    (hgather : r.Gathers) {ws ws' : List Element} (hws : ∀ w ∈ ws, w.name = name)
    (hws' : ∀ w ∈ ws', w.name = name) (plain' : ∀ w ∈ ws', w.IsPlain)
    (items : ws.flatMap children = ws'.flatMap children) (h : Leads rules ws a b) :
    Leads rules ws' a b := by
  have hname : r.name = name :=
    eq_of_beq (List.find?_some (p := fun r : Rule α => r.name == name) hr)
  cases hgather with
  | set nil append =>
    cases hname
    obtain ⟨-, bs, hbs, hb⟩ := (leads_listOf nil append hr hws).1 h
    exact (leads_listOf nil append hr hws').2 ⟨plain', bs, items ▸ hbs, hb⟩

/-- rules that take no notice of a rearrangement read the children alike -/
theorem Arranged.leads {e e' : Element} (h : Arranged e.name rules) (he : Rearranged e e')
    (hab : Leads rules e.children a b) : Leads rules e'.children a b := by
  cases he with
  | swap parent names => exact hab.replace fun _ _ h' => h'.swap (h.commute parent) names
  | @regroup n as t before ws ws' after name wrapper some named some' named' plain' items =>
    show Leads rules (before ++ ws' ++ after) a b
    rw [List.append_assoc]
    have hab : Leads rules (before ++ ws ++ after) a b := hab
    rw [List.append_assoc] at hab
    refine hab.replace fun _ _ h' => ?_
    obtain ⟨w, ws, rfl⟩ := List.exists_cons_of_ne_nil some
    obtain ⟨r, f, hr, -, -⟩ := id h'
    rw [named w List.mem_cons_self] at hr
    have hname : r.name = name :=
      eq_of_beq (List.find?_some (p := fun r : Rule α => r.name == name) hr)
    exact h'.regroup hr (h.gather r (List.mem_of_find?_eq_some hr) (hname ▸ wrapper)) named named'
      plain' items
  | @precede as t before between after c d grant named =>
    have hparent : "AuthorizedKeys" ≠ "Hostname" := by decide
    obtain ⟨r, f, hr, hf⟩ := h.grant rfl c grant
    obtain ⟨m, hm, hmb⟩ := leads_append.1 hab
    exact leads_append.2
      ⟨m, hm, hmb.precede (h.commute hparent) (h.overwrite rfl) named hr hf⟩
  | inside child => exact hab.replace fun _ _ h' => h'.inside h.inside child

end changes

/-! ## elements -/

section elements
variable {α β : Type} {name item : String} {read : Element → Reading β} {rules : List (Rule α)}
  {start : α}

theorem Arranged.fields (h : Arranged name rules) :
    Respects name fun e => e.fields rules start := by
  intro e e' hn he b hb
  obtain ⟨hplain, hleads⟩ := outcome_fields_iff.1 hb
  have hleads' := (hn ▸ h : Arranged e.name rules).leads he hleads
  obtain ⟨n, as, t, es, es', rfl, rfl, -⟩ := he.exists_children
  exact outcome_fields_iff.2 ⟨⟨hplain.attributes, hplain.blank⟩, hleads'⟩

/-- rules for children that hold no lists and grant nothing -/
theorem Arranged.plain (hn : name ≠ "AuthorizedKeys") (hw : ∀ r ∈ rules, r.name ∉ wrappers)
    (commute : rules.Pairwise Rule.Commutes) (inside : ∀ r ∈ rules, Respects r.name r.read) :
    Arranged name rules where
  commute _ := commute
  gather r hr h := absurd h (hw r hr)
  overwrite h := absurd h hn
  grant h := absurd h hn
  inside := inside

theorem Arranged.listed (hn : name ≠ "AuthorizedKeys") (hi : item ∉ wrappers)
    (h : Respects item read) : Arranged name [.item item read] :=
  .plain hn (List.forall_mem_singleton.2 hi) (List.pairwise_singleton _ _)
    (List.forall_mem_singleton.2 h.map)

theorem Respects.listOf (hn : name ≠ "AuthorizedKeys") (hi : item ∉ wrappers)
    (h : Respects item read) : Respects name (listOf item read) := (Arranged.listed hn hi h).fields

end elements

/-! ## leaves -/

section leaves
variable {e : Element} {name : String}

theorem childless_of_noChildren (h : outcome e.noChildren = .ok ()) : e.children = [] :=
  Grammar.accepted_noChildren.1 ⟨_, h⟩

theorem childless_of_asText {s : String} (h : outcome e.asText = .ok s) : e.children = [] :=
  (Grammar.accepted_asText.1 ⟨s, h⟩).2

theorem Respects.asText : Respects name asText := .leaf fun _ _ h => childless_of_asText h

theorem Respects.asNumber : Respects name asNumber := .leaf fun _ _ h => by
  obtain ⟨s, hs, -⟩ := exists_of_outcome_bind h
  exact childless_of_asText hs

theorem Respects.asKeyword {α : Type} [Keyword α] :
    Respects name (asKeyword : Element → Reading α) := .leaf fun _ _ h => by
  obtain ⟨s, hs, -⟩ := exists_of_outcome_bind h
  exact childless_of_asText hs

theorem childless_of_selector {k : Kind} {i : Fin k.selectors.length}
    (h : outcome (e.selector k) = .ok i) : e.children = [] := by
  obtain ⟨_, -, h⟩ := exists_of_outcome_bind h
  obtain ⟨_, hc, -⟩ := exists_of_outcome_bind h
  exact childless_of_noChildren hc

theorem Respects.asReference {k : Kind} :
    Respects name (asReference : Element → Reading (Reference k)) := .leaf fun _ _ h => by
  obtain ⟨i, hi, -⟩ := exists_of_outcome_bind h
  exact childless_of_selector hi

end leaves

end Markup

open Markup Markup.Element

/-! ## the parts of a specification -/

/-- what comes to a value still does when its steps do -/
theorem outcome_bind_mono {α β : Type} {x y : Reading α} {f g : α → Reading β} {b : β}
    (hxy : ∀ a, outcome x = .ok a → outcome y = .ok a)
    (hfg : ∀ a, outcome (f a) = .ok b → outcome (g a) = .ok b) (h : outcome (x >>= f) = .ok b) :
    outcome (y >>= g) = .ok b := by
  obtain ⟨a, hx, hf⟩ := exists_of_outcome_bind h
  rw [Logged.outcome_bind, hxy a hx]
  exact hfg a hf

theorem Resources.respects : Respects "Resources" ofElement := by
  refine (Arranged.plain (by decide) (by decide) (by simp) ?_).fields
  simp only [List.forall_mem_cons]
  exact ⟨Respects.asReference.map, Respects.asNumber.map, Respects.asNumber.map, nofun⟩

theorem TemplateOption.respects : Respects "Option" ofElement := .leaf fun _ _ h => by
  obtain ⟨_, -, h⟩ := exists_of_outcome_bind h
  obtain ⟨_, hc, -⟩ := exists_of_outcome_bind h
  exact childless_of_noChildren hc

namespace DiskTemplate

theorem puts_selectorRule : selectorRule.Puts
    fun (p : Fin Kind.diskTemplate.selectors.length × String) t =>
      { t with reference := t.reference.put p.1 p.2 } := by
  intro c f h
  obtain ⟨i, -, h⟩ := exists_of_outcome_bind h
  cases h
  exact ⟨(i, c.text), rfl⟩

theorem respects_selectorRule : Respects selectorRule.name selectorRule.read :=
  .leaf fun _ _ h => by
    obtain ⟨i, hi, -⟩ := exists_of_outcome_bind h
    exact childless_of_selector hi

theorem respects : Respects "DiskTemplate" ofElement := by
  refine (Arranged.plain (by decide) (by decide) ?_ ?_).fields
  · have hversion : selectorRule.Commutes
        (.set "Version" asNumber fun n t => { t with version := n }) :=
      .of_puts puts_selectorRule .set fun _ _ _ => rfl
    have hoption : selectorRule.Commutes (.set "Option" TemplateOption.ofElement fun o t =>
        { t with options := t.options ++ [o] }) :=
      .of_puts puts_selectorRule .set fun _ _ _ => rfl
    simp [rules, hversion, hoption]
  · simp only [rules, List.forall_mem_cons]
    exact ⟨respects_selectorRule, Respects.asNumber.map, TemplateOption.respects.map, nofun⟩

end DiskTemplate

theorem Schedule.respects : Respects "Schedule" ofElement := by
  refine (Arranged.plain (by decide) (by decide) (by simp) ?_).fields
  simp only [List.forall_mem_cons]
  exact ⟨Respects.asKeyword.map, Respects.asNumber.map, Respects.asNumber.map, nofun⟩

theorem BackupPolicy.respects : Respects "BackupPolicy" ofElement := by
  refine (Arranged.plain (by decide) (by decide) (by simp) ?_).fields
  simp only [List.forall_mem_cons]
  exact ⟨Respects.asNumber.map, Schedule.respects.map, nofun⟩

theorem BackupPolicy.respects_listOf : Respects "BackupPolicies" listOf :=
  Respects.listOf (by decide) (by decide) respects

theorem SystemDisk.respects : Respects "Disk" ofElement := Arranged.fields {
  commute := fun _ => by simp
  gather := by
    simp [wrappers, BackupPolicy.listOf]
  overwrite := fun h => absurd h (by decide)
  grant := fun h => absurd h (by decide)
  inside := by
    simp only [List.forall_mem_cons]
    exact ⟨Respects.asText.map, Respects.asNumber.map, Respects.asText.map,
      Respects.asReference.map, Respects.asText.map, BackupPolicy.respects_listOf.map, nofun⟩ }

theorem Allocation.respects : Respects "IPAddressAllocation" ofElement := by
  have hrules : Arranged "IPAddressAllocation" rules := by
    refine .plain (by decide) (by decide) (by simp [rules]) ?_
    simp only [rules, List.forall_mem_cons]
    exact ⟨Respects.asReference.map, Respects.asReference.map, Respects.asKeyword.map, nofun⟩
  intro e e' hn he a h
  have hleads : ∀ start, Leads rules e.children start a → Leads rules e'.children start a :=
    fun _ => (hn ▸ hrules : Arranged e.name rules).leads he
  obtain ⟨n, as, t, es, es', rfl, rfl, -⟩ := he.exists_children
  -- what is read before the children does not depend on them
  refine outcome_bind_mono (fun _ => id) (fun _ => ?_) h
  refine outcome_bind_mono (fun _ => id) fun _ => ?_
  refine outcome_bind_mono (fun _ => id) fun _ => ?_
  rw [outcome_changes_iff, outcome_changes_iff]
  exact hleads _

theorem NetworkInterface.respects : Respects "NetworkInterface" ofElement := by
  refine (Arranged.plain (by decide) (by decide) (by simp) ?_).fields
  simp only [List.forall_mem_cons]
  exact ⟨Respects.asReference.map, Respects.asReference.map, Respects.asReference.map,
    Allocation.respects.map, nofun⟩

theorem Access.respects {k : Kind} {name item : String} (hn : name ≠ "AuthorizedKeys")
    (hi : item ∉ wrappers) : Respects name (ofElement item : Element → Reading (Access k)) := by
  intro e e' hname he a h
  have hrules : Arranged e.name [.item item (asReference : Element → Reading (Reference k))] := by
    rw [hname]
    exact .listed hn hi Respects.asReference
  have hleads (rs : List (Reference k)) : Leads [.item item asReference] e.children [] rs →
      Leads [.item item asReference] e'.children [] rs := hrules.leads he
  obtain ⟨n, as, t, es, es', rfl, rfl, -⟩ := he.exists_children
  have hitems : ∀ all : Bool,
      outcome (do return (⟨all, ← (Element.mk n as t es).items item asReference⟩ : Access k)) =
        .ok a →
      outcome (do return (⟨all, ← (Element.mk n as t es').items item asReference⟩ : Access k)) =
        .ok a := by
    refine fun all => outcome_bind_mono (fun rs => ?_) fun _ => id
    refine outcome_bind_mono (fun _ => id) fun _ => ?_
    rw [outcome_changes_iff, outcome_changes_iff]
    exact hleads rs
  refine outcome_bind_mono (fun _ => id) (fun _ => ?_) h
  simp only [attribute?, Element.attributes]
  cases as.lookup "all" with
  | none => exact hitems false
  | some value =>
    dsimp only
    cases flag? (Text.trim value) with
    | none => exact nofun
    | some all => exact hitems all

theorem AuthorizedKeys.respects : Respects "AuthorizedKeys" ofElement := Arranged.fields {
  commute := fun _ => by simp
  gather := by simp [wrappers]
  overwrite := fun _ => by
    simp only [List.forall_mem_cons]
    exact ⟨.set fun _ _ _ => rfl, .set fun _ _ _ => rfl, nofun⟩
  grant := fun _ c hc => by
    cases hc with
    | users named a read =>
      refine ⟨_, fun k => { k with users := a }, by rw [named]; rfl, ?_⟩
      exact (Logged.outcome_map _ _).trans (congrArg (Except.map _) read)
    | sshKeys named a read =>
      refine ⟨_, fun k => { k with sshKeys := a }, by rw [named]; rfl, ?_⟩
      exact (Logged.outcome_map _ _).trans (congrArg (Except.map _) read)
  inside := by
    simp only [List.forall_mem_cons]
    exact ⟨(Access.respects (by decide) (by decide)).map,
      (Access.respects (by decide) (by decide)).map, nofun⟩ }

namespace Spec

theorem respects_asRandom : Respects "Random" asRandom := .leaf fun _ _ h => by
  obtain ⟨_, -, h⟩ := exists_of_outcome_bind h
  obtain ⟨_, hc, -⟩ := exists_of_outcome_bind h
  exact childless_of_noChildren hc

theorem respects_hostname : Respects "Hostname" hostnameOfElement := Arranged.fields {
  commute := fun h => absurd rfl h
  gather := by simp [wrappers]
  overwrite := fun h => absurd h (by decide)
  grant := fun h => absurd h (by decide)
  inside := by
    simp only [List.forall_mem_cons]
    exact ⟨Respects.asText.map, respects_asRandom.map, nofun⟩ }

theorem respects_name : Respects "Name" nameOfElement := by
  have hfields : Respects "Name" fun e => e.fields [.set "Name" asText fun s _ => s] "" := by
    refine (Arranged.plain (by decide) (by decide) (List.pairwise_singleton _ _) ?_).fields
    exact List.forall_mem_singleton.2 Respects.asText.map
  intro e e' hn he s hs
  have hread := hfields e e' hn he s
  obtain ⟨n, as, t, es, es', rfl, rfl, hne, hne'⟩ := he.exists_children
  unfold nameOfElement at hs ⊢
  simp only [children, List.isEmpty_iff, hne, hne', ↓reduceIte] at hs ⊢
  exact hread hs

theorem respects_rules : ∀ r ∈ rules, Respects r.name r.read := by
  simp only [rules, List.forall_mem_cons]
  exact ⟨Respects.asReference.map, Respects.asReference.map, Resources.respects.map,
    DiskTemplate.respects.map, (SystemDisk.respects.listOf (by decide) (by decide)).map,
    (Respects.asReference.listOf (by decide) (by decide)).map,
    (NetworkInterface.respects.listOf (by decide) (by decide)).map, respects_hostname.map,
    respects_name.map, Respects.asText.map, Respects.asReference.map, AuthorizedKeys.respects.map,
    BackupPolicy.respects_listOf.map, (Respects.asText.listOf (by decide) (by decide)).map,
    Respects.asReference.map, nofun⟩

theorem arranged_rules : Arranged "VirtualMachineSpec" rules where
  commute _ := by simp [rules]
  gather := by
    simp [rules, wrappers, BackupPolicy.listOf]
  overwrite h := absurd h (by decide)
  grant h := absurd h (by decide)
  inside := respects_rules

/-- one rearrangement -/
theorem respects : Respects "VirtualMachineSpec" ofElement := by
  intro e e' hn he s hs
  unfold ofElement at hs ⊢
  rw [if_pos hn] at hs
  rw [if_pos (he.name_eq.trans hn)]
  exact arranged_rules.fields e e' hn he s hs

theorem name_of_ofElement {e : Element} {s : Spec} (h : outcome (ofElement e) = .ok s) :
    e.name = "VirtualMachineSpec" := by
  unfold ofElement at h
  split at h
  · next hn => exact hn
  · cases h

/-- siblings of different names may change places, the items of a list may be spread over elements
around it in any way, and a grant may stand before one that replaces it: however often a tree is
rearranged, it is accepted as the same specification -/
theorem ofElement_rearranged {e e' : Element} {s : Spec}
    (he : Relation.ReflTransGen Rearranged e e') (hs : outcome (ofElement e) = .ok s) :
    outcome (ofElement e') = .ok s := by
  induction he with
  | refl => exact hs
  | tail _ hstep ih => exact respects _ _ (name_of_ofElement ih) hstep s ih

section example_tree

def namedDisk : Element :=
  .mk "Disk" [] "" [.mk "Name" [] "a" [], .mk "Size" [] "1" []]

def emptyDisk : Element := .mk "Disk" [] "" []

def allUsers : Element := .mk "Users" [("all", "yes")] "" []

/-- two disks in one list, and all users -/
def gathered : Element := .mk "VirtualMachineSpec" [] "" [
  .mk "SystemDisks" [] "" [namedDisk, emptyDisk],
  .mk "AuthorizedKeys" [] "" [allUsers]]

def soleUser : Element := .mk "Users" [] "" [.mk "User" [] "b" []]

/-- the disks in two lists behind the users, the parts of one the other way round, and a user before
all of them -/
def scattered : Element := .mk "VirtualMachineSpec" [] "" [
  .mk "AuthorizedKeys" [] "" [soleUser, allUsers],
  .mk "SystemDisks" [] "" [.mk "Disk" [] "" [.mk "Size" [] "1" [], .mk "Name" [] "a" []]],
  .mk "SystemDisks" [] "" [emptyDisk]]

theorem rearranged_scattered : Relation.ReflTransGen Rearranged gathered scattered := by
  let keys : Element := .mk "AuthorizedKeys" [] "" [allUsers]
  let front : Element := .mk "SystemDisks" [] "" [namedDisk]
  let back : Element := .mk "SystemDisks" [] "" [emptyDisk]
  let both : Element := .mk "SystemDisks" [] "" [namedDisk, emptyDisk]
  have hplain : ∀ es, (Element.mk "SystemDisks" [] "" es).IsPlain := fun es => ⟨rfl, nofun⟩
  have hswap : Rearranged gathered (.mk "VirtualMachineSpec" [] "" [keys, both]) :=
    @Rearranged.swap "VirtualMachineSpec" [] "" [] [] both keys (by decide) (by decide)
  have hsplit : Rearranged (.mk "VirtualMachineSpec" [] "" [keys, both])
      (.mk "VirtualMachineSpec" [] "" [keys, front, back]) :=
    @Rearranged.regroup "VirtualMachineSpec" [] "" [keys] [both] [front, back] [] "SystemDisks"
      (by decide) (by simp) (List.forall_mem_singleton.2 rfl) (by simp)
      (by simp [front, back, Element.name]) (by simp [front, back, hplain]) rfl
  have hparts : Rearranged (.mk "VirtualMachineSpec" [] "" [keys, front, back])
      (.mk "VirtualMachineSpec" [] "" [keys,
        .mk "SystemDisks" [] "" [.mk "Disk" [] "" [.mk "Size" [] "1" [], .mk "Name" [] "a" []]],
        back]) :=
    @Rearranged.inside "VirtualMachineSpec" [] "" [keys] [back] front _
      (@Rearranged.inside "SystemDisks" [] "" [] [] namedDisk _
        (@Rearranged.swap "Disk" [] "" [] [] _ _ (by decide) (by decide)))
  have hgrant : Rearranged (.mk "VirtualMachineSpec" [] "" [keys,
        .mk "SystemDisks" [] "" [.mk "Disk" [] "" [.mk "Size" [] "1" [], .mk "Name" [] "a" []]],
        back]) scattered :=
    @Rearranged.inside "VirtualMachineSpec" [] "" [] _ keys _
      (@Rearranged.precede [] "" [] [] [] soleUser allUsers (.users rfl _ rfl) rfl)
  exact .tail (.tail (.tail (.single hswap) hsplit) hparts) hgrant

/-- the statement at that tree -/
theorem ofElement_rearranged_scattered :
    Relation.ReflTransGen Rearranged gathered scattered ∧
      outcome (ofElement gathered) = .ok {
        systemDisks := [{ name := "a", size := 1 }, {}]
        authorizedKeys := some { users := ⟨true, []⟩ } } ∧
      outcome (ofElement scattered) = .ok {
        systemDisks := [{ name := "a", size := 1 }, {}]
        authorizedKeys := some { users := ⟨true, []⟩ } } := by
  have hgathered : outcome (ofElement gathered) = .ok {
      systemDisks := [{ name := "a", size := 1 }, {}]
      authorizedKeys := some { users := ⟨true, []⟩ } } := by rfl
  exact ⟨rearranged_scattered, hgathered, ofElement_rearranged rearranged_scattered hgathered⟩

end example_tree

end Spec

end MachineSpec
