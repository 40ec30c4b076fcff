import MachineSpec.Markup.Content
import MachineSpec.Markup.Grammar
import MachineSpec.Proofs.Document.Fits
import MachineSpec.Proofs.Markup.Distinct
import MachineSpec.Proofs.Reference.Selection

/-!
# Markup is accepted by its grammar

Reading an element comes to a value if and only if the element conforms to the grammar of what is
read.  Each reading is described by a grammar of its own; an element that holds others is described
child by child, by the grammar for each name.

* `Grammar.Describes`         the grammar of what a reading accepts
* `describes_holder`          elements that hold others
* `Spec.accepted_ofElement`   the elements that are accepted as specifications
* `Spec.accepted_ofMarkup`    the texts that are
-/

namespace MachineSpec

open Logged (outcome)

namespace Markup

open Element

/-- the grammar of the elements that a reading accepts -/
def Grammar.Describes {α : Type} (g : Grammar) (read : Element → Reading α) : Prop :=
  ∀ e : Element, e.Distinct → (Accepted (read e) ↔ g.Conforms e)

namespace Grammar

theorem conforms_leaf {attributes : Attributes} {text : String → Prop} {e : Element} :
    (Grammar.leaf attributes text).Conforms e ↔
      attributes.Know e ∧ e.children = [] ∧ text e.text :=
  ⟨fun | .leaf known childless value => ⟨known, childless, value⟩,
    fun ⟨known, childless, value⟩ => .leaf known childless value⟩

theorem conforms_holder {attributes : Attributes} {parts : List (String × Grammar)} {e : Element} :
    (Grammar.holder attributes parts).Conforms e ↔
      attributes.Know e ∧ (∀ c ∈ e.text.toList, Text.isBlank c = true) ∧
        ∀ child ∈ e.children, child.name ∈ parts.map Prod.fst ∧
          ∀ g, parts.lookup child.name = some g → g.Conforms child := by
  constructor
  · rintro (_ | ⟨known, blank, listed, children⟩)
    exact ⟨known, blank, fun child hc => ⟨listed child hc, children child hc⟩⟩
  · rintro ⟨known, blank, children⟩
    exact .holder known blank (fun child hc => (children child hc).1) fun child hc =>
      (children child hc).2

/-! ## attributes -/

theorem accepted_allow {e : Element} {keys : List String} :
    Accepted (e.allow keys) ↔ ∀ a ∈ e.attributes, a.1 ∈ keys := by
  unfold allow
  split
  · next h =>
    refine ⟨fun _ a ha => ?_, fun _ => accepted_pure ()⟩
    simpa using List.find?_eq_none.1 h a ha
  · next a h =>
    refine ⟨fun ht => absurd ht (not_accepted_throw _), fun hall => ?_⟩
    have hk := hall a (List.mem_of_find?_eq_some h)
    have hn := List.find?_some h
    simp [hk] at hn

/-- no attribute is known -/
theorem know_nil {e : Element} : Attributes.Know [] e ↔ ∀ a ∈ e.attributes, a.1 ∈ [] := by
  constructor
  · intro h a ha
    obtain ⟨values, hm, -⟩ := h a ha
    exact absurd hm List.not_mem_nil
  · exact fun h a ha => absurd (h a ha) List.not_mem_nil

/-- a single attribute is known, which can only stand there once -/
theorem know_one {e : Element} (he : e.Distinct) {key : String} {values : String → Prop} :
    Attributes.Know [(key, values)] e ↔
      (∀ a ∈ e.attributes, a.1 ∈ [key]) ∧ ∀ value ∈ e.attribute? key, values value := by
  obtain ⟨hkeys, -⟩ := he
  have hone : ∀ a : String × String, (∃ vs, (a.1, vs) ∈ [(key, values)] ∧ vs a.2) ↔
      a.1 ∈ [key] ∧ values a.2 := by
    intro a
    constructor
    · rintro ⟨vs, hm, hv⟩
      obtain ⟨hname, rfl⟩ := Prod.mk.inj (List.mem_singleton.1 hm)
      exact ⟨List.mem_singleton.2 hname, hv⟩
    · rintro ⟨hname, hv⟩
      exact ⟨values, by rw [List.mem_singleton.1 hname]; exact List.mem_cons_self, hv⟩
  have hvalue : ∀ a ∈ e.attributes, a.1 ∈ [key] → e.attribute? key = some a.2 := by
    rintro ⟨name, value⟩ ha hname
    obtain rfl := List.mem_singleton.1 hname
    exact lookup_of_mem hkeys ha
  unfold Attributes.Know
  simp only [hone]
  constructor
  · intro h
    exact ⟨fun a ha => (h a ha).1, fun value hv => (h _ (mem_of_lookup hv)).2⟩
  · rintro ⟨hnames, hvalues⟩ a ha
    exact ⟨hnames a ha, hvalues a.2 (hvalue a ha (hnames a ha))⟩

/-! ## leaves -/

theorem accepted_noChildren {e : Element} : Accepted e.noChildren ↔ e.children = [] := by
  unfold noChildren
  split
  · next h => exact ⟨fun _ => h, fun _ => accepted_pure ()⟩
  · next child rest h =>
    refine ⟨fun ht => absurd ht (not_accepted_throw _), fun hn => ?_⟩
    rw [h] at hn
    cases hn

theorem accepted_noText {e : Element} :
    Accepted e.noText ↔ ∀ c ∈ e.text.toList, Text.isBlank c = true := by
  unfold noText
  rw [← List.all_eq_true]
  split
  · next h => exact ⟨fun _ => h, fun _ => accepted_pure ()⟩
  · next h => exact ⟨fun ht => absurd ht (not_accepted_throw _), fun hall => absurd hall h⟩

theorem accepted_asText {e : Element} :
    Accepted e.asText ↔ Attributes.Know [] e ∧ e.children = [] := by
  unfold asText
  rw [accepted_check, accepted_check, accepted_allow, accepted_noChildren, know_nil]
  exact ⟨fun ⟨ha, hc, _⟩ => ⟨ha, hc⟩, fun ⟨ha, hc⟩ => ⟨ha, hc, accepted_pure _⟩⟩

theorem eq_text_of_asText {e : Element} {s : String} (h : outcome e.asText = .ok s) :
    s = e.text := by
  unfold asText at h
  rw [Logged.outcome_bind, Logged.outcome_bind] at h
  cases ha : outcome (e.allow []) with
  | error _ => rw [ha] at h; cases h
  | ok _ =>
    cases hc : outcome e.noChildren with
    | error _ => rw [ha, hc] at h; cases h
    | ok _ => rw [ha, hc] at h; cases h; rfl

theorem describes_text : text.Describes asText := fun e _ => by
  unfold text
  rw [accepted_asText, conforms_leaf]
  exact ⟨fun ⟨ha, hc⟩ => ⟨ha, hc, trivial⟩, fun ⟨ha, hc, _⟩ => ⟨ha, hc⟩⟩

/-- a leaf without attributes whose text decides -/
theorem accepted_asText_bind {α : Type} {e : Element} {f : String → Reading α} :
    Accepted (e.asText >>= f) ↔
      Attributes.Know [] e ∧ e.children = [] ∧ Accepted (f e.text) := by
  rw [accepted_bind, ← and_assoc, ← accepted_asText]
  constructor
  · rintro ⟨s, hs, hf⟩
    exact ⟨⟨s, hs⟩, eq_text_of_asText hs ▸ hf⟩
  · rintro ⟨⟨s, hs⟩, hf⟩
    exact ⟨s, hs, (eq_text_of_asText hs).symm ▸ hf⟩

/-- a number behind a plus sign, or without one -/
theorem number?_plus (digits : List Char) :
    (∃ n, number? ('+' :: digits) = some n) ↔ FitsWord digits := by
  have hvalue : digits.foldl (fun n c => n * 10 + (c.toNat - '0'.toNat)) 0 =
      Nat.ofDigitChars 10 digits 0 := by
    rw [Nat.ofDigitChars_eq_foldl]
    simp only [Nat.mul_comm]
  unfold number? FitsWord
  simp only [hvalue, List.isEmpty_iff, List.all_eq_true]
  constructor
  · rintro ⟨n, hn⟩
    split at hn
    · cases hn
    next hne =>
    split at hn
    · next hd =>
      split at hn
      · next hlt => exact ⟨hne, hd, Nat.le_of_lt_succ hlt⟩
      · cases hn
    · cases hn
  · rintro ⟨hne, hd, hle⟩
    exact ⟨_, by rw [if_neg hne, if_pos hd, if_pos (Nat.lt_succ_of_le hle)]⟩

theorem number?_unsigned {digits : List Char} (h : digits.head? ≠ some '+') :
    number? digits = number? ('+' :: digits) := by
  unfold number?
  dsimp only
  split
  · exact absurd rfl h
  · rfl

theorem exists_number?_iff {cs : List Char} :
    (∃ n, number? cs = some n) ↔
      ∃ digits, (cs = digits ∨ cs = '+' :: digits) ∧ FitsWord digits := by
  by_cases hplus : cs.head? = some '+'
  · obtain ⟨digits, rfl⟩ : ∃ digits, cs = '+' :: digits := by
      cases cs with
      | nil => cases hplus
      | cons c digits => exact ⟨digits, by rw [Option.some.inj hplus]⟩
    rw [number?_plus]
    constructor
    · exact fun h => ⟨digits, .inr rfl, h⟩
    · rintro ⟨ds, rfl | hds, h⟩
      · exact absurd (h.2.1 '+' List.mem_cons_self) (by decide)
      · exact (List.cons.inj hds).2 ▸ h
  · rw [number?_unsigned hplus, number?_plus]
    constructor
    · exact fun h => ⟨cs, .inl rfl, h⟩
    · rintro ⟨ds, rfl | rfl, h⟩
      · exact h
      · exact absurd rfl hplus

theorem describes_number : number.Describes asNumber := fun e _ => by
  unfold asNumber number IsNumeral
  rw [conforms_leaf, accepted_asText_bind, ← exists_number?_iff]
  refine and_congr_right fun _ => and_congr_right fun _ => ?_
  by_cases hs : Text.trim e.text = ""
  · rw [if_pos hs]
    exact ⟨fun _ => .inl hs, fun _ => accepted_pure 0⟩
  · rw [if_neg hs]
    split
    · next n hn => exact ⟨fun _ => .inr ⟨n, hn⟩, fun _ => accepted_pure n⟩
    · next hn =>
      refine ⟨fun h => absurd h (not_accepted_throw _), ?_⟩
      rintro (h | ⟨n, h⟩)
      · exact absurd h hs
      · rw [hn] at h
        cases h

theorem accepted_keyword {α : Type} [Keyword α] {e : Element} {value : String} :
    Accepted (e.keyword value : Reading α) ↔ Text.trim value ∈ Keyword.words α := by
  unfold Element.keyword Keyword.words
  rw [List.mem_map]
  split
  · next a ha =>
    refine ⟨fun _ => ⟨a, List.mem_of_find?_eq_some ha, ?_⟩, fun _ => accepted_pure a⟩
    have hw : (Keyword.word a == Text.trim value) = true :=
      List.find?_some (p := fun a => Keyword.word a == Text.trim value) ha
    exact eq_of_beq hw
  · next hn =>
    refine ⟨fun h => absurd h (not_accepted_throw _), ?_⟩
    rintro ⟨a, ha, hw⟩
    exact absurd (beq_iff_eq.2 hw) (List.find?_eq_none.1 hn a ha)

theorem describes_keyword (α : Type) [Keyword α] :
    (keyword α).Describes (asKeyword : Element → Reading α) := fun e _ => by
  unfold asKeyword keyword
  rw [conforms_leaf, accepted_asText_bind, accepted_keyword]

/-- a marker has to name a selector; without one the primary selector is meant -/
theorem accepted_named {k : Kind} {marker? : Option String} :
    Accepted (k.named marker?) ↔ ∀ marker ∈ marker?, marker ∈ k.selectors := by
  have hprimary : k.primary ∈ k.selectors := by cases k <;> decide
  have hmem : (∀ marker ∈ marker?, marker ∈ k.selectors) ↔
      marker?.getD k.primary ∈ k.selectors := by
    cases marker? with
    | none => exact ⟨fun _ => hprimary, fun _ _ h => by cases h⟩
    | some marker => exact ⟨fun h => h marker rfl, fun h _ hm => Option.some.inj hm ▸ h⟩
  rw [hmem]
  unfold Kind.named
  dsimp only
  split
  · next h =>
    refine ⟨fun ht => absurd ht (not_accepted_throw _), fun hm => ?_⟩
    exact absurd hm (List.finIdxOf?_eq_none_iff.1 h)
  · next i h =>
    refine ⟨fun _ => ?_, fun _ => ⟨i, ?_⟩⟩
    · exact Reference.get_of_index? h ▸ List.getElem_mem i.isLt
    · split <;> rfl

theorem accepted_selector {k : Kind} {e : Element} (he : e.Distinct) :
    Accepted (e.selector k) ↔
      Attributes.Know [("by", (· ∈ k.selectors))] e ∧ e.children = [] := by
  unfold selector
  rw [accepted_check, accepted_check, accepted_allow, accepted_noChildren, accepted_adapt,
    accepted_named, know_one he]
  exact ⟨fun ⟨ha, hc, hm⟩ => ⟨⟨ha, hm⟩, hc⟩, fun ⟨⟨ha, hm⟩, hc⟩ => ⟨ha, hc, hm⟩⟩

theorem describes_reference (k : Kind) :
    (reference k).Describes (asReference : Element → Reading (Reference k)) := fun e he => by
  unfold asReference reference
  rw [accepted_bind_pure, conforms_leaf, accepted_selector he]
  exact ⟨fun ⟨ha, hc⟩ => ⟨ha, hc, trivial⟩, fun ⟨ha, hc, _⟩ => ⟨ha, hc⟩⟩

/-! ## holders -/

/-- rules for children, each described by the grammar for its name -/
inductive Ruled {α : Type} : List (Rule α) → List (String × Grammar) → Prop
  | nil : Ruled [] []
  | cons {r : Rule α} {g : Grammar} {rules : List (Rule α)} {parts : List (String × Grammar)}
      (rule : g.Describes r.read) (rest : Ruled rules parts) :
      Ruled (r :: rules) ((r.name, g) :: parts)

section rules
variable {α β : Type} {g : Grammar} {read : Element → Reading β} {rules : List (Rule α)}
  {parts : List (String × Grammar)}

namespace Ruled

theorem set (name : String) (put : β → α → α) (h : g.Describes read) (rest : Ruled rules parts) :
    Ruled (.set name read put :: rules) ((name, g) :: parts) :=
  .cons (fun e he => accepted_map.trans (h e he)) rest

theorem setSome (name : String) (put : Option β → α → α) (h : g.Describes read)
    (rest : Ruled rules parts) : Ruled (.setSome name read put :: rules) ((name, g) :: parts) :=
  .cons (fun e he => accepted_map.trans (h e he)) rest

/-- a child is accepted if its name is listed and it conforms to the grammar for that name -/
theorem accepted_change (h : Ruled rules parts) (e : Element) {child : Element}
    (hc : child.Distinct) :
    Accepted (e.change rules child) ↔ child.name ∈ parts.map Prod.fst ∧
      ∀ g, parts.lookup child.name = some g → g.Conforms child := by
  unfold change
  induction h with
  | nil =>
    exact ⟨fun h => absurd h (not_accepted_throw _), fun ⟨h, _⟩ => absurd h List.not_mem_nil⟩
  | @cons r g rules parts rule rest ih =>
    rw [List.find?_cons, List.lookup_cons, List.map_cons, List.mem_cons]
    by_cases hn : child.name = r.name
    · rw [beq_iff_eq.2 hn, beq_iff_eq.2 hn.symm]
      refine (rule child hc).trans ⟨fun h => ⟨.inl hn, fun _ hg => ?_⟩, fun h => h.2 g rfl⟩
      exact Option.some.inj hg ▸ h
    · rw [beq_false_of_ne hn, beq_false_of_ne (Ne.symm hn)]
      exact ih.trans ⟨fun ⟨h, hg⟩ => ⟨.inr h, hg⟩, fun ⟨h, hg⟩ => ⟨h.resolve_left hn, hg⟩⟩

theorem accepted_changes (h : Ruled rules parts) {e : Element} (he : e.Distinct) (start : α) :
    Accepted (e.changes rules start) ↔
      ∀ child ∈ e.children, child.name ∈ parts.map Prod.fst ∧
        ∀ g, parts.lookup child.name = some g → g.Conforms child := by
  obtain ⟨-, hchildren⟩ := he
  unfold changes
  rw [accepted_bind_pure, accepted_mapM]
  exact forall₂_congr fun child hc => h.accepted_change e (hchildren child hc)

end Ruled

/-- elements that hold others and have no attributes -/
theorem describes_fields (h : Ruled rules parts) (start : α) :
    (fields parts).Describes fun e => e.fields rules start := fun e he => by
  unfold Element.fields fields
  rw [accepted_check, accepted_check, conforms_holder, accepted_allow, know_nil, accepted_noText,
    h.accepted_changes he]

theorem accepted_items (item : String) (h : g.Describes read) {e : Element} (he : e.Distinct) :
    Accepted (e.items item read) ↔ (∀ c ∈ e.text.toList, Text.isBlank c = true) ∧
      ∀ child ∈ e.children, child.name ∈ [(item, g)].map Prod.fst ∧
        ∀ g', [(item, g)].lookup child.name = some g' → g'.Conforms child := by
  have hr : Ruled [.item item read] [(item, g)] :=
    .cons (fun e he => accepted_map.trans (h e he)) .nil
  unfold items
  rw [accepted_check, accepted_noText, hr.accepted_changes he]

theorem describes_listOf (item : String) (h : g.Describes read) :
    (listOf item g).Describes (Element.listOf item read) := fun e he => by
  unfold Element.listOf listOf fields
  rw [accepted_check, accepted_allow, ← know_nil, accepted_items item h he, conforms_holder]

end rules

end Grammar

end Markup

open Markup Markup.Grammar

/-! ## the parts of a specification -/

theorem Resources.describes : Resources.grammar.Describes Resources.ofElement := by
  unfold grammar ofElement
  exact describes_fields (.setSome _ _ (describes_reference _) <| .set _ _ describes_number <|
    .set _ _ describes_number .nil) _

theorem TemplateOption.describes : TemplateOption.grammar.Describes TemplateOption.ofElement := by
  intro e he
  unfold ofElement grammar
  rw [accepted_check, accepted_check, conforms_leaf, accepted_allow, accepted_noChildren,
    know_one he]
  exact ⟨fun ⟨ha, hc, _⟩ => ⟨⟨ha, fun _ _ => trivial⟩, hc, trivial⟩,
    fun ⟨⟨ha, _⟩, hc, _⟩ => ⟨ha, hc, accepted_pure _⟩⟩

theorem DiskTemplate.describes_selectorRule :
    (Grammar.reference .diskTemplate).Describes DiskTemplate.selectorRule.read := by
  intro e he
  unfold selectorRule Grammar.reference
  rw [accepted_bind_pure, conforms_leaf, accepted_selector he]
  exact ⟨fun ⟨ha, hc⟩ => ⟨ha, hc, trivial⟩, fun ⟨ha, hc, _⟩ => ⟨ha, hc⟩⟩

theorem DiskTemplate.describes : DiskTemplate.grammar.Describes DiskTemplate.ofElement := by
  unfold grammar ofElement
  exact describes_fields (.cons describes_selectorRule <| .set _ _ describes_number <|
    .set _ _ TemplateOption.describes .nil) _

theorem Schedule.describes : Schedule.grammar.Describes Schedule.ofElement := by
  unfold grammar ofElement
  exact describes_fields (.setSome _ _ (describes_keyword _) <| .set _ _ describes_number <|
    .set _ _ describes_number .nil) _

theorem BackupPolicy.describes : BackupPolicy.grammar.Describes BackupPolicy.ofElement := by
  unfold grammar ofElement
  exact describes_fields (.set _ _ describes_number <| .setSome _ _ Schedule.describes .nil) _

theorem BackupPolicy.describes_listOf :
    (Grammar.listOf "BackupPolicy" BackupPolicy.grammar).Describes BackupPolicy.listOf :=
  Grammar.describes_listOf _ BackupPolicy.describes

theorem SystemDisk.describes : SystemDisk.grammar.Describes SystemDisk.ofElement := by
  unfold grammar ofElement
  exact describes_fields (.set _ _ describes_text <| .set _ _ describes_number <|
    .set _ _ describes_text <| .setSome _ _ (describes_reference _) <| .set _ _ describes_text <|
    .set _ _ BackupPolicy.describes_listOf .nil) _

theorem Allocation.describes : Allocation.grammar.Describes Allocation.ofElement := by
  intro e he
  have hr : Ruled rules [
      ("IPAddress", Grammar.reference .ipAddress),
      ("Subnet", Grammar.reference .subnet),
      ("Version", Grammar.keyword IpVersion)] :=
    .setSome _ _ (describes_reference _) <| .setSome _ _ (describes_reference _) <|
      .setSome _ _ (describes_keyword _) .nil
  have htype : Accepted ((e.attribute? "type").mapM e.keyword : Reading (Option AllocationType)) ↔
      ∀ value ∈ e.attribute? "type", Text.trim value ∈ Keyword.words AllocationType := by
    cases e.attribute? "type" with
    | none => exact ⟨fun _ _ h => absurd h (Option.not_mem_none _), fun _ => accepted_pure none⟩
    | some value =>
      refine (accepted_map (f := some) (x := e.keyword value)).trans (accepted_keyword.trans ?_)
      exact ⟨fun h _ hv => Option.some.inj hv ▸ h, fun h => h value rfl⟩
  unfold ofElement grammar
  rw [accepted_check, accepted_check, conforms_holder, accepted_allow, know_one he, accepted_noText,
    accepted_bind_iff fun _ => hr.accepted_changes he _, ← htype]
  exact ⟨fun ⟨ha, hb, ht, hc⟩ => ⟨⟨ha, ht⟩, hb, hc⟩, fun ⟨⟨ha, ht⟩, hb, hc⟩ => ⟨ha, hb, ht, hc⟩⟩

theorem NetworkInterface.describes :
    NetworkInterface.grammar.Describes NetworkInterface.ofElement := by
  unfold grammar ofElement
  exact describes_fields (.setSome _ _ (describes_reference _) <|
    .setSome _ _ (describes_reference _) <| .setSome _ _ (describes_reference _) <|
    .set _ _ Allocation.describes .nil) _

theorem Access.exists_flag?_iff {s : String} :
    (∃ b, flag? s = some b) ↔ s ∈ ["yes", "true", "1", "no", "false", "0"] := by
  unfold flag?
  rw [show ["yes", "true", "1", "no", "false", "0"] = ["yes", "true", "1"] ++ ["no", "false", "0"]
    from rfl, List.mem_append]
  split
  · next h => exact ⟨fun _ => .inl h, fun _ => ⟨true, rfl⟩⟩
  next hyes =>
  split
  · next h => exact ⟨fun _ => .inr h, fun _ => ⟨false, rfl⟩⟩
  · next hno => exact ⟨fun ⟨_, h⟩ => (by cases h), fun h => (h.elim hyes hno).elim⟩

theorem Access.describes {k : Kind} (item : String) :
    (Access.grammar k item).Describes (Access.ofElement item : Element → Reading (Access k)) := by
  intro e he
  unfold Access.ofElement Access.grammar
  rw [accepted_check, conforms_holder, accepted_allow, know_one he, and_assoc]
  refine and_congr_right fun _ => ?_
  rw [← accepted_items item (describes_reference k) he]
  dsimp only
  cases e.attribute? "all" with
  | none =>
    refine accepted_bind_pure.trans ⟨fun h => ⟨fun _ hv => ?_, h⟩, fun h => h.2⟩
    exact absurd hv (Option.not_mem_none _)
  | some value =>
    have hvalue : (∀ v ∈ some value, Text.trim v ∈ ["yes", "true", "1", "no", "false", "0"]) ↔
        ∃ b, flag? (Text.trim value) = some b := by
      rw [exists_flag?_iff]
      exact ⟨fun h => h value rfl, fun h _ hv => Option.some.inj hv ▸ h⟩
    rw [hvalue]
    dsimp only
    cases flag? (Text.trim value) with
    | none => exact ⟨fun h => absurd h (not_accepted_throw _), fun ⟨⟨_, h⟩, _⟩ => (by cases h)⟩
    | some all => exact accepted_bind_pure.trans ⟨fun h => ⟨⟨all, rfl⟩, h⟩, fun h => h.2⟩

theorem AuthorizedKeys.describes : AuthorizedKeys.grammar.Describes AuthorizedKeys.ofElement := by
  unfold grammar ofElement
  exact describes_fields (.set _ _ (Access.describes _) <| .set _ _ (Access.describes _) .nil) _

namespace Spec

theorem describes_random : randomGrammar.Describes asRandom := by
  intro e he
  unfold asRandom randomGrammar Grammar.fields
  rw [accepted_check, accepted_check, accepted_check, conforms_holder, accepted_allow,
    accepted_noChildren, accepted_noText, know_nil]
  constructor
  · rintro ⟨ha, hc, hb, -⟩
    exact ⟨ha, hb, fun child hm => absurd (hc ▸ hm) List.not_mem_nil⟩
  · rintro ⟨ha, hb, hc⟩
    refine ⟨ha, List.eq_nil_iff_forall_not_mem.2 fun child hm => ?_, hb, accepted_pure ""⟩
    exact absurd (hc child hm).1 List.not_mem_nil

theorem describes_hostname : hostnameGrammar.Describes hostnameOfElement := by
  unfold hostnameGrammar hostnameOfElement
  exact describes_fields (.set _ _ describes_text <| .set _ _ describes_random .nil) _

theorem describes_name : nameGrammar.Describes nameOfElement := by
  intro e he
  have hr : Ruled [.set "Name" Element.asText fun s _ => s] [("Name", text)] :=
    .set _ _ describes_text .nil
  unfold nameOfElement nameGrammar
  split
  · next hc =>
    rw [List.isEmpty_iff] at hc
    rw [describes_text e he]
    constructor
    · exact .childless hc
    · rintro (_ | _ | ⟨_, h⟩ | ⟨hne, _⟩)
      · exact h
      · exact absurd hc hne
  · next hc =>
    rw [List.isEmpty_iff] at hc
    rw [Grammar.describes_fields hr "" e he]
    constructor
    · exact .parent hc
    · rintro (_ | _ | ⟨hn, _⟩ | ⟨_, h⟩)
      · exact absurd hn hc
      · exact h

theorem describes_fields : grammar.Describes fun e => e.fields rules {} := by
  unfold grammar rules
  exact Grammar.describes_fields (.setSome _ _ (describes_reference _) <|
    .setSome _ _ (describes_reference _) <|
    .setSome _ _ Resources.describes <| .setSome _ _ DiskTemplate.describes <|
    .set _ _ (describes_listOf _ SystemDisk.describes) <|
    .set _ _ (describes_listOf _ (describes_reference _)) <|
    .set _ _ (describes_listOf _ NetworkInterface.describes) <| .set _ _ describes_hostname <|
    .set _ _ describes_name <| .set _ _ describes_text <| .setSome _ _ (describes_reference _) <|
    .setSome _ _ AuthorizedKeys.describes <| .set _ _ BackupPolicy.describes_listOf <|
    .set _ _ (describes_listOf _ describes_text) <| .setSome _ _ (describes_reference _) .nil) _

/-- the name of the root is looked at first -/
theorem accepted_root (root : Element) :
    Accepted (ofElement root) ↔
      root.name = "VirtualMachineSpec" ∧ Accepted (root.fields rules {}) := by
  unfold ofElement
  split
  · next hn => exact ⟨fun h => ⟨hn, h⟩, fun h => h.2⟩
  · next hn => exact ⟨fun h => absurd h (not_accepted_throw _), fun h => absurd h.1 hn⟩

/-- an element without doubled attributes is accepted as a specification if and only if it bears the
name of one and conforms to the grammar of specifications -/
theorem accepted_ofElement {root : Element} (h : root.Distinct) :
    (∃ s, outcome (ofElement root) = .ok s) ↔
      root.name = "VirtualMachineSpec" ∧ grammar.Conforms root := by
  show Accepted (ofElement root) ↔ _
  rw [accepted_root, describes_fields root h]

/-- a zone by its name, with a line break behind it -/
theorem accepted_ofElement_zone :
    Element.Distinct (.mk "VirtualMachineSpec" [] "\n" [.mk "Zone" [("by", "name")] "x" []]) ∧
      ((∃ s, outcome (ofElement
          (.mk "VirtualMachineSpec" [] "\n" [.mk "Zone" [("by", "name")] "x" []])) = .ok s) ↔
        Element.name (.mk "VirtualMachineSpec" [] "\n" [.mk "Zone" [("by", "name")] "x" []]) =
            "VirtualMachineSpec" ∧
          grammar.Conforms
            (.mk "VirtualMachineSpec" [] "\n" [.mk "Zone" [("by", "name")] "x" []])) := by
  have hzone : Element.Distinct (.mk "Zone" [("by", "name")] "x" []) :=
    .intro (by decide) fun _ hc => absurd hc List.not_mem_nil
  have hroot : Element.Distinct
      (.mk "VirtualMachineSpec" [] "\n" [.mk "Zone" [("by", "name")] "x" []]) :=
    .intro (by decide) fun _ hc => List.mem_singleton.1 hc ▸ hzone
  exact ⟨hroot, accepted_ofElement hroot⟩

/-- a text is accepted if and only if its first element is -/
theorem accepted_ofMarkup (source : List Char) :
    Accepted (ofMarkup source) ↔ ∃ root, Element.ofText source = .ok root ∧
      root.name = "VirtualMachineSpec" ∧ grammar.Conforms root := by
  unfold ofMarkup
  cases hroot : Element.ofText source with
  | ok root =>
    dsimp only
    rw [accepted_root, describes_fields root (Element.distinct_ofText hroot)]
    constructor
    · exact fun h => ⟨root, rfl, h⟩
    · rintro ⟨_, he, h⟩
      cases he
      exact h
  | error f => exact ⟨fun h => absurd h (not_accepted_throw _), fun ⟨_, h, _⟩ => (by cases h)⟩

end Spec

end MachineSpec
