import MachineSpec.Codec
import MachineSpec.Markup.Marker
import MachineSpec.Proofs.Markup.Inspection
import MachineSpec.Proofs.Markup.Trees
import MachineSpec.Proofs.Reference.Selection
import MachineSpec.Proofs.Text.Coding

/-!
# What is reported when a specification is read

Reading a text is reported first, and then, in markup, every marker that is come across: those of
the elements in front of the first that is wrong, in the order of the start tags.  The role that
decides the errors of an element tells its markers as well.

Two things are reported otherwise than they are due.  Markup that is no text is not reported at all,
and a marker is reported even if it names the selector that is meant without one.

* `reports_bind_of`           the reports of a sequence, which end with the first error
* `Visit.markers_append`      the markers of a row of elements
* `Role.Traces`               the role that tells the reports of a reading
* `Role.traces_fields`        elements that hold others
* `Spec.reports_ofElement`    the reports of a document
* `Spec.reports_decode`       those of bytes, and when they are as they are due
* `Spec.reports_decode_undue` bytes of which too little is reported, and too much
-/

namespace MachineSpec

open Logged (outcome reports)

/-! ## reports of a row of computations -/

section reports
variable {ε α β : Type}

/-- a first step, and what the rest reports whatever the first step comes to -/
theorem reports_bind_of {x : ExceptT ε Logged α} {f : α → ExceptT ε Logged β} {es : List Log.Entry}
    (h : ∀ a, outcome x = .ok a → reports (f a) = es) :
    reports (x >>= f) = reports x ++ if (fault? x).isNone then es else [] := by
  rw [Logged.reports_bind]
  cases hx : outcome x with
  | error e =>
    rw [fault?_of_error hx]
    rfl
  | ok a =>
    rw [fault?_of_ok hx]
    exact congrArg (reports x ++ ·) (h a hx)

theorem reports_bind_pure {f : α → β} {x : ExceptT ε Logged α} :
    reports (x >>= fun a => pure (f a)) = reports x := by
  rw [bind_pure_comp]
  exact Logged.reports_map f x

theorem reports_silent {x : ExceptT ε Logged α} {f : α → ExceptT ε Logged β}
    (hx : reports x = []) (h : ∀ a, outcome x = .ok a → reports (f a) = []) :
    reports (x >>= f) = [] := by
  rw [reports_bind_of h, hx, List.nil_append, ite_self]

end reports

namespace Markup

/-! ## markers of a row of elements -/

namespace Visit

theorem markers_cons (v : Visit) (vs : List Visit) :
    markers (v :: vs) = if v.error?.isNone then v.marker?.toList ++ markers vs else [] := by
  unfold markers
  rw [List.takeWhile_cons]
  cases v.error? with
  | some err => rfl
  | none =>
    show List.filterMap marker? (v :: _) = v.marker?.toList ++ _
    rw [List.filterMap_cons]
    cases v.marker? <;> rfl

/-- what follows counts only if nothing is wrong before it -/
theorem markers_append (us vs : List Visit) :
    markers (us ++ vs) =
      markers us ++ if (us.findSome? error?).isNone then markers vs else [] := by
  induction us with
  | nil => rfl
  | cons u us ih =>
    rw [List.cons_append, markers_cons, markers_cons, List.findSome?_cons]
    cases u.error? with
    | some err => rfl
    | none =>
      show u.marker?.toList ++ markers (us ++ vs) = (u.marker?.toList ++ markers us) ++ _
      rw [ih, List.append_assoc]

end Visit

namespace Element

open Visit

theorem childVisits_eq (parent : String) (parts : List (String × Role)) (es : List Element) :
    childVisits parent parts es = es.flatMap fun child =>
      child.visits parent (parts.lookup child.name) := by
  induction es with
  | nil => rfl
  | cons e es ih => rw [childVisits, List.flatMap_cons, ih]

/-- an element that is not listed is wrong by itself -/
theorem markers_visits_none (parent : String) (e : Element) :
    markers (e.visits parent none) = [] := by
  cases e
  rw [visits, markers_cons]
  rfl

/-- the marker of the element itself, and those in it, unless something is wrong with it -/
theorem markers_visits (parent : String) (demands : List Demand) (parts : List (String × Role))
    (e : Element) :
    markers (e.visits parent (some (.mk demands parts))) =
      if (demands.findSome? (Demand.error? e)).isNone then
        (demands.findSome? (Demand.marker? e)).toList ++
          markers (childVisits e.name parts e.children)
      else [] := by
  cases e
  rw [visits, markers_cons]
  rfl

/-- in an element that holds no others there is no marker but its own -/
theorem markers_leaf (parent : String) (keys : List String) (value : List Demand) (e : Element) :
    markers (e.visits parent (some (Role.leaf keys value))) =
      if ((.attributes keys :: .childless :: value).findSome? (Demand.error? e)).isNone then
        (value.findSome? (Demand.marker? e)).toList
      else [] := by
  rw [Role.leaf, markers_visits]
  cases hd : (Demand.attributes keys :: .childless :: value).findSome? (Demand.error? e) with
  | some err => rfl
  | none =>
    have hchild : e.children.head?.map _ = none :=
      List.findSome?_eq_none_iff.1 hd .childless (by simp)
    rw [List.head?_eq_none_iff.1 (Option.map_eq_none_iff.1 hchild)]
    exact List.append_nil _

/-- an element that is no reference has no marker of its own -/
theorem markers_holder {demands : List Demand}
    (hm : ∀ e, demands.findSome? (Demand.marker? e) = none) {parent : String}
    {parts : List (String × Role)} {e : Element} :
    (markers (e.visits parent (some (.mk demands parts)))).map Marker.report =
      if (demands.findSome? (Demand.error? e)).isNone then
        (markers (childVisits e.name parts e.children)).map Marker.report
      else [] := by
  rw [markers_visits, hm]
  split <;> rfl

end Element

open Element Visit

/-- each computation of a row reports the markers of its own part -/
theorem reports_mapM {α : Type} {f : Element → Reading α} {part : Element → List Visit}
    (hf : ∀ e, fault? (f e) = (part e).findSome? Visit.error?)
    (hr : ∀ e, reports (f e) = (markers (part e)).map Marker.report) (es : List Element) :
    reports (es.mapM f) = (markers (es.flatMap part)).map Marker.report := by
  induction es with
  | nil => rfl
  | cons e es ih =>
    rw [List.mapM_cons, List.flatMap_cons, markers_append, List.map_append, ← hf, ← hr,
      reports_bind_of fun _ _ => reports_bind_pure.trans ih]
    congr 1
    split <;> rfl

/-! ## steps without reports -/

section silent
variable {e : Element}

theorem reports_allow {keys : List String} : reports (e.allow keys) = [] := by
  unfold allow
  split <;> rfl

theorem reports_noChildren : reports e.noChildren = [] := by
  unfold noChildren
  split <;> rfl

theorem reports_noText : reports e.noText = [] := by
  unfold noText
  split <;> rfl

theorem reports_asText : reports e.asText = [] :=
  reports_silent reports_allow fun _ _ => reports_silent reports_noChildren fun _ _ => rfl

theorem reports_asNumber : reports e.asNumber = [] := by
  refine reports_silent reports_asText fun s _ => ?_
  dsimp only
  split
  · rfl
  · split <;> rfl

theorem reports_keyword {α : Type} [Keyword α] {value : String} :
    reports (e.keyword value : Reading α) = [] := by
  unfold keyword
  split <;> rfl

theorem reports_asKeyword {α : Type} [Keyword α] : reports (e.asKeyword : Reading α) = [] :=
  reports_silent reports_asText fun _ _ => reports_keyword

/-- an element is looked at before what is left of it is read -/
theorem reports_look {α β : Type} {x : Reading α} {f : α → Reading β} {demand : Demand}
    {demands : List Demand} {es : List Log.Entry} (hx : reports x = [])
    (hd : fault? x = Demand.error? e demand)
    (h : ∀ a, outcome x = .ok a →
      reports (f a) = if (demands.findSome? (Demand.error? e)).isNone then es else []) :
    reports (x >>= f) =
      if ((demand :: demands).findSome? (Demand.error? e)).isNone then es else [] := by
  rw [reports_bind_of h, hx, List.nil_append, hd, List.findSome?_cons]
  cases Demand.error? e demand <;> rfl

end silent

/-! ## selectors -/

theorem reports_named (k : Kind) (marker? : Option String) :
    reports (k.named marker?) =
      (marker?.filter (· ∈ k.selectors)).toList.map fun name => .resolved k name := by
  unfold Kind.named
  cases marker? with
  | none => cases hi : Reference.index? k (none.getD k.primary) <;> simp only [hi] <;> rfl
  | some name =>
    by_cases hname : name ∈ k.selectors
    · obtain ⟨i, hi⟩ := Reference.exists_index? hname
      simp only [Option.getD_some, hi, Option.filter, decide_eq_true hname]
      rfl
    · have hi := Reference.index?_eq_none_iff.2 hname
      simp only [Option.getD_some, hi, Option.filter, decide_eq_false hname]
      rfl

/-- the marker of an element is reported if nothing is wrong with it -/
theorem reports_marker (k : Kind) (e : Element) :
    reports (k.named (e.attribute? "by")) =
      if (Demand.error? e (.marker k)).isNone then
        (Demand.marker? e (.marker k)).toList.map Marker.report
      else [] := by
  have herror : Demand.error? e (.marker k) =
      ((e.attribute? "by").filter (· ∉ k.selectors)).map fun name =>
        .unsupportedSelector ⟨k, name⟩ := rfl
  have hmarker : Demand.marker? e (.marker k) = (e.attribute? "by").map (.mk k) := rfl
  rw [reports_named, herror, hmarker]
  cases e.attribute? "by" with
  | none => rfl
  | some name => by_cases hname : name ∈ k.selectors <;> simp [hname, Marker.report]

theorem reports_selector (k : Kind) (parent : String) (e : Element) :
    reports (e.selector k) =
      (markers (e.visits parent (some (Role.reference k)))).map Marker.report := by
  rw [Role.reference, markers_leaf, List.findSome?_singleton, apply_ite (List.map Marker.report)]
  unfold selector
  refine reports_look reports_allow fault?_allow fun _ _ =>
    reports_look reports_noChildren fault?_noChildren fun _ _ => ?_
  rw [Logged.reports_adapt, List.findSome?_singleton]
  exact reports_marker k e

/-! ## roles -/

/-- the role decides the errors of a reading, and tells its reports -/
structure Role.Traces {α : Type} (role : Role) (read : Element → Reading α) : Prop where
  guides : role.Guides read
  reports_eq (parent : String) (e : Element) :
    reports (read e) = (markers (e.visits parent (some role))).map Marker.report

namespace Role
variable {α β : Type} {role : Role} {read : Element → Reading β}

/-- an element that holds no others, and whose reading reports nothing -/
theorem traces_leaf {keys : List String} {value : List Demand} (h : (leaf keys value).Guides read)
    (hr : ∀ e, reports (read e) = []) (hm : ∀ e, value.findSome? (Demand.marker? e) = none) :
    (leaf keys value).Traces read where
  guides := h
  reports_eq parent e := by
    rw [markers_leaf, hm, hr]
    split <;> rfl

theorem traces_text : text.Traces asText :=
  traces_leaf guides_text (fun _ => reports_asText) fun _ => rfl

theorem traces_number : number.Traces asNumber :=
  traces_leaf guides_number (fun _ => reports_asNumber) fun _ => rfl

theorem traces_keyword (α : Type) [Keyword α] :
    (keyword α).Traces (asKeyword : Element → Reading α) :=
  traces_leaf (guides_keyword α) (fun _ => reports_asKeyword) fun _ => rfl

/-- whatever is done with the selector of a reference -/
theorem traces_selector (k : Kind) (f : Element → Fin k.selectors.length → β) :
    (reference k).Traces fun e => do return f e (← e.selector k) where
  guides := guides_selector k f
  reports_eq parent e := reports_bind_pure.trans (reports_selector k parent e)

theorem traces_reference (k : Kind) :
    (reference k).Traces (asReference : Element → Reading (Reference k)) :=
  traces_selector k fun e i => Reference.empty.put i e.text

/-- rules for children, each with the role for its name -/
inductive Traced : List (Rule α) → List (String × Role) → Prop
  | nil : Traced [] []
  | cons {r : Rule α} {role : Role} {rules : List (Rule α)} {parts : List (String × Role)}
      (rule : role.Traces r.read) (rest : Traced rules parts) :
      Traced (r :: rules) ((r.name, role) :: parts)

section rules
variable {rules : List (Rule α)} {parts : List (String × Role)}

namespace Traced

theorem guided (h : Traced rules parts) : Guided rules parts := by
  induction h with
  | nil => exact .nil
  | cons rule rest ih => exact .cons rule.guides ih

theorem set (name : String) (put : β → α → α) (h : role.Traces read) (rest : Traced rules parts) :
    Traced (.set name read put :: rules) ((name, role) :: parts) :=
  .cons ⟨fun parent e => fault?_map.trans (h.guides parent e), fun parent e =>
    (Logged.reports_map _ _).trans (h.reports_eq parent e)⟩ rest

theorem setSome (name : String) (put : Option β → α → α) (h : role.Traces read)
    (rest : Traced rules parts) :
    Traced (.setSome name read put :: rules) ((name, role) :: parts) :=
  .cons ⟨fun parent e => fault?_map.trans (h.guides parent e), fun parent e =>
    (Logged.reports_map _ _).trans (h.reports_eq parent e)⟩ rest

theorem reports_change (h : Traced rules parts) (e child : Element) :
    reports (e.change rules child) =
      (markers (child.visits e.name (parts.lookup child.name))).map Marker.report := by
  unfold change
  induction h with
  | nil =>
    rw [List.lookup_nil, markers_visits_none]
    rfl
  | @cons r role rules parts rule rest ih =>
    rw [List.find?_cons, List.lookup_cons]
    by_cases hn : child.name = r.name
    · rw [beq_iff_eq.2 hn, beq_iff_eq.2 hn.symm]
      exact rule.reports_eq e.name child
    · rw [beq_false_of_ne hn, beq_false_of_ne (Ne.symm hn)]
      exact ih

/-- the children report their markers, one after the other -/
theorem reports_changes (h : Traced rules parts) (e : Element) (start : α) :
    reports (e.changes rules start) =
      (markers (childVisits e.name parts e.children)).map Marker.report := by
  unfold changes
  rw [reports_bind_pure, childVisits_eq]
  exact reports_mapM (h.guided.fault?_change e) (h.reports_change e) e.children

end Traced

theorem traces_fields (h : Traced rules parts) (start : α) :
    (fields parts).Traces fun e => e.fields rules start where
  guides := guides_fields h.guided start
  reports_eq parent e := by
    rw [fields, markers_holder fun _ => rfl]
    exact reports_look reports_allow fault?_allow fun _ _ =>
      reports_look reports_noText fault?_noText fun _ _ => h.reports_changes e start

theorem reports_items (item : String) {read : Element → Reading α} (h : role.Traces read)
    (e : Element) :
    reports (e.items item read) = if ([Demand.blank].findSome? (Demand.error? e)).isNone then
      (markers (childVisits e.name [(item, role)] e.children)).map Marker.report else [] := by
  have hr : Traced [.item item read] [(item, role)] :=
    .cons ⟨fun parent e => fault?_map.trans (h.guides parent e), fun parent e =>
      (Logged.reports_map _ _).trans (h.reports_eq parent e)⟩ .nil
  exact reports_look reports_noText fault?_noText fun _ _ => hr.reports_changes e []

theorem traces_listOf (item : String) {read : Element → Reading α} (h : role.Traces read) :
    (listOf item role).Traces (Element.listOf item read) where
  guides := guides_listOf item h.guides
  reports_eq parent e := by
    rw [listOf, fields, markers_holder fun _ => rfl]
    exact reports_look reports_allow fault?_allow fun _ _ => reports_items item h e

end rules

end Role

end Markup

open Markup Markup.Role

/-! ## the parts of a specification -/

theorem Resources.traces : Resources.role.Traces Resources.ofElement := by
  unfold role ofElement
  exact traces_fields (.setSome _ _ (traces_reference _) <| .set _ _ traces_number <|
    .set _ _ traces_number .nil) _

theorem TemplateOption.traces : TemplateOption.role.Traces TemplateOption.ofElement := by
  refine traces_leaf guides (fun e => ?_) fun _ => rfl
  exact reports_silent reports_allow fun _ _ => reports_silent reports_noChildren fun _ _ => rfl

theorem DiskTemplate.traces_selectorRule :
    (Role.reference .diskTemplate).Traces DiskTemplate.selectorRule.read := by
  unfold selectorRule
  exact traces_selector .diskTemplate fun e i (t : DiskTemplate) =>
    { t with reference := t.reference.put i e.text }

theorem DiskTemplate.traces : DiskTemplate.role.Traces DiskTemplate.ofElement := by
  unfold role ofElement
  exact traces_fields (.cons traces_selectorRule <| .set _ _ traces_number <|
    .set _ _ TemplateOption.traces .nil) _

theorem Schedule.traces : Schedule.role.Traces Schedule.ofElement := by
  unfold role ofElement
  exact traces_fields (.setSome _ _ (traces_keyword _) <| .set _ _ traces_number <|
    .set _ _ traces_number .nil) _

theorem BackupPolicy.traces : BackupPolicy.role.Traces BackupPolicy.ofElement := by
  unfold role ofElement
  exact traces_fields (.set _ _ traces_number <| .setSome _ _ Schedule.traces .nil) _

theorem BackupPolicy.traces_listOf :
    (Role.listOf "BackupPolicy" BackupPolicy.role).Traces BackupPolicy.listOf :=
  Role.traces_listOf _ BackupPolicy.traces

theorem SystemDisk.traces : SystemDisk.role.Traces SystemDisk.ofElement := by
  unfold role ofElement
  exact traces_fields (.set _ _ traces_text <| .set _ _ traces_number <| .set _ _ traces_text <|
    .setSome _ _ (traces_reference _) <| .set _ _ traces_text <|
    .set _ _ BackupPolicy.traces_listOf .nil) _

theorem Allocation.traces : Allocation.role.Traces Allocation.ofElement where
  guides := guides
  reports_eq parent e := by
    have hr : Traced rules [
        ("IPAddress", Role.reference .ipAddress),
        ("Subnet", Role.reference .subnet),
        ("Version", Role.keyword IpVersion)] :=
      .setSome _ _ (traces_reference _) <| .setSome _ _ (traces_reference _) <|
        .setSome _ _ (traces_keyword _) .nil
    have htype : reports ((e.attribute? "type").mapM e.keyword :
        Reading (Option AllocationType)) = [] := by
      cases e.attribute? "type" with
      | none => rfl
      | some value => exact (Logged.reports_map _ _).trans reports_keyword
    rw [role, Element.markers_holder fun _ => rfl]
    exact reports_look reports_allow fault?_allow fun _ _ =>
      reports_look reports_noText fault?_noText fun _ _ =>
        reports_look htype (fault?_type e) fun _ _ => hr.reports_changes e _

theorem NetworkInterface.traces : NetworkInterface.role.Traces NetworkInterface.ofElement := by
  unfold role ofElement
  exact traces_fields (.setSome _ _ (traces_reference _) <| .setSome _ _ (traces_reference _) <|
    .setSome _ _ (traces_reference _) <| .set _ _ Allocation.traces .nil) _

theorem Access.traces {k : Kind} (item : String) :
    (Access.role k item).Traces (Access.ofElement item : Element → Reading (Access k)) where
  guides := guides item
  reports_eq parent e := by
    have hitems := reports_items item (traces_reference k) e
    rw [role, Element.markers_holder fun _ => rfl]
    refine reports_look reports_allow fault?_allow fun _ _ => ?_
    have hflag : Demand.error? e (.flag "all") = (e.attribute? "all").bind
        (Demand.valueError? e ["yes", "true", "1", "no", "false", "0"] "yes or no") := rfl
    rw [List.findSome?_cons, hflag]
    cases e.attribute? "all" with
    | none => exact reports_bind_pure.trans hitems
    | some value =>
      rw [Option.bind_some, Demand.valueError?]
      dsimp only
      cases hf : flag? (Text.trim value) with
      | none =>
        have hno : Text.trim value ∉ ["yes", "true", "1", "no", "false", "0"] := by
          rw [← exists_flag?_iff, hf]
          rintro ⟨all, hall⟩
          cases hall
        rw [if_neg hno]
        rfl
      | some all =>
        rw [if_pos (exists_flag?_iff.1 ⟨all, hf⟩)]
        exact reports_bind_pure.trans hitems

theorem AuthorizedKeys.traces : AuthorizedKeys.role.Traces AuthorizedKeys.ofElement := by
  unfold role ofElement
  exact traces_fields (.set _ _ (Access.traces _) <| .set _ _ (Access.traces _) .nil) _

namespace Spec

theorem traces_random : randomRole.Traces asRandom := by
  refine traces_leaf guides_random (fun e => ?_) fun _ => rfl
  exact reports_silent reports_allow fun _ _ => reports_silent reports_noChildren fun _ _ =>
    reports_silent reports_noText fun _ _ => rfl

theorem traces_hostname : hostnameRole.Traces hostnameOfElement := by
  unfold hostnameRole hostnameOfElement
  exact traces_fields (.set _ _ traces_text <| .set _ _ traces_random .nil) _

theorem traces_name : nameRole.Traces nameOfElement where
  guides := guides_name
  reports_eq parent e := by
    have hr : Traced [.set "Name" Element.asText fun s _ => s] [("Name", text)] :=
      .set _ _ traces_text .nil
    have hbeside : Demand.error? e .blankBesideChildren =
        if e.children = [] then none else Demand.error? e .blank := rfl
    rw [nameRole, Element.markers_holder fun _ => rfl]
    unfold nameOfElement
    split
    · next hc =>
      rw [reports_asText, List.isEmpty_iff.1 hc]
      split <;> rfl
    · next hc =>
      have hc := fun h => hc (List.isEmpty_iff.2 h)
      refine reports_look reports_allow fault?_allow fun _ _ =>
        reports_look reports_noText ?_ fun _ _ => hr.reports_changes e ""
      rw [hbeside, if_neg hc, fault?_noText]

theorem traces_fields : role.Traces fun e => e.fields rules {} := by
  unfold role rules
  exact Role.traces_fields (.setSome _ _ (traces_reference _) <|
    .setSome _ _ (traces_reference _) <| .setSome _ _ Resources.traces <|
    .setSome _ _ DiskTemplate.traces <| .set _ _ (traces_listOf _ SystemDisk.traces) <|
    .set _ _ (traces_listOf _ (traces_reference _)) <|
    .set _ _ (traces_listOf _ NetworkInterface.traces) <| .set _ _ traces_hostname <|
    .set _ _ traces_name <| .set _ _ traces_text <| .setSome _ _ (traces_reference _) <|
    .setSome _ _ AuthorizedKeys.traces <| .set _ _ BackupPolicy.traces_listOf <|
    .set _ _ (traces_listOf _ traces_text) <| .setSome _ _ (traces_reference _) .nil) _

/-- reading a document reports its markers -/
theorem reports_ofElement (root : Element) :
    reports (ofElement root) = (markers root).map Marker.report := by
  unfold ofElement markers visits
  rw [List.lookup_cons]
  split
  · next hn =>
    rw [hn, beq_self_eq_true]
    exact traces_fields.reports_eq "document" root
  · next hn =>
    rw [beq_false_of_ne hn, List.lookup_nil, Element.markers_visits_none]
    rfl

/-! ## formats -/

theorem reports_decode_document {format : Format} (h : format ≠ .xml) (bytes : Bytes) :
    reports (decode format bytes) = [.decoding format bytes.length] := by
  have hsettle {ε α : Type} (wrap : ε → ReadError) (x : Except ε α) :
      reports (settle wrap x) = [] := by cases x <;> rfl
  cases format with
  | xml => exact absurd rfl h
  | _ =>
    unfold decode
    rw [reports_bind_of fun _ _ => (Logged.reports_map _ _).trans (hsettle _ _)]
    rfl

/-- bytes that are no text are not reported -/
theorem reports_decode_noText {bytes : Bytes} (h : Utf8.decode? bytes = none) :
    reports (decode .xml bytes) = [] := by
  show reports (decodeMarkup bytes) = []
  unfold decodeMarkup
  rw [h]
  rfl

/-- a text is reported with its markers -/
theorem reports_decode_text {bytes : Bytes} {cs : List Char} (h : Utf8.decode? bytes = some cs) :
    reports (decode .xml bytes) =
      .decoding .xml bytes.length :: (markersIn bytes).map Marker.report := by
  have hmarkup : reports (ofMarkup cs) = (markersIn bytes).map Marker.report := by
    unfold ofMarkup markersIn
    rw [h, Option.map_some]
    cases Element.ofText cs with
    | error failure => rfl
    | ok root => exact reports_ofElement root
  show reports (decodeMarkup bytes) = _
  unfold decodeMarkup
  rw [h]
  show reports (report _ >>= fun _ => (ofMarkup cs).adapt _) = _
  rw [reports_bind_of fun _ _ => (Logged.reports_adapt _ _).trans hmarkup]
  rfl

/-- reading reports its format and the number of bytes, unless markup is no text, and behind that
every marker that it comes across; that is what is due unless markup is no text or a marker names a
primary selector -/
theorem reports_decode (format : Format) (bytes : Bytes) :
    (reports (decode format bytes) =
      match format, Utf8.decode? bytes with
      | .xml, none => []
      | .xml, some _ => .decoding .xml bytes.length :: (markersIn bytes).map Marker.report
      | _, _ => [.decoding format bytes.length]) ∧
    (reports (decode format bytes) = dueReports format bytes ↔
      (format = .xml → Utf8.decode? bytes ≠ none ∧ ∀ m ∈ markersIn bytes, ¬m.IsPrimary)) := by
  by_cases hf : format = .xml
  · subst hf
    cases hcs : Utf8.decode? bytes with
    | none =>
      rw [reports_decode_noText hcs]
      refine ⟨rfl, nofun, fun h => absurd rfl (h rfl).1⟩
    | some cs =>
      rw [reports_decode_text hcs]
      refine ⟨rfl, ?_⟩
      have hinj : ∀ m n : Marker, m.report = n.report → m = n := by
        rintro ⟨_, _⟩ ⟨_, _⟩ h
        cases h
        rfl
      unfold dueReports
      rw [List.cons_inj_right, List.map_inj_right hinj, eq_comm, List.filter_eq_self]
      simp
  · rw [reports_decode_document hf]
    cases format with
    | xml => exact absurd rfl hf
    | _ => exact ⟨rfl, fun _ h => absurd h hf, fun _ => rfl⟩

/-- a zone whose marker names the selector that is meant without one -/
def namedPrimary : String := declaration ++ String.join [
  "<VirtualMachineSpec>", "<Zone by=\"id\">", "a", "</Zone>", "</VirtualMachineSpec>"]

theorem markersIn_namedPrimary : markersIn (Utf8.encode namedPrimary) = [⟨.zone, "id"⟩] := by
  let node : Node := .group "VirtualMachineSpec" [] [.leaf "Zone" [("by", "id")] "a"]
  have hprint : namedPrimary = declaration ++ node.print :=
    congrArg (fun lexemes => declaration ++ String.join lexemes) (by decide : _ = node.lexemes)
  unfold markersIn
  rw [Utf8.decode?_encode, Option.map_some, hprint,
    Element.ofText_declaration (by decide : node.isSound = true)]
  decide

/-- a byte that is no text is not reported, and a marker that names a primary selector is -/
theorem reports_decode_undue :
    (reports (decode .xml [0xFF]) = [] ∧ dueReports .xml [0xFF] = [.decoding .xml 1]) ∧
    reports (decode .xml (Utf8.encode namedPrimary)) =
      [.decoding .xml 102, .resolved .zone "id"] ∧
    dueReports .xml (Utf8.encode namedPrimary) = [.decoding .xml 102] := by
  have hnone : Utf8.decode? [0xFF] = none := by cbv
  have hlength : (Utf8.encode namedPrimary).length = 102 := by decide
  refine ⟨⟨reports_decode_noText hnone, ?_⟩, ?_, ?_⟩
  · unfold dueReports markersIn
    rw [hnone]
    rfl
  · rw [reports_decode_text (Utf8.decode?_encode _), markersIn_namedPrimary, hlength]
    rfl
  · unfold dueReports
    dsimp only
    rw [markersIn_namedPrimary, hlength]
    rfl

end Spec

end MachineSpec
