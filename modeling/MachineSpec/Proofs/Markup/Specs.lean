import MachineSpec.Proofs.Markup.Contents
import MachineSpec.Proofs.Spec.Canonical

/-!
# Written specifications read back

Each part of a specification is written as an element and read as what is canonical of it.  Of the
lists, only that of the tags loses items: an empty text has no element.

* `Turns.granted`           a flag and a list
* `Resources.reads`, `DiskTemplate.reads`, ...   the parts
* `Spec.reads`              the whole
* `Spec.outcome_ofMarkup`   a specification read from its markup
-/

namespace MachineSpec

open Markup Markup.Node Logged

/-! ## flags with lists -/

theorem Access.reads_all {k : Kind} {name item : String} (hname : isName name = true) :
    Node.Reads name (Access.ofElement (k := k) item) (.lone name [("all", "yes")]) ⟨true, []⟩ where
  sound := isSoundTag_single hname rfl "yes"
  named := rfl
  outcome := rfl

theorem Access.reads_only {k : Kind} {name item : String} (hname : isName name = true)
    (hitem : isName item = true) (rs : List (Reference k)) :
    Node.Reads name (Access.ofElement item)
      (.group name [] (rs.map fun r => (Nodes.selected item r).value))
      ⟨false, rs.map Reference.canonical⟩ := by
  have h : Turns [.item item Element.asReference]
      (rs.map fun r => (Nodes.selected item r).value) [] ([] ++ rs.map Reference.canonical) :=
    .items (fun r => reads_selected hitem r) rs
  have hr := h.reads hname
  refine ⟨hr.sound, rfl, ?_⟩
  have hi : outcome (Element.items (.mk name [] ""
      (childElements (rs.map fun r => (Nodes.selected item r).value))) item Element.asReference) =
      .ok (rs.map Reference.canonical) := h.outcome_changes rfl
  show outcome (Access.ofElement item (.mk name [] "" _)) = _
  unfold Access.ofElement
  rw [outcome_bind, Element.outcome_allow_nil]
  show outcome (_ >>= _) = _
  rw [outcome_bind]
  show (outcome (_ >>= _)) = _
  rw [outcome_bind, hi]
  rfl

theorem Markup.Turns.granted {α : Type} {rules : List (Rule α)} {a : α} {k : Kind}
    {name item : String} {put : Access k → α → α} (hname : isName name = true)
    (hitem : isName item = true)
    (hr : (rules.find? fun r => r.name == name) = some (.set name (Access.ofElement item) put))
    (x : Access k) (he : put {} a = a) :
    Turns rules (Nodes.granted name item x).value a (put x.canonical a) := by
  obtain ⟨all, rs⟩ := x
  cases all with
  | true => exact set (Access.reads_all hname) hr
  | false =>
    cases rs with
    | nil =>
      show Turns rules [] a (put {} a)
      rw [he]
      exact .nil a
    | cons r rs =>
      have hv : (Nodes.granted name item ⟨false, r :: rs⟩).value =
          [.group name [] ((r :: rs).map fun r => (Nodes.selected item r).value)] := by
        rw [← value_join_single (r :: rs) (Nodes.selected item)]
        rfl
      rw [hv]
      exact set (Access.reads_only hname hitem (r :: rs)) hr

/-! ## parts -/

theorem Resources.reads (r : Resources) :
    r.toMarkup.value.Reads "Resources" Resources.ofElement r.canonical := by
  refine Turns.reads ?_ rfl
  refine .group (.optional (fun r => reads_selected rfl r) rfl r.package rfl) ?_
  refine .group (.number rfl rfl r.memory rfl) ?_
  exact .group (.number rfl rfl r.cpuCores rfl) .done

theorem TemplateOption.reads (o : TemplateOption) :
    o.toMarkup.Reads "Option" TemplateOption.ofElement o where
  sound := isSoundTag_single rfl rfl o.key
  named := rfl
  outcome := rfl

/-- the reference in a template is put into what has been read of the template -/
theorem DiskTemplate.turns_reference {rules : List (Rule DiskTemplate)}
    (hr : (rules.find? fun r => r.name == "DiskTemplate") = some selectorRule) (t : DiskTemplate) :
    Turns rules t.referenceMarkup.value {} { reference := t.reference.canonical } := by
  have hv : t.referenceMarkup.value = t.reference.selection?.elim [] fun _ =>
      [(Nodes.selected "DiskTemplate" t).value] := by
    have hs : (Lookup.select t).value = t.reference.selection? := Lookup.value_select t
    unfold referenceMarkup
    rw [value_bind, hs]
    cases t.reference.selection? <;> rfl
  rw [hv]
  cases h : t.reference.selection? with
  | none =>
    rw [Reference.canonical_of_none h]
    exact .nil _
  | some s =>
    obtain ⟨-, -, i, hi⟩ := Reference.exists_selection h
    have hn : (Nodes.selected "DiskTemplate" t).value =
        .leaf "DiskTemplate" (markerAttributes s.marker?) s.value := by
      have hs : Lookup.selection? t = some s := h
      rw [Nodes.value_selected, hs]
      rfl
    rw [Reference.canonical_eq_put h hi]
    refine .cons (f := fun u => { u with reference := u.reference.put i s.value })
      (isSound_selected rfl t).1 (r := selectorRule) ?_ ?_ (.nil _)
    · rw [(isSound_selected rfl t).2]
      exact hr
    · rw [hn]
      show outcome (Element.selector Kind.diskTemplate (.mk _ _ _ []) >>= _) = _
      rw [outcome_bind, Element.outcome_selector h hi]
      rfl

theorem DiskTemplate.reads (t : DiskTemplate) :
    t.toMarkup.value.Reads "DiskTemplate" DiskTemplate.ofElement t.canonical := by
  refine Turns.reads ?_ rfl
  refine .group (turns_reference rfl t) ?_
  refine .group (.number rfl rfl t.version rfl) ?_
  refine .group (.many (fun os t => { t with options := t.options ++ os }) TemplateOption.reads rfl
    (fun u => ?_) (fun o os u => ?_) t.options) ?_
  · show { u with options := u.options ++ [] } = u
    rw [List.append_nil]
  · show { u with options := u.options ++ [o] ++ os } = { u with options := u.options ++ o :: os }
    rw [List.append_assoc]
    rfl
  · rw [List.map_id']
    exact .done

theorem Schedule.reads (s : Schedule) : s.toMarkup.Reads "Schedule" Schedule.ofElement s := by
  have hw : ∀ i : Interval, Text.trim (Keyword.word i) = Keyword.word i := fun i => by
    cases i <;> rfl
  exact Turns.reads (.cast (.append (.append (.keyword rfl rfl hw s.interval rfl)
    (.number rfl rfl s.frequency rfl)) (.number rfl rfl s.time rfl)) rfl) rfl

theorem BackupPolicy.reads (p : BackupPolicy) :
    p.toMarkup.Reads "BackupPolicy" BackupPolicy.ofElement p := by
  refine Turns.reads (.cast (.append (.number rfl rfl p.retention rfl)
    (.part Schedule.reads rfl p.schedule rfl)) ?_) rfl
  rw [Option.map_id']

theorem BackupPolicy.turns {α : Type} {rules : List (Rule α)} {a : α}
    {put : List BackupPolicy → α → α}
    (hr : (rules.find? fun r => r.name == "BackupPolicies") =
      some (.set "BackupPolicies" BackupPolicy.listOf put))
    (ps : List BackupPolicy) (he : put [] a = a) :
    Turns rules (Nodes.each "BackupPolicies" ps fun p => pure p.toMarkup).value a (put ps a) := by
  have h := Turns.each (f := fun p => pure p.toMarkup) BackupPolicy.reads rfl hr ps he
  rw [List.map_id'] at h
  exact h

theorem SystemDisk.reads (d : SystemDisk) :
    d.toMarkup.value.Reads "Disk" SystemDisk.ofElement d.canonical := by
  refine Turns.reads ?_ rfl
  refine .group (.text rfl rfl d.name rfl) ?_
  refine .group (.number rfl rfl d.size rfl) ?_
  refine .group (.text rfl rfl d.speed rfl) ?_
  refine .group (.optional (fun r => reads_selected rfl r) rfl d.ioProfile rfl) ?_
  refine .group (.text rfl rfl d.fileSystemType rfl) ?_
  exact .group (BackupPolicy.turns rfl d.backupPolicies rfl) .done

/-- the type of an allocation is the only keyword in an attribute -/
theorem Allocation.reads_group {ns : Nodes} {type : Option AllocationType} {a : Allocation}
    (h : Turns rules ns { type } a) :
    Node.Reads "IPAddressAllocation" Allocation.ofElement
      (.group "IPAddressAllocation" (type.map fun t => ("type", Keyword.word t)).toList ns) a := by
  have hw : ∀ t : AllocationType, Text.trim (Keyword.word t) = Keyword.word t := fun t => by
    cases t <;> rfl
  have hc := h.outcome_changes (e := .mk "IPAddressAllocation"
    (type.map fun t => ("type", Keyword.word t)).toList "" (childElements ns)) rfl
  cases type with
  | none => exact ⟨isSound_group.2 ⟨rfl, h.areSound⟩, rfl, hc⟩
  | some t =>
    refine ⟨isSound_group.2 ⟨isSoundTag_single rfl rfl _, h.areSound⟩, rfl, ?_⟩
    have ht : Element.attribute? (.mk "IPAddressAllocation" [("type", Keyword.word t)] ""
        (childElements ns)) "type" = some (Keyword.word t) := rfl
    show outcome (Allocation.ofElement (.mk _ [("type", Keyword.word t)] "" (childElements ns))) = _
    unfold Allocation.ofElement
    rw [ht, Option.mapM_some, outcome_bind, outcome_bind, outcome_bind, outcome_map,
      Element.outcome_keyword _ (hw t)]
    exact hc

theorem Allocation.reads (a : Allocation) :
    a.toMarkup.value.Reads "IPAddressAllocation" Allocation.ofElement a.canonical := by
  have hw : ∀ v : IpVersion, Text.trim (Keyword.word v) = Keyword.word v := fun v => by
    cases v <;> rfl
  refine reads_group ?_
  refine .group (.optional (fun r => reads_selected rfl r) rfl a.ipAddress rfl) ?_
  refine .group (.optional (fun r => reads_selected rfl r) rfl a.subnet rfl) ?_
  exact .group (.keyword rfl rfl hw a.version rfl) .done

theorem NetworkInterface.reads (i : NetworkInterface) :
    i.toMarkup.value.Reads "NetworkInterface" NetworkInterface.ofElement i.canonical := by
  have hv : (i.allocations.mapM Allocation.toMarkup).value =
      i.allocations.map fun a => a.toMarkup.value := value_mapM _ _
  refine Turns.reads ?_ rfl
  refine .group (.optional (fun r => reads_selected rfl r) rfl i.network rfl) ?_
  refine .group (.optional (fun r => reads_selected rfl r) rfl i.virtualNetwork rfl) ?_
  refine .group (.optional (fun r => reads_selected rfl r) rfl i.speedProfile rfl) ?_
  refine .group (b := i.canonical) ?_ .done
  rw [hv]
  refine .cast (.many (fun as i => { i with allocations := i.allocations ++ as })
    Allocation.reads rfl (fun u => ?_) (fun a as u => ?_) i.allocations) rfl
  · show { u with allocations := u.allocations ++ [] } = u
    rw [List.append_nil]
  · show { u with allocations := u.allocations ++ [a] ++ as } =
      { u with allocations := u.allocations ++ a :: as }
    rw [List.append_assoc]
    rfl

theorem AuthorizedKeys.reads (k : AuthorizedKeys) :
    k.toMarkup.value.Reads "AuthorizedKeys" AuthorizedKeys.ofElement k.canonical := by
  refine Turns.reads ?_ rfl
  refine .group (.granted rfl rfl rfl k.users rfl) ?_
  exact .group (.granted rfl rfl rfl k.sshKeys rfl) .done

namespace Spec

/-! ## the whole -/

/-- an empty host name is asked for at random, and random is read as empty -/
theorem reads_host (s : String) :
    (Nodes.host s).Reads "Hostname" hostnameOfElement s := by
  unfold Nodes.host
  split
  · next hs =>
    rw [hs]
    exact ⟨rfl, rfl, rfl⟩
  · have hl : Node.Reads "Hostname" Element.asText (.leaf "Hostname" [] s) s := reads_leaf rfl rfl
    exact Turns.reads (.cast (.set hl rfl) rfl) rfl

theorem turns_name (s : String) (t : Spec) (ht : t.name = "") :
    Turns rules (Nodes.text "Name" s) t { t with name := s } := by
  unfold Nodes.text
  split
  · next hs =>
    rw [hs, ← ht]
    exact .nil t
  · have hl : Node.Reads "Name" nameOfElement (.leaf "Name" [] s) s := reads_leaf rfl rfl
    exact .cast (.set hl rfl) rfl

/-- an empty tag has no element -/
theorem turns_tags (tags ts : List String) :
    Turns [.item "Tag" Element.asText]
      (Nodes.join (tags.map fun t => pure (Nodes.text "Tag" t))).value
      ts (ts ++ tags.filter (· ≠ "")) := by
  rw [value_join, List.flatMap_map]
  induction tags generalizing ts with
  | nil =>
    rw [List.filter_nil, List.append_nil]
    exact .nil ts
  | cons t tags ih =>
    have ht : Turns [.item "Tag" Element.asText] (Nodes.text "Tag" t) ts
        (ts ++ [t].filter (· ≠ "")) := by
      unfold Nodes.text
      split
      · next he =>
        rw [he]
        exact .cast (.nil ts) (List.append_nil ts).symm
      · next hne =>
        rw [List.filter_cons_of_pos (by simpa using hne)]
        exact .cast (.set (reads_leaf rfl (Element.outcome_asText "Tag" t)) rfl) rfl
    have h := ht.append (ih (ts ++ [t].filter (· ≠ "")))
    rw [List.append_assoc, ← List.filter_append] at h
    exact h

/-- a written specification is read as what is canonical of it, without empty tags -/
theorem reads (s : Spec) :
    s.toMarkup.value.Reads "VirtualMachineSpec" ofElement s.canonical.dropEmptyTags := by
  -- the state after a few groups is spelled out, so that it stays a plain record
  let t := s.canonical.dropEmptyTags
  have h : Node.Reads "VirtualMachineSpec" (fun e => e.fields rules {}) s.toMarkup.value
      t := by
    refine Turns.reads ?_ rfl
    refine .group (.optional (fun r => reads_selected rfl r) rfl s.zone rfl) ?_
    refine .group (.optional (fun r => reads_selected rfl r) rfl s.dataCenter rfl) ?_
    refine .group (.optional Resources.reads rfl s.resources rfl) ?_
    refine .group (.optional DiskTemplate.reads rfl s.diskTemplate rfl) ?_
    show Turns rules _ {
      zone := t.zone
      dataCenter := t.dataCenter
      resources := t.resources
      diskTemplate := t.diskTemplate } t
    refine .group (.each SystemDisk.reads rfl rfl s.systemDisks rfl) ?_
    refine .group (.each (fun r => reads_selected rfl r) rfl rfl s.sharedDisks rfl) ?_
    refine .group (.each NetworkInterface.reads rfl rfl s.networkInterfaces rfl) ?_
    refine .group (.set (reads_host s.hostname) rfl) ?_
    show Turns rules _ { t with
      name := ""
      description := ""
      group := none
      authorizedKeys := none
      backupPolicies := []
      tags := []
      iso := none } t
    refine .group (turns_name s.name _ rfl) ?_
    refine .group (.text rfl rfl s.description rfl) ?_
    refine .group (.optional (fun r => reads_selected rfl r) rfl s.group rfl) ?_
    refine .group (.optional AuthorizedKeys.reads rfl s.authorizedKeys rfl) ?_
    show Turns rules _ { t with backupPolicies := [], tags := [], iso := none } t
    refine .group (BackupPolicy.turns rfl s.backupPolicies rfl) ?_
    refine .group (.wrapped (turns_tags s.tags []) rfl rfl fun ht => by rw [ht]; rfl) ?_
    show Turns rules _ { t with iso := none } t
    exact .group (.optional (fun r => reads_selected rfl r) rfl s.iso rfl) .done
  exact ⟨h.sound, rfl, h.outcome⟩

theorem outcome_ofMarkup (s : Spec) :
    outcome (ofMarkup (declaration ++ s.toMarkup.value.print).toList) =
      .ok s.canonical.dropEmptyTags := by
  unfold ofMarkup
  rw [Element.ofText_declaration s.reads.sound]
  exact s.reads.outcome

end Spec

end MachineSpec
