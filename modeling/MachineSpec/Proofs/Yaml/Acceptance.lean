import MachineSpec.Proofs.Document.Fits
import MachineSpec.Proofs.Outcome
import MachineSpec.Proofs.Stream.Reading
import MachineSpec.Yaml.Schema

/-!
# What YAML is accepted

The reader of a shape takes the outlines of the shape, by induction on the shape.  So a text with
an outline is accepted if and only if the outline conforms to the shape, and it is read as what the
outline stands for.

* `Settles`               the values that reading can come to, following no alias
* `Reads`                 a reader, and what outlines stand for
* `reads_shape`           the reader of a shape
* `read_written`          a text that has an outline
* `Spec.decode_yaml_written`   the specification of such a text
-/

namespace MachineSpec

namespace Yaml

/-! ## what reading comes to -/

/-- reading comes to the values of which this holds, and follows no alias on the way -/
def Settles {α : Type} (r : Reading α) (p : α → Prop) : Prop :=
  ∀ context count a count', r context count = .ok (a, count') ↔ p a ∧ count' = count

namespace Settles
variable {α β : Type} {r : Reading α} {p q : α → Prop}

theorem congr (h : Settles r p) (hp : ∀ a, p a ↔ q a) : Settles r q :=
  fun context count a count' => (h context count a count').trans (and_congr_left' (hp a))

/-- a value that is at hand, and no other -/
theorem pure {a : α} (h : ∀ b, p b ↔ b = a) : Settles (Pure.pure a : Reading α) p := by
  intro context count b count'
  rw [h]
  show Except.ok (a, count) = .ok (b, count') ↔ _
  simp [eq_comm]

/-- no value at all -/
theorem throw (h : ∀ a, ¬ p a) (e : Stop) : Settles (MonadExcept.throw e : Reading α) p := by
  intro context count a count'
  exact ⟨nofun, fun ⟨ha, _⟩ => absurd ha (h a)⟩

theorem mismatch (h : ∀ a, ¬ p a) (m : Mismatch) (path : List Step) (n : Node) :
    Settles (Yaml.mismatch m path n : Reading α) p := throw h _

theorem bind {f : α → Reading β} {s : α → β → Prop} (h : Settles r p)
    (hf : ∀ a, p a → Settles (f a) (s a)) : Settles (r >>= f) fun b => ∃ a, p a ∧ s a b := by
  intro context count b count'
  show (r context count >>= fun x => f x.1 context x.2) = _ ↔ _
  constructor
  · intro hr
    obtain ⟨⟨a, n⟩, ha, hb⟩ := exists_of_bind hr
    obtain ⟨hpa, rfl⟩ := (h context count a n).1 ha
    obtain ⟨hs, rfl⟩ := (hf a hpa context n b count').1 hb
    exact ⟨⟨a, hpa, hs⟩, rfl⟩
  · rintro ⟨⟨a, hpa, hs⟩, rfl⟩
    exact bind_ok ((h context count' a count').2 ⟨hpa, rfl⟩)
      ((hf a hpa context count' b count').2 ⟨hs, rfl⟩)

/-- what follows reading that comes to nothing does not matter -/
theorem never {f : α → Reading β} {s : β → Prop} (h : Settles r fun _ => False)
    (hs : ∀ b, ¬ s b) : Settles (r >>= f) s :=
  (h.bind (s := fun _ _ => False) fun _ => False.elim).congr fun b =>
    ⟨fun ⟨_, ha, _⟩ => ha.elim, fun hb => absurd hb (hs b)⟩

theorem placing (h : Settles r p) (path : List Step) (mark : Mark) :
    Settles (placing path mark r) p := by
  intro context count a count'
  rw [← h context count a count']
  unfold Yaml.placing
  split
  · next heq => rw [heq]; exact ⟨nofun, nofun⟩
  · rfl

end Settles

/-- a reader takes the outlines of this sort, and gives what they stand for -/
def Reads {α : Type} (reader : NodeReader α) (stands : Outline → α → Prop) : Prop :=
  ∀ {n : Node} {o : Outline}, Outlined n o → ∀ path, Settles (reader path n) (stands o)

section readers
variable {n : Node} {o : Outline} {α : Type}

/-- what has an outline is no alias, and not cut off, so reading goes on with the node itself -/
theorem settles_follow (h : Outlined n o) {f : Node → Reading α} {p : α → Prop}
    (hf : Settles (f n) p) : Settles (follow n >>= f) p := by
  have hn : Settles (follow n) (· = n) := by
    cases h <;> exact .pure fun _ => Iff.rfl
  refine (hn.bind (s := fun _ => p) fun a ha => ha ▸ hf).congr fun a => ?_
  exact ⟨fun ⟨_, _, hp⟩ => hp, fun hp => ⟨n, rfl, hp⟩⟩

/-! ## scalars -/

theorem reads_text : Reads NodeReader.text (StandsFor .text) := by
  intro n o h path
  refine settles_follow h ?_
  cases h with
  | scalar mark style s =>
    refine .pure fun d => ⟨fun hd => ?_, fun hd => hd ▸ .text style s⟩
    cases hd
    rfl
  | _ => exact .mismatch nofun _ _ _

/-- only a plain scalar is a word -/
theorem isWord_eq (tag : String) (style : Style) :
    NodeReader.isWord tag {} style = decide (style = .plain) := by
  cases style <;> rfl

theorem reads_flag : Reads NodeReader.flag (StandsFor .flag) := by
  intro n o h path
  refine settles_follow h ?_
  cases h with
  | scalar mark style s =>
    dsimp only
    rw [isWord_eq]
    cases style with
    | plain =>
      cases hs : Sense.flag? s with
      | none =>
        refine .mismatch (fun d hd => ?_) _ _ _
        cases hd with
        | flag word => cases hs.symm.trans word
      | some b =>
        refine .pure fun d => ⟨fun hd => ?_, fun hd => hd ▸ .flag hs⟩
        cases hd with
        | flag word => cases hs.symm.trans word; rfl
    | _ => exact .mismatch nofun _ _ _
  | _ => exact .mismatch nofun _ _ _

theorem reads_number : Reads NodeReader.number (StandsFor .number) := by
  intro n o h path
  refine settles_follow h ?_
  cases h with
  | scalar mark style s =>
    dsimp only
    rw [isWord_eq]
    cases style with
    | plain =>
      cases hs : Sense.natural? s.toList with
      | none =>
        refine .mismatch (fun d hd => ?_) _ _ _
        cases hd with
        | number numeral _ => cases hs.symm.trans numeral
      | some v =>
        show Settles (if v < UInt32.size then _ else _) _
        split
        · next hv =>
          refine .pure fun d => ⟨fun hd => ?_, fun hd => hd ▸ .number hs (Nat.le_of_lt_succ hv)⟩
          cases hd with
          | number numeral _ => cases hs.symm.trans numeral; rfl
        · next hv =>
          have hnone : ∀ d, ¬ StandsFor .number (.scalar .plain s) d := by
            intro d hd
            cases hd with
            | number numeral fits =>
              cases hs.symm.trans numeral
              exact hv (Nat.lt_succ_of_le fits)
          split <;> exact .mismatch hnone _ _ _
    | _ => exact .mismatch nofun _ _ _
  | _ => exact .mismatch nofun _ _ _

theorem reads_choice (words : List String) :
    Reads (NodeReader.choice words) (StandsFor (.choice words)) := by
  intro n o h path
  refine settles_follow h ?_
  cases h with
  | scalar mark style s =>
    show Settles (if words.contains s = true then _ else _) _
    split
    · next hs =>
      refine .pure fun d => ⟨fun hd => ?_, fun hd => hd ▸ .word style (List.contains_iff_mem.1 hs)⟩
      cases hd
      rfl
    · next hs =>
      refine .mismatch (fun d hd => ?_) _ _ _
      cases hd with
      | word _ known => exact hs (List.contains_iff_mem.2 known)
  | _ => exact .mismatch nofun _ _ _

/-! ## collections -/

variable {item shape : Shape} {reader : NodeReader Document}

theorem settles_items (hr : Reads reader (StandsFor item)) {ns : List Node} {os : List Outline}
    (h : ItemsOutlined ns os) (path : List Step) (i : Nat) :
    Settles (NodeReader.items reader path i ns) (ItemsStandFor item os) := by
  induction ns generalizing os i with
  | nil =>
    cases h with
    | nil =>
      refine .pure fun ds => ⟨fun hd => ?_, fun hd => hd ▸ .nil item⟩
      cases hd
      rfl
  | cons n ns ih =>
    cases h with
    | cons first rest =>
      rw [NodeReader.items]
      refine ((hr first _).bind fun d _ => (ih rest (i + 1)).bind fun ds _ =>
        .pure fun _ => Iff.rfl).congr fun ds => ?_
      constructor
      · rintro ⟨d, hd, ds, hds, rfl⟩
        exact .cons hd hds
      · intro hds
        cases hds with
        | cons value rest => exact ⟨_, value, _, rest, rfl⟩

theorem isLeftEmpty_iff (h : Outlined n o) :
    NodeReader.isLeftEmpty n = true ↔ o = .scalar .plain "" := by
  cases h with
  | scalar mark style s => simp [NodeReader.isLeftEmpty]
  | _ => simp [NodeReader.isLeftEmpty]

theorem reads_list (hr : Reads reader (StandsFor item)) :
    Reads (NodeReader.list reader) (StandsFor (.list item)) := by
  intro n o h path
  refine settles_follow h ?_
  cases h with
  | sequence mark items =>
    refine ((settles_items hr items path 0).bind fun ds _ =>
      .pure fun _ => Iff.rfl).congr fun d => ?_
    constructor
    · rintro ⟨ds, hds, rfl⟩
      exact .list hds
    · intro hd
      cases hd with
      | list items => exact ⟨_, items, rfl⟩
  | scalar mark style s =>
    show Settles (if NodeReader.isLeftEmpty (.scalar mark {} style s) = true then _ else _) _
    split
    · next he =>
      obtain ⟨rfl, rfl⟩ := Outline.scalar.inj ((isLeftEmpty_iff (.scalar mark style s)).1 he)
      refine .pure fun d => ⟨fun hd => ?_, fun hd => hd ▸ .noItems item⟩
      cases hd
      rfl
    · next he =>
      refine .mismatch (fun d hd => ?_) _ _ _
      cases hd
      exact he rfl
  | mapping mark members => exact .mismatch nofun _ _ _

theorem reads_field (hr : Reads reader (StandsFor shape)) :
    Reads (NodeReader.field reader) (FieldStandsFor shape) := by
  intro n o h path
  refine settles_follow h ?_
  have hnull : Settles (NodeReader.isNull n) (· = o.isVoid) := by
    cases h with
    | scalar mark style s => cases style <;> exact .pure fun _ => Iff.rfl
    | _ => exact .pure fun _ => Iff.rfl
  have hvalue : Settles (do return some (← reader path n)) fun d? =>
      ∃ d, StandsFor shape o d ∧ d? = some d := (hr h path).bind fun d _ => .pure fun _ => Iff.rfl
  refine (hnull.bind (s := fun void d? => FieldStandsFor shape o d?) fun void hvoid => ?_).congr
    fun d? => ⟨fun ⟨_, _, hd⟩ => hd, fun hd => ⟨_, rfl, hd⟩⟩
  cases void with
  | true =>
    refine .pure fun d? => ⟨fun hd => ?_, fun hd => hd ▸ .null hvoid.symm⟩
    cases hd with
    | null => rfl
    | value filled _ => cases hvoid.trans filled
  | false =>
    refine hvalue.congr fun d? => ⟨?_, fun hd => ?_⟩
    · rintro ⟨d, hd, rfl⟩
      exact .value hvoid.symm hd
    · cases hd with
      | null void => cases hvoid.trans void
      | value _ value => exact ⟨_, value, rfl⟩

theorem lookup_memberReaders (fields : List (String × Shape)) (key : String) :
    (memberReaders fields).lookup key = (fields.lookup key).map nodeReader := by
  induction fields with
  | nil => rfl
  | cons field fields ih =>
    rw [memberReaders, List.lookup_cons, List.lookup_cons, ih]
    cases key == field.1 <;> rfl

theorem settles_members {fields : List (String × Shape)}
    (hf : ∀ field ∈ fields, Reads (nodeReader field.2) (StandsFor field.2)) (path : List Step)
    {seen : List String} {ns : List (Node × Node)} {ms : List (Outline × Outline)}
    (h : MembersOutlined ns ms) :
    Settles (NodeReader.members (memberReaders fields) path seen ns) fun ds =>
      MembersStandFor fields ms ds ∧ (keysOf ms).Nodup ∧ ∀ key ∈ keysOf ms, key ∉ seen := by
  induction ns generalizing ms seen with
  | nil =>
    cases h with
    | nil =>
      refine .pure fun ds => ⟨fun hd => ?_, ?_⟩
      · cases hd.1
        rfl
      · rintro rfl
        exact ⟨.nil fields, List.nodup_nil, nofun⟩
  | cons m ns ih =>
    cases h with
    | @cons k n q o _ ms hkey hvalue rest =>
    rw [NodeReader.members]
    refine settles_follow hkey ?_
    cases hkey with
    | scalar mark style key =>
      dsimp only [NodeReader.keyName]
      rw [pure_bind, lookup_memberReaders]
      cases hl : fields.lookup key with
      | none =>
        refine .mismatch (fun ds hd => ?_) _ _ _
        cases hd.1 with
        | cons _ known => cases hl.symm.trans known
      | some shape =>
        dsimp only [Option.map_some]
        split
        · next hseen =>
          refine .never (.throw (fun _ => id) _) fun ds hd => ?_
          exact hd.2.2 key List.mem_cons_self (List.contains_iff_mem.1 hseen)
        · next hseen =>
          have hfield := reads_field (hf (key, shape) (mem_of_lookup hl)) hvalue
            (path ++ [.member (some key)])
          have hrest : Settles (NodeReader.members (memberReaders fields) path (key :: seen) ns)
              fun ds => MembersStandFor fields ms ds ∧ (keysOf ms).Nodup ∧
                ∀ q ∈ keysOf ms, q ∉ key :: seen := ih rest
          refine (hfield.bind fun d? _ => hrest.bind
            (s := fun ds' ds => ds = (d?.map (key, ·)).toList ++ ds') fun ds' _ => ?_).congr
              fun ds => ?_
          · cases d? <;> exact .pure fun _ => Iff.rfl
          constructor
          · rintro ⟨d?, hd, ds', ⟨hms, hnodup, hnew⟩, rfl⟩
            refine ⟨.cons style hl hd hms, List.nodup_cons.2 ⟨fun hm => ?_, hnodup⟩, ?_⟩
            · exact hnew key hm List.mem_cons_self
            · exact List.forall_mem_cons.2 ⟨mt List.contains_iff_mem.2 hseen,
                fun q hq hm => hnew q hq (List.mem_cons_of_mem _ hm)⟩
          · rintro ⟨hms, hnodup, hnew⟩
            obtain ⟨hfirst, hnodup⟩ := List.nodup_cons.1 hnodup
            cases hms with
            | cons _ known field rest =>
              cases hl.symm.trans known
              refine ⟨_, field, _, ⟨rest, hnodup, fun q hq hm => ?_⟩, rfl⟩
              rcases List.mem_cons.1 hm with rfl | hm
              · exact hfirst hq
              · exact (List.forall_mem_cons.1 hnew).2 q hq hm
    | _ =>
      refine .never (.mismatch (fun _ => id) _ _ _) fun ds hd => ?_
      cases hd.1

theorem reads_record {fields : List (String × Shape)}
    (hf : ∀ field ∈ fields, Reads (nodeReader field.2) (StandsFor field.2)) (title : String) :
    Reads (NodeReader.record title (memberReaders fields)) (StandsFor (.record title fields)) := by
  intro n o h path
  refine settles_follow h ?_
  cases h with
  | @mapping mark ns ms members =>
    have hrecord : Settles
        (do return .record (← NodeReader.members (memberReaders fields) path [] ns))
        fun d => ∃ ds, (MembersStandFor fields ms ds ∧ (keysOf ms).Nodup ∧
          ∀ key ∈ keysOf ms, key ∉ []) ∧ d = Document.record ds :=
      (settles_members hf path members).bind fun ds _ => .pure fun _ => Iff.rfl
    refine (hrecord.congr fun d => ⟨?_, fun hd => ?_⟩).placing path mark
    · rintro ⟨ds, ⟨hms, hnodup, -⟩, rfl⟩
      exact .record hnodup hms
    · cases hd with
      | record once members => exact ⟨_, ⟨members, once, fun _ _ => List.not_mem_nil⟩, rfl⟩
  | scalar mark style s =>
    show Settles (if NodeReader.isLeftEmpty (.scalar mark {} style s) = true then _ else _) _
    split
    · next he =>
      obtain ⟨rfl, rfl⟩ := Outline.scalar.inj ((isLeftEmpty_iff (.scalar mark style s)).1 he)
      refine .pure fun d => ⟨fun hd => ?_, fun hd => hd ▸ .noMembers title fields⟩
      cases hd
      rfl
    · next he =>
      refine .mismatch (fun d hd => ?_) _ _ _
      cases hd
      exact he rfl
  | sequence mark items => exact .mismatch nofun _ _ _

end readers

/-! ## shapes -/

mutual

theorem reads_shape : (shape : Shape) → Reads (nodeReader shape) (StandsFor shape)
  | .text => reads_text
  | .number => reads_number
  | .flag => reads_flag
  | .choice words => reads_choice words
  | .list item => reads_list (reads_shape item)
  | .record title fields => reads_record (reads_fields fields) title

theorem reads_fields : (fields : List (String × Shape)) →
    ∀ field ∈ fields, Reads (nodeReader field.2) (StandsFor field.2)
  | [] => fun _ h => absurd h List.not_mem_nil
  | (_, shape) :: fields => List.forall_mem_cons.2 ⟨reads_shape shape, reads_fields fields⟩

end

/-- a text with an outline is read as what the outline stands for -/
theorem read_written {shape : Shape} {o : Outline} {bytes : Bytes} (h : o.Written bytes)
    {d : Document} : read shape bytes = .ok d ↔ StandsFor shape o d := by
  obtain ⟨root, hbytes, ho⟩ := h
  have hs := reads_shape shape ho [] (Contents.context ⟨some root, none, false⟩ root) 0
  have hd : read shape bytes = Contents.document ⟨some root, none, false⟩ shape := by
    unfold read
    rw [hbytes]
    exact bind_pure _
  have hnone : ∀ e, nodeReader shape [] root (Contents.context ⟨some root, none, false⟩ root) 0 =
      .error e → ¬ StandsFor shape o d := by
    intro e he hstands
    cases he.symm.trans ((hs d 0).2 ⟨hstands, rfl⟩)
  rw [hd]
  unfold Contents.document
  dsimp only
  split
  · next d' count heq =>
    obtain ⟨hstands, rfl⟩ := (hs d' count).1 heq
    constructor
    · rintro ⟨⟩
      exact hstands
    · intro h
      cases heq.symm.trans ((hs d 0).2 ⟨h, rfl⟩)
      rfl
  · next e heq => exact ⟨nofun, fun h => absurd h (hnone _ heq)⟩
  · next m heq => exact ⟨nofun, fun h => absurd h (hnone _ heq)⟩

end Yaml

namespace Spec

open Logged (outcome)

/-- a text with an outline is accepted if and only if the outline conforms to the shape of
specifications, and it is read as what the outline stands for -/
theorem decode_yaml_written {o : Yaml.Outline} {bytes : Bytes} (h : o.Written bytes) (s : Spec) :
    outcome (decode .yaml bytes) = .ok s ↔
      ∃ d : Document, Yaml.StandsFor shape o d ∧ s = ofDocument d := by
  have hdecode : outcome (decode .yaml bytes) =
      ((Yaml.read shape bytes).mapError ReadError.yaml).map ofDocument :=
    outcome_report_settle _ _ _
  rw [hdecode]
  simp only [← Yaml.read_written h]
  cases Yaml.read shape bytes with
  | error e => exact ⟨nofun, nofun⟩
  | ok d =>
    constructor
    · intro hs
      cases hs
      exact ⟨d, rfl, rfl⟩
    · rintro ⟨_, hd, rfl⟩
      cases hd
      rfl

end Spec

end MachineSpec
