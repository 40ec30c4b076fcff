import MachineSpec.Proofs.Document.Fits
import MachineSpec.Proofs.Json.Values

/-!
# What the readers of JSON lists and objects take

A list is read item by item, and an object member by member.  What one step takes is one item or one
member with what stands in front of it; the runs up to the closing bracket follow by induction, on
the fuel where a value has been read and on the values where they are spelled.

* `Reader.of_items`, `Reader.items_spelled`       the items of a list
* `Reader.of_members_succ`                        one member of an object
* `Reader.of_members`, `Reader.members_spelled`   the members of an object
* `Reader.of_values`, `Reader.values_spelled`     the fields of a record in order
* `Reader.takes_list`                               lists
* `Reader.record_spelled`, `Reader.takes_record`    records
-/

namespace MachineSpec.Json

open Digit (Ends enders ends_cons)

namespace Reader

/-! ## lists -/

theorem lead_append {first : Bool} {ls ws : List Char} (hl : Lead first ls) (hw : Blanks ws) :
    Lead first (ls ++ ws) := by
  cases hl with
  | first blanks => exact .first (blanks_append blanks hw)
  | comma before behind =>
    rw [List.append_assoc]
    exact .comma before (blanks_append behind hw)

/-- a comma, and the white space on both sides of it -/
theorem exists_comma {p r : Place} (h : skip p = .char ',' :: r) :
    ∃ ls, Lead false ls ∧ p = glyphs ls ++ skip r := by
  obtain ⟨ws, hw, rfl⟩ := (skip_eq_cons (by decide)).1 h
  obtain ⟨ws', hw', hr⟩ := exists_skip r
  refine ⟨ws ++ ',' :: ws', .comma hw hw', ?_⟩
  rw [glyphs_append, List.append_assoc, glyphs_cons, List.cons_append, ← hr]

theorem skip_comma {ws : List Char} (h : Blanks ws) (ws' : List Char) (r : Place) :
    skip (glyphs (ws ++ ',' :: ws') ++ r) = .char ',' :: (glyphs ws' ++ r) := by
  rw [glyphs_append, List.append_assoc]
  exact (skip_eq_cons (by decide)).2 ⟨ws, h, rfl⟩

theorem ends_lead {ls : List Char} (h : Lead false ls) (r : Place) : Ends (glyphs ls ++ r) := by
  cases h with
  | comma before _ =>
  rw [glyphs_append, List.append_assoc]
  exact ends_blanks before (ends_cons (by decide) _)

theorem of_nextItem? {first : Bool} {p q : Place} (h : nextItem? first p = .ok (some q)) :
    ∃ ls, Lead first ls ∧ p = glyphs ls ++ q := by
  unfold nextItem? at h
  split at h
  · cases h
  · cases h
  split at h
  · next hf =>
    cases h
    obtain ⟨ws, hw, hp⟩ := exists_skip p
    exact ⟨ws, hf ▸ .first hw, hp⟩
  next hf =>
  split at h
  · next hq =>
    obtain ⟨ls, hl, hp⟩ := exists_comma hq
    split at h
    · cases h
    · cases h
    · cases h
      exact ⟨ls, Bool.eq_false_iff.2 hf ▸ hl, hp⟩
  · cases h

theorem close_of_listEnd {first : Bool} {p r : Place} (h : listEnd p = .ok r) :
    ∃ cs, ItemsSpelled first [] cs ∧ p = glyphs cs ++ r := by
  obtain ⟨ws, hw, rfl⟩ := listEnd_eq_ok.1 h
  exact ⟨_, .close hw, by rw [glyphs_append, List.append_assoc]; rfl⟩

theorem nextItem?_close {first : Bool} {ws : List Char} (h : Blanks ws) (r : Place) :
    nextItem? first (glyphs ws ++ .char ']' :: r) = .ok none := by
  unfold nextItem?
  rw [(skip_eq_cons (by decide)).2 ⟨ws, h, rfl⟩]
  rfl

theorem nextItem?_lead {first : Bool} {ls cs : List Char} {c : Char} (hl : Lead first ls)
    (hc : c ∉ enders) (r : Place) :
    nextItem? first (glyphs ls ++ (glyphs (c :: cs) ++ r)) =
      .ok (some (glyphs (c :: cs) ++ r)) := by
  have hskip : skip (glyphs (c :: cs) ++ r) = glyphs (c :: cs) ++ r :=
    skip_char (mt blank_mem_enders hc) _
  have hclose : ∀ r', glyphs (c :: cs) ++ r ≠ .char ']' :: r' := fun r' he =>
    hc (Glyph.char.inj (List.cons.inj he).1 ▸ (by decide : ']' ∈ enders))
  unfold nextItem?
  cases hl with
  | first blanks =>
    rw [skip_glyphs blanks, hskip]
    split
    · next heq => cases heq
    · next heq => exact absurd heq (hclose _)
    · rfl
  | @comma ws ws' before behind =>
    rw [skip_comma before]
    split
    · next heq => cases heq
    · next heq => cases heq
    rw [if_neg Bool.false_ne_true]
    split
    · next heq =>
      cases heq
      rw [skip_glyphs behind, hskip]
      split
      · next heq => cases heq
      · next heq => exact absurd heq (hclose _)
      · rfl
    · next hne => exact absurd rfl (hne _)

theorem ends_items {vs : List Value} {cs : List Char} (h : ItemsSpelled false vs cs) (r : Place) :
    Ends (glyphs cs ++ r) := by
  cases h with
  | close blanks =>
    rw [glyphs_append, List.append_assoc]
    exact ends_blanks blanks (ends_cons (by decide) r)
  | item lead _ _ =>
    rw [glyphs_append, List.append_assoc]
    exact ends_lead lead _

theorem length_lt_of_itemsSpelled {first : Bool} {vs : List Value} {cs : List Char}
    (h : ItemsSpelled first vs cs) : vs.length < cs.length := by
  induction vs generalizing first cs with
  | nil =>
    cases h with
    | close _ =>
    rw [List.length_append]
    exact Nat.lt_add_left _ Nat.zero_lt_one
  | cons v vs ih =>
    cases h with
    | item _ value rest =>
    obtain ⟨c, ds, rfl, -⟩ := exists_spelled value
    have hr := ih rest
    simp only [List.length_append, List.length_cons]
    omega

section items
variable {item : Shape} {reader : Reader Document} (hr : Takes reader (StandsFor item))
include hr

/-- what is read up to the end of a list is spelled there -/
theorem of_items {fuel : Nat} {first : Bool} {p q r : Place} {ds : List Document}
    (h : items reader fuel first p = .ok (ds, q)) (hend : listEnd q = .ok r) :
    ∃ vs cs, ItemsSpelled first vs cs ∧ ItemsStandFor item vs ds ∧ p = glyphs cs ++ r := by
  induction fuel generalizing first p ds with
  | zero => cases h
  | succ fuel ih =>
    rw [items] at h
    obtain ⟨next?, hnext, h⟩ := exists_of_bind h
    cases next? with
    | none =>
      cases h
      obtain ⟨cs, hs, hp⟩ := close_of_listEnd hend
      exact ⟨[], cs, hs, .nil item, hp⟩
    | some q' =>
      obtain ⟨⟨d, r₁⟩, hd, h₁⟩ := exists_of_bind h
      obtain ⟨⟨ds', r₂⟩, hds, heq⟩ := exists_of_bind h₁
      cases heq
      obtain ⟨ls, hl, rfl⟩ := of_nextItem? hnext
      obtain ⟨ws, v, cs, hw, hv, hs, rfl⟩ := hr.sound hd
      obtain ⟨vs, es, hvs, hss, rfl⟩ := ih hds
      exact ⟨v :: vs, _, .item (lead_append hl hw) hv hvs, .cons hs hss, by simp [glyphs_append]⟩

/-- what is spelled up to the end of a list is read -/
theorem items_spelled {vs : List Value} {ds : List Document} {first : Bool} {cs : List Char}
    (h : ItemsSpelled first vs cs) (hd : ItemsStandFor item vs ds) (r : Place) {fuel : Nat}
    (hf : vs.length < fuel) :
    ∃ q, items reader fuel first (glyphs cs ++ r) = .ok (ds, q) ∧ listEnd q = .ok r := by
  induction vs generalizing ds first cs fuel with
  | nil =>
    obtain ⟨fuel, rfl⟩ := Nat.exists_eq_add_one.2 hf
    cases hd
    cases h with
    | @close _ ws blanks =>
    rw [glyphs_append, List.append_assoc, items]
    exact ⟨_, bind_ok (nextItem?_close blanks _) rfl, listEnd_eq_ok.2 ⟨ws, blanks, rfl⟩⟩
  | cons v vs ih =>
    obtain ⟨fuel, rfl⟩ := Nat.exists_eq_add_one.2 (Nat.zero_lt_of_lt hf)
    cases hd with
    | cons hv hvs =>
    cases h with
    | @item _ ls cs es _ _ lead value rest =>
    obtain ⟨q, hq, hend⟩ := ih rest hvs (Nat.lt_of_succ_lt_succ hf)
    obtain ⟨c, cs, rfl, hc, -⟩ := exists_spelled value
    have hread := hr.complete blanks_nil value hv (ends_items rest r)
    refine ⟨q, ?_, hend⟩
    rw [glyphs_append, List.append_assoc, glyphs_append, List.append_assoc, items]
    exact bind_ok (nextItem?_lead lead hc _) (bind_ok hread (bind_ok hq rfl))

theorem takes_list : Takes (list reader) (StandsFor (.list item)) where
  sound h := by
    obtain ⟨ws, p, hw, hp, rfl⟩ := of_value h
    split at hp
    · obtain ⟨⟨ds, q⟩, hi, h₁⟩ := exists_of_bind hp
      obtain ⟨r', hend, heq⟩ := exists_of_bind h₁
      cases heq
      obtain ⟨vs, cs, hs, hd, rfl⟩ := of_items hr hi hend
      exact ⟨ws, .list vs, '[' :: cs, hw, .list hs, .list hd, rfl⟩
    · cases hp
  complete {_ _ _ _ r} hw hs h _ := by
    cases h with
    | @list _ vs _ hd =>
    cases hs with
    | @list _ cs hs =>
    have hfuel := lt_length_glyphs (length_lt_of_itemsSpelled hs) r
    obtain ⟨q, hi, hend⟩ := items_spelled hr hs hd r hfuel
    unfold list
    rw [value_glyphs hw]
    exact value_of_start (by decide) (bind_ok hi (bind_ok hend rfl))

end items

/-! ## objects -/

theorem of_nextKey? {first : Bool} {p q : Place} (h : nextKey? first p = .ok (some q)) :
    ∃ ls, Lead first ls ∧ p = glyphs ls ++ .char '"' :: q := by
  unfold nextKey? at h
  split at h
  · cases h
  · cases h
  · next hq =>
    obtain ⟨ls, hl, hp⟩ := exists_comma hq
    split at h
    · cases h
    next hf =>
    split at h
    · cases h
    · next hkey =>
      cases h
      exact ⟨ls, Bool.eq_false_iff.2 hf ▸ hl, hkey ▸ hp⟩
    · cases h
    · cases h
  · next hq =>
    split at h
    · next hf =>
      cases h
      obtain ⟨ws, hw, hp⟩ := exists_skip p
      exact ⟨ws, hf ▸ .first hw, hq ▸ hp⟩
    · cases h
  · cases h

theorem nextKey?_close {first : Bool} {ws : List Char} (h : Blanks ws) (r : Place) :
    nextKey? first (glyphs ws ++ .char '\x7d' :: r) = .ok none := by
  unfold nextKey?
  rw [(skip_eq_cons (by decide)).2 ⟨ws, h, rfl⟩]
  rfl

theorem nextKey?_lead {first : Bool} {ls : List Char} (h : Lead first ls) (q : Place) :
    nextKey? first (glyphs ls ++ .char '"' :: q) = .ok (some q) := by
  unfold nextKey?
  cases h with
  | first blanks =>
    rw [(skip_eq_cons (by decide)).2 ⟨ls, blanks, rfl⟩]
    rfl
  | @comma ws ws' before behind =>
    have hquote : skip (glyphs ws' ++ .char '"' :: q) = .char '"' :: q :=
      (skip_eq_cons (by decide)).2 ⟨ws', behind, rfl⟩
    rw [skip_comma before]
    split
    · next heq => cases heq
    · next heq => cases heq
    · next heq =>
      cases heq
      rw [if_neg Bool.false_ne_true, hquote]
      rfl
    · next heq => cases heq
    · next _ _ hne _ => exact absurd rfl (hne _)

theorem ends_members {ms : List (String × Value)} {cs : List Char}
    (h : MembersSpelled false ms cs) (r : Place) : Ends (glyphs cs ++ r) := by
  cases h with
  | close blanks =>
    rw [glyphs_append, List.append_assoc]
    exact ends_blanks blanks (ends_cons (by decide) r)
  | member lead _ _ _ _ _ =>
    rw [glyphs_append, List.append_assoc]
    exact ends_lead lead _

theorem length_lt_of_membersSpelled {first : Bool} {ms : List (String × Value)} {cs : List Char}
    (h : MembersSpelled first ms cs) : ms.length < cs.length := by
  induction ms generalizing first cs with
  | nil =>
    cases h with
    | close _ =>
    rw [List.length_append]
    exact Nat.lt_add_left _ Nat.zero_lt_one
  | cons m ms ih =>
    cases h with
    | member _ _ _ _ _ rest =>
    have hr := ih rest
    simp only [List.length_append, List.length_cons]
    omega

theorem lookup_fieldReaders (fields : List (String × Shape)) (key : String) :
    (fieldReaders fields).lookup key = (fields.lookup key).map shapeReader := by
  induction fields with
  | nil => rfl
  | cons field fields ih =>
    rw [fieldReaders, List.lookup_cons, List.lookup_cons, ih]
    cases key == field.1 <;> rfl

/-- what one step takes: nothing more, or a member whose key is known and new -/
theorem of_members_succ {fields : List (String × Shape)} {seen : List String} {fuel : Nat}
    {first : Bool} {p q : Place} {ds : List (String × Document)}
    (h : members (fieldReaders fields) seen (fuel + 1) first p = .ok (ds, q)) :
    (ds = [] ∧ q = p) ∨
      ∃ key shape d? ds' p₁ p₂ p₃ p₄, nextKey? first p = .ok (some p₁) ∧
        Quoted.scan p₁ = .ok (key, p₂) ∧ fields.lookup key = some shape ∧ key ∉ seen ∧
        colon p₂ = .ok p₃ ∧ field (shapeReader shape) p₃ = .ok (d?, p₄) ∧
        members (fieldReaders fields) (key :: seen) fuel false p₄ = .ok (ds', q) ∧
        ds = (d?.map (key, ·)).toList ++ ds' := by
  rw [members] at h
  obtain ⟨next?, hnext, h⟩ := exists_of_bind h
  cases next? with
  | none =>
    cases h
    exact .inl ⟨rfl, rfl⟩
  | some p₁ =>
    obtain ⟨⟨key, p₂⟩, hkey, h⟩ := exists_of_bind h
    dsimp only at h
    rw [lookup_fieldReaders] at h
    cases hl : fields.lookup key with
    | none =>
      rw [hl] at h
      cases h
    | some shape =>
    rw [hl, Option.map_some] at h
    dsimp only at h
    split at h
    · cases h
    next hseen =>
    obtain ⟨p₃, hcolon, h⟩ := exists_of_bind h
    obtain ⟨⟨d?, p₄⟩, hfield, h⟩ := exists_of_bind h
    obtain ⟨⟨ds', p₅⟩, hrest, h⟩ := exists_of_bind h
    obtain ⟨rfl, rfl⟩ : ds = (d?.map (key, ·)).toList ++ ds' ∧ q = p₅ := by
      cases d? <;> cases h <;> exact ⟨rfl, rfl⟩
    exact .inr ⟨key, shape, d?, ds', p₁, p₂, p₃, p₄, hnext, hkey, hl,
      fun hm => hseen (List.contains_iff_mem.2 hm), hcolon, hfield, hrest, rfl⟩

section fields
variable {fields : List (String × Shape)}
  (hf : ∀ field ∈ fields, Takes (shapeReader field.2) (StandsFor field.2))
include hf

/-- what is read up to the end of an object is spelled there, each key once -/
theorem of_members {seen : List String} {fuel : Nat} {first : Bool} {p q r : Place}
    {ds : List (String × Document)}
    (h : members (fieldReaders fields) seen fuel first p = .ok (ds, q))
    (hend : objectEnd q = .ok r) :
    ∃ ms cs, MembersSpelled first ms cs ∧ MembersStandFor fields ms ds ∧
      (ms.map Prod.fst).Nodup ∧ (∀ m ∈ ms, m.1 ∉ seen) ∧ p = glyphs cs ++ r := by
  induction fuel generalizing seen first p ds with
  | zero => cases h
  | succ fuel ih =>
    obtain ⟨rfl, rfl⟩ | ⟨key, shape, d?, ds', p₁, p₂, p₃, p₄, hnext, hkey, hl, hseen, hcolon,
      hfield, hrest, rfl⟩ := of_members_succ h
    · obtain ⟨ws, hw, rfl⟩ := objectEnd_eq_ok.1 hend
      exact ⟨[], _, .close hw, .nil fields, List.nodup_nil, fun _ hm => absurd hm List.not_mem_nil,
        by rw [glyphs_append, List.append_assoc]; rfl⟩
    · obtain ⟨ls, hlead, rfl⟩ := of_nextKey? hnext
      obtain ⟨ks, ht, rfl⟩ := Quoted.scan_eq_ok.1 hkey
      obtain ⟨bs, hb, rfl⟩ := colon_eq_ok.1 hcolon
      obtain ⟨ws, v, cs, hw, hv, hs, rfl⟩ := (takes_field (hf _ (mem_of_lookup hl))).sound hfield
      obtain ⟨ms, es, hms, hstand, once, hnew, rfl⟩ := ih hrest
      have hnew : ∀ m ∈ ms, m.1 ≠ key ∧ m.1 ∉ seen := fun m hm =>
        not_or.1 fun h => hnew m hm (List.mem_cons.2 h)
      have hkey : key ∉ ms.map Prod.fst := fun hm => by
        obtain ⟨m, hm, he⟩ := List.mem_map.1 hm
        exact (hnew m hm).1 he
      exact ⟨(key, v) :: ms, _, .member hlead ht hb hw hv hms, .cons hl hs hstand,
        List.nodup_cons.2 ⟨hkey, once⟩, List.forall_mem_cons.2 ⟨hseen, fun m hm => (hnew m hm).2⟩,
        by simp [glyphs_append]⟩

/-- what is spelled up to the end of an object is read if no key comes twice -/
theorem members_spelled {ms : List (String × Value)} {ds : List (String × Document)}
    {first : Bool} {cs : List Char} (h : MembersSpelled first ms cs)
    (hd : MembersStandFor fields ms ds) (once : (ms.map Prod.fst).Nodup) {seen : List String}
    (new : ∀ m ∈ ms, m.1 ∉ seen) (r : Place) {fuel : Nat} (hfuel : ms.length < fuel) :
    ∃ q, members (fieldReaders fields) seen fuel first (glyphs cs ++ r) = .ok (ds, q) ∧
      objectEnd q = .ok r := by
  induction ms generalizing ds first cs seen fuel with
  | nil =>
    obtain ⟨fuel, rfl⟩ := Nat.exists_eq_add_one.2 hfuel
    cases hd
    cases h with
    | @close _ ws blanks =>
    rw [glyphs_append, List.append_assoc, members]
    exact ⟨_, bind_ok (nextKey?_close blanks _) rfl, objectEnd_eq_ok.2 ⟨ws, blanks, rfl⟩⟩
  | cons m ms ih =>
    obtain ⟨fuel, rfl⟩ := Nat.exists_eq_add_one.2 (Nat.zero_lt_of_lt hfuel)
    cases hd with
    | @cons _ key shape v d? _ ds known hfield hstand =>
    cases h with
    | @member _ ls ks bs ws cs es _ _ _ lead ht hb hw value rest =>
    obtain ⟨hkey, once⟩ := List.nodup_cons.1 once
    obtain ⟨hseen, new⟩ := List.forall_mem_cons.1 new
    have hnew : ∀ m ∈ ms, m.1 ∉ key :: seen := fun m hm h =>
      (List.mem_cons.1 h).elim (fun he => hkey (List.mem_map.2 ⟨m, hm, he⟩)) (new m hm)
    obtain ⟨q, hq, hend⟩ := ih rest hstand once hnew (Nat.lt_of_succ_lt_succ hfuel)
    have hread := (takes_field (hf _ (mem_of_lookup known))).complete hw value hfield
      (ends_members rest r)
    have hseen : seen.contains key = false := by simpa using hseen
    refine ⟨q, ?_, hend⟩
    simp only [glyphs_append, glyphs_cons, List.append_assoc, List.cons_append]
    rw [members]
    refine bind_ok (nextKey?_lead lead _) (bind_ok (Quoted.scan_eq_ok.2 ⟨ks, ht, rfl⟩) ?_)
    simp only [lookup_fieldReaders, known, Option.map_some, hseen, Bool.false_eq_true, if_false]
    refine bind_ok (colon_eq_ok.2 ⟨bs, hb, rfl⟩) (bind_ok hread (bind_ok hq ?_))
    cases d? <;> rfl

/-! ## records -/

/-- a list read as the fields of a record is spelled there -/
theorem of_values {first : Bool} {p q r : Place} {ds : List (String × Document)}
    (h : values (fieldReaders fields) first p = .ok (ds, q)) (hend : listEnd q = .ok r) :
    ∃ vs cs, ItemsSpelled first vs cs ∧ FieldsStandFor fields vs ds ∧ p = glyphs cs ++ r := by
  induction fields generalizing first p ds with
  | nil =>
    cases h
    obtain ⟨cs, hs, hp⟩ := close_of_listEnd hend
    exact ⟨[], cs, hs, .nil [], hp⟩
  | cons field fields ih =>
    obtain ⟨key, shape⟩ := field
    rw [fieldReaders, values] at h
    obtain ⟨next?, hnext, h⟩ := exists_of_bind h
    cases next? with
    | none =>
      cases h
      obtain ⟨cs, hs, hp⟩ := close_of_listEnd hend
      exact ⟨[], cs, hs, .nil _, hp⟩
    | some q' =>
      obtain ⟨⟨d?, r₁⟩, hfield, h₁⟩ := exists_of_bind h
      obtain ⟨⟨ds', r₂⟩, hrest, h₂⟩ := exists_of_bind h₁
      obtain ⟨rfl, rfl⟩ : ds = (d?.map (key, ·)).toList ++ ds' ∧ q = r₂ := by
        cases d? <;> cases h₂ <;> exact ⟨rfl, rfl⟩
      obtain ⟨hshape, hf⟩ := List.forall_mem_cons.1 hf
      obtain ⟨ls, hlead, rfl⟩ := of_nextItem? hnext
      obtain ⟨ws, v, cs, hw, hv, hs, rfl⟩ := (takes_field hshape).sound hfield
      obtain ⟨vs, es, hvs, hstand, rfl⟩ := ih hf hrest
      exact ⟨v :: vs, _, .item (lead_append hlead hw) hv hvs, .cons hs hstand,
        by simp [glyphs_append]⟩

theorem values_spelled {vs : List Value} {ds : List (String × Document)} {first : Bool}
    {cs : List Char} (h : ItemsSpelled first vs cs) (hd : FieldsStandFor fields vs ds) (r : Place) :
    ∃ q, values (fieldReaders fields) first (glyphs cs ++ r) = .ok (ds, q) ∧ listEnd q = .ok r := by
  induction vs generalizing fields ds first cs with
  | nil =>
    cases hd
    cases h with
    | @close _ ws blanks =>
    rw [glyphs_append, List.append_assoc]
    refine ⟨_, ?_, listEnd_eq_ok.2 ⟨ws, blanks, rfl⟩⟩
    cases fields with
    | nil => rfl
    | cons field fields => exact bind_ok (nextItem?_close blanks _) rfl
  | cons v vs ih =>
    cases hd with
    | @cons fields key shape _ d? _ ds hfield hstand =>
    cases h with
    | @item _ ls cs es _ _ lead value rest =>
    obtain ⟨hshape, hf⟩ := List.forall_mem_cons.1 hf
    obtain ⟨q, hq, hend⟩ := ih hf rest hstand
    obtain ⟨c, cs, rfl, hc, -⟩ := exists_spelled value
    have hread := (takes_field hshape).complete blanks_nil value hfield (ends_items rest r)
    refine ⟨q, ?_, hend⟩
    rw [glyphs_append, List.append_assoc, glyphs_append, List.append_assoc]
    refine bind_ok (nextItem?_lead lead hc _) (bind_ok hread (bind_ok hq ?_))
    cases d? <;> rfl

/-- a record ends with its bracket, so it is read whatever follows -/
theorem record_spelled {title : String} {ws cs : List Char} {v : Value} {d : Document}
    (hw : Blanks ws) (hs : ValueSpelled v cs) (h : StandsFor (.record title fields) v d)
    (r : Place) :
    record title (fieldReaders fields) (glyphs ws ++ (glyphs cs ++ r)) = .ok (d, r) := by
  unfold record
  rw [value_glyphs hw]
  cases h with
  | @object _ _ ms _ once hd =>
    cases hs with
    | @object _ cs hs =>
    have hfuel := lt_length_glyphs (length_lt_of_membersSpelled hs) r
    obtain ⟨q, hm, hend⟩ := members_spelled hf hs hd once (fun _ _ => List.not_mem_nil) r hfuel
    exact value_of_start (by decide) (bind_ok hm (bind_ok hend rfl))
  | inOrder hd =>
    cases hs with
    | list hs =>
    obtain ⟨q, hv, hend⟩ := values_spelled hf hs hd r
    exact value_of_start (by decide) (bind_ok hv (bind_ok hend rfl))

theorem takes_record (title : String) :
    Takes (record title (fieldReaders fields)) (StandsFor (.record title fields)) where
  sound h := by
    obtain ⟨ws, p, hw, hp, rfl⟩ := of_value h
    split at hp
    · obtain ⟨⟨ds, q⟩, hm, h₁⟩ := exists_of_bind hp
      obtain ⟨r', hend, heq⟩ := exists_of_bind h₁
      cases heq
      obtain ⟨ms, cs, hs, hd, once, -, rfl⟩ := of_members hf hm hend
      exact ⟨ws, .object ms, '\x7b' :: cs, hw, .object hs, .object once hd, rfl⟩
    · obtain ⟨⟨ds, q⟩, hv, h₁⟩ := exists_of_bind hp
      obtain ⟨r', hend, heq⟩ := exists_of_bind h₁
      cases heq
      obtain ⟨vs, cs, hs, hd, rfl⟩ := of_values hf hv hend
      exact ⟨ws, .list vs, '[' :: cs, hw, .list hs, .inOrder hd, rfl⟩
    · cases hp
  complete {_ _ _ _ r} hw hs h _ := record_spelled hf hw hs h r

end fields

end Reader

end MachineSpec.Json
