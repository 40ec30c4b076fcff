import MachineSpec.Proofs.Yaml.Tokens
import MachineSpec.Yaml.Tree

/-!
# Trees of documents

The tokens of a document grow into a tree that holds the document.  Three calls are enough for each
token: one for the node, and two on the way from a key to its value.

* `Holds`                a tree that holds a document
* `Grows`                what grows from tokens at hand
* `InLines.growsBack`    the tree of a document
* `InLines.ofTokens_eq`  the contents of a text that holds a record
-/

namespace MachineSpec.Yaml

open Frontier Quoting Tokens

mutual

/-- a tree that holds a document, each scalar in the form in which it is written -/
inductive Holds : Document → Node → Prop
  | text (mark : Mark) (s : String) : Holds (.text s) (.scalar mark {} (styleOf s.toList) s)
  | number (mark : Mark) (n : UInt32) :
      Holds (.number n) (.scalar mark {} .plain (toString n.toNat))
  | flag (mark : Mark) (b : Bool) : Holds (.flag b) (.scalar mark {} .plain (toString b))
  | list (mark : Mark) {ds : List Document} {ns : List Node} (items : HoldsItems ds ns) :
      Holds (.list ds) (.sequence mark {} ns)
  | record (mark : Mark) {ms : List (String × Document)} {ns : List (Node × Node)}
      (members : HoldsMembers ms ns) : Holds (.record ms) (.mapping mark {} ns)

inductive HoldsItems : List Document → List Node → Prop
  | nil : HoldsItems [] []
  | cons {d : Document} {n : Node} {ds : List Document} {ns : List Node} (item : Holds d n)
      (items : HoldsItems ds ns) : HoldsItems (d :: ds) (n :: ns)

inductive HoldsMembers : List (String × Document) → List (Node × Node) → Prop
  | nil : HoldsMembers [] []
  | cons (mark : Mark) {key : String} {d : Document} {n : Node} {ms : List (String × Document)}
      {ns : List (Node × Node)} (member : Holds d n) (members : HoldsMembers ms ns) :
      HoldsMembers ((key, d) :: ms) ((.scalar mark {} .plain key, n) :: ns)

end

/-- from tokens of these kinds something of this sort grows, and the tokens behind them are left -/
def Grows {α : Type} (g : Growth α) (kinds more : List Token.Kind) (sort : α → Prop) : Prop :=
  ∀ s : Supply, kindsOf s.tokens = kinds ++ more →
    ∃ a ts, g s = (a, { s with tokens := ts }) ∧ kindsOf ts = more ∧ sort a

theorem exists_token {k : Token.Kind} {ks : List Token.Kind} {ts : List Token}
    (h : kindsOf ts = k :: ks) :
    ∃ m m' us, ts = ⟨k, m, m'⟩ :: us ∧ kindsOf us = ks := by
  cases ts with
  | nil => cases h
  | cons t us =>
    obtain ⟨kind, m, m'⟩ := t
    obtain ⟨hk, hu⟩ := List.cons.inj h
    cases hk
    exact ⟨m, m', us, rfl, hu⟩

namespace Growth

variable {s : Supply} {m m' : Mark} {ts : List Token} {fuel : Nat} {around : Around}

theorem node_scalar {style : Style} {text : String} (around : Around) (fuel : Nat)
    (h : s.tokens = ⟨.scalar style text, m, m'⟩ :: ts) :
    node around (fuel + 1) s = (.scalar m {} style text, { s with tokens := ts }) := by
  cases s
  cases h
  rfl

theorem node_emptyList {m₂ m₂' : Mark} (around : Around) (fuel : Nat)
    (h : s.tokens = ⟨.flowSequenceStart, m, m'⟩ :: ⟨.flowSequenceEnd, m₂, m₂'⟩ :: ts) :
    node around (fuel + 2) s = (.sequence m {} [], { s with tokens := ts }) := by
  cases s
  cases h
  rfl

theorem node_emptyRecord {m₂ m₂' : Mark} (around : Around) (fuel : Nat)
    (h : s.tokens = ⟨.flowMappingStart, m, m'⟩ :: ⟨.flowMappingEnd, m₂, m₂'⟩ :: ts) :
    node around (fuel + 2) s = (.mapping m {} [], { s with tokens := ts }) := by
  cases s
  cases h
  rfl

theorem node_blockMapping {ns : List (Node × Node)} {us : List Token} (ha : around ≠ .flow)
    (h : s.tokens = ⟨.blockMappingStart, m, m'⟩ :: ts)
    (hn : blockMembers m fuel { s with tokens := ts } = (ns, { s with tokens := us })) :
    node around (fuel + 1) s = (.mapping m {} ns, { s with tokens := us }) := by
  have hnode : node around (fuel + 1) s =
      (.mapping m {} (blockMembers m fuel { s with tokens := ts }).1,
        (blockMembers m fuel { s with tokens := ts }).2) := by
    cases s
    cases h
    cases around with
    | flow => exact absurd rfl ha
    | _ => rfl
  rw [hnode, hn]

/-- items without indentation of their own grow behind a key -/
theorem node_items {ns : List Node} {us : List Token}
    (h : s.tokens = ⟨.blockEntry, m, m'⟩ :: ts)
    (hn : looseItems fuel s = (ns, { s with tokens := us })) :
    node .blockOrItems (fuel + 1) s = (.sequence m {} ns, { s with tokens := us }) := by
  have hnode : node .blockOrItems (fuel + 1) s =
      (.sequence m {} (looseItems fuel s).1, (looseItems fuel s).2) := by
    cases s
    cases h
    rfl
  rw [hnode, hn]

theorem nodeUnless_eq {k : Token.Kind} {ends : List Token.Kind} (mark? : Option Mark)
    (h : s.tokens = ⟨k, m, m'⟩ :: ts) (hk : ends.contains k = false) :
    nodeUnless ends around mark? (fuel + 1) s = node around fuel s := by
  have hnode : nodeUnless ends around mark? (fuel + 1) s =
      (if ends.contains k = true then return .empty (mark?.getD m) else node around fuel) s := by
    cases s
    cases h
    rfl
  rw [hnode, hk]
  rfl

theorem looseItems_cons {n : Node} {ns : List Node} {us vs : List Token}
    (h : s.tokens = ⟨.blockEntry, m, m'⟩ :: ts)
    (hn : nodeUnless [.blockEntry, .key, .value, .blockEnd] .block (some m') fuel
      { s with tokens := ts } = (n, { s with tokens := us }))
    (hs : looseItems fuel { s with tokens := us } = (ns, { s with tokens := vs })) :
    looseItems (fuel + 1) s = (n :: ns, { s with tokens := vs }) := by
  have hitems : looseItems (fuel + 1) s =
      (let (n, s) := nodeUnless [.blockEntry, .key, .value, .blockEnd] .block (some m') fuel
        { s with tokens := ts }
      let (ns, s) := looseItems fuel s
      (n :: ns, s)) := by
    cases s
    cases h
    rfl
  rw [hitems, hn]
  show (let (ns, s) := looseItems fuel { s with tokens := us }
    (n :: ns, s)) = _
  rw [hs]

theorem looseItems_nil {k : Token.Kind} (fuel : Nat) (h : s.tokens = ⟨k, m, m'⟩ :: ts)
    (hk : k ≠ .blockEntry) : looseItems (fuel + 1) s = ([], s) := by
  have hitems : looseItems (fuel + 1) s =
      (if k = Token.Kind.blockEntry then do
        drop
        let item ← nodeUnless [.blockEntry, .key, .value, .blockEnd] .block (some m') fuel
        return item :: (← looseItems fuel)
      else return []) s := by
    cases s
    cases h
    rfl
  rw [hitems, if_neg hk]
  rfl

theorem blockMembers_cons {start m₁ m₁' m₂ m₂' : Mark} {style : Style} {key : String} {n : Node}
    {ns : List (Node × Node)} {us vs : List Token}
    (h : s.tokens = ⟨.key, m, m'⟩ :: ⟨.scalar style key, m₁, m₁'⟩ :: ⟨.value, m₂, m₂'⟩ :: ts)
    (hn : nodeUnless [.key, .value, .blockEnd] .blockOrItems (some m₂') (fuel + 1)
      { s with tokens := ts } = (n, { s with tokens := us }))
    (hs : blockMembers start (fuel + 2) { s with tokens := us } = (ns, { s with tokens := vs })) :
    blockMembers start (fuel + 3) s =
      ((.scalar m₁ {} style key, n) :: ns, { s with tokens := vs }) := by
  have hmembers : blockMembers start (fuel + 3) s =
      (let (n, s) := nodeUnless [.key, .value, .blockEnd] .blockOrItems (some m₂') (fuel + 1)
        { s with tokens := ts }
      let (ns, s) := blockMembers start (fuel + 2) s
      ((.scalar m₁ {} style key, n) :: ns, s)) := by
    cases s
    cases h
    rfl
  rw [hmembers, hn]
  show (let (ns, s) := blockMembers start (fuel + 2) { s with tokens := us }
    ((Node.scalar m₁ {} style key, n) :: ns, s)) = _
  rw [hs]

theorem blockMembers_nil {start : Mark} (fuel : Nat) (h : s.tokens = ⟨.blockEnd, m, m'⟩ :: ts) :
    blockMembers start (fuel + 1) s = ([], { s with tokens := ts }) := by
  cases s
  cases h
  rfl

end Growth

/-! ## documents -/

open Growth

/-- the first token of a document is none that could stand in place of it -/
theorem exists_kind (d : Document) :
    ∃ k ks, kinds d = k :: ks ∧ [Token.Kind.key, .value, .blockEnd].contains k = false ∧
      (isRow d = false → k ≠ .blockEntry) := by
  cases d with
  | list ds =>
    cases ds with
    | nil => exact ⟨_, _, by rw [kinds], by decide, by simp⟩
    | cons d ds =>
      refine ⟨.blockEntry, kinds d ++ itemKinds ds, ?_, by decide, by simp [isRow]⟩
      rw [kinds_list, itemKinds]
  | record ms =>
    cases ms with
    | nil => exact ⟨_, _, by rw [kinds], by decide, by simp⟩
    | cons m ms => exact ⟨_, _, kinds_record m ms, by decide, by simp⟩
  | _ => exact ⟨_, _, by rw [kinds], rfl, by simp⟩

/-- a row of items is over in front of these tokens -/
def Ends (more : List Token.Kind) : Prop := ∃ k ks, more = k :: ks ∧ k ≠ .blockEntry

/-- a document grows from its tokens; a row of items only where it needs no indentation -/
def GrowsBack (d : Document) : Prop :=
  ∀ ⦃around : Around⦄ ⦃fuel : Nat⦄ ⦃more : List Token.Kind⦄, around ≠ .flow →
    (isRow d = true → around = .blockOrItems ∧ Ends more) → 3 * (kinds d).length + 2 ≤ fuel →
      Grows (node around fuel) (kinds d) more (Holds d)

theorem grows_nodeUnless {d : Document} (hd : GrowsBack d) {ends : List Token.Kind}
    (he : ∀ k ks, kinds d = k :: ks → ends.contains k = false) {around : Around}
    (ha : around ≠ .flow) {more : List Token.Kind}
    (hr : isRow d = true → around = .blockOrItems ∧ Ends more) {fuel : Nat}
    (hf : 3 * (kinds d).length + 3 ≤ fuel) (mark? : Option Mark) :
    Grows (nodeUnless ends around mark? fuel) (kinds d) more (Holds d) := by
  intro s hs
  obtain ⟨k, ks, hk, -, -⟩ := exists_kind d
  obtain ⟨fuel, rfl⟩ := Nat.exists_eq_add_of_le' (Nat.le_trans (Nat.le_add_left 1 _) hf)
  have hkinds : kindsOf s.tokens = k :: (ks ++ more) := by
    rw [hs, hk]
    rfl
  obtain ⟨m, m', us, hts, -⟩ := exists_token hkinds
  rw [nodeUnless_eq mark? hts (he k ks hk)]
  exact hd ha hr (by omega) s hs

/-- items grow from their dashes on, up to a token that is no dash -/
theorem grows_items {ds : List Document} (hd : ∀ d ∈ ds, GrowsBack d)
    (hr : ∀ d ∈ ds, isRow d = false) {more : List Token.Kind} (he : Ends more) {fuel : Nat}
    (hf : 3 * (itemKinds ds).length + 1 ≤ fuel) :
    Grows (looseItems fuel) (itemKinds ds) more (HoldsItems ds) := by
  induction ds generalizing fuel with
  | nil =>
    intro s hs
    obtain ⟨k, ks, rfl, hk⟩ := he
    rw [itemKinds] at hs hf
    obtain ⟨m, m', us, hts, -⟩ := exists_token hs
    obtain ⟨fuel, rfl⟩ := Nat.exists_eq_add_of_le' hf
    exact ⟨[], s.tokens, looseItems_nil fuel hts hk, hs, .nil⟩
  | cons d ds ih =>
    intro s hs
    obtain ⟨hd, hds⟩ := List.forall_mem_cons.1 hd
    obtain ⟨hrow, hrows⟩ := List.forall_mem_cons.1 hr
    rw [itemKinds] at hs hf
    rw [List.length_cons, List.length_append] at hf
    obtain ⟨fuel, rfl⟩ := Nat.exists_eq_add_of_le' (Nat.le_trans (Nat.le_add_left 1 _) hf)
    obtain ⟨m, m', us, hts, hus⟩ := exists_token hs
    have hends : ∀ k ks, kinds d = k :: ks →
        [Token.Kind.blockEntry, .key, .value, .blockEnd].contains k = false := by
      intro k ks hk
      obtain ⟨k', ks', hk', hc, hb⟩ := exists_kind d
      rw [hk] at hk'
      cases hk'
      rw [List.contains_cons, hc, Bool.or_false]
      exact beq_false_of_ne (hb hrow)
    have hnode : Grows (nodeUnless [.blockEntry, .key, .value, .blockEnd] .block (some m') fuel)
        (kinds d) (itemKinds ds ++ more) (Holds d) := by
      refine grows_nodeUnless hd hends (by simp) (fun h => ?_) (by omega) (some m')
      rw [hrow] at h
      cases h
    have hrest : Grows (looseItems fuel) (itemKinds ds) more (HoldsItems ds) :=
      ih hds hrows (by omega)
    obtain ⟨n, vs, hn, hvs, hholds⟩ := hnode { s with tokens := us } (by
      rw [← List.append_assoc]
      exact hus)
    obtain ⟨ns, ws, hns, hws, hitems⟩ := hrest { s with tokens := vs } hvs
    exact ⟨n :: ns, ws, looseItems_cons hts hn hns, hws, .cons hholds hitems⟩

theorem ends_members (ms : List (String × Document)) (more : List Token.Kind) :
    Ends (memberKinds ms ++ .blockEnd :: more) := by
  cases ms with
  | nil => exact ⟨.blockEnd, more, by rw [memberKinds]; rfl, by simp⟩
  | cons m ms => exact ⟨.key, _, by rw [memberKinds]; rfl, by simp⟩

/-- members grow from their keys on, up to the end of their block -/
theorem grows_members {ms : List (String × Document)} (hd : ∀ m ∈ ms, GrowsBack m.2)
    (start : Mark) (more : List Token.Kind) {fuel : Nat}
    (hf : 3 * (memberKinds ms).length + 4 ≤ fuel) :
    Grows (blockMembers start fuel) (memberKinds ms ++ [.blockEnd]) more (HoldsMembers ms) := by
  induction ms generalizing fuel with
  | nil =>
    intro s hs
    rw [memberKinds] at hs hf
    obtain ⟨m, m', us, hts, hus⟩ := exists_token hs
    obtain ⟨fuel, rfl⟩ := Nat.exists_eq_add_of_le' (Nat.le_trans (Nat.le_add_left 1 _) hf)
    exact ⟨[], us, blockMembers_nil fuel hts, hus, .nil⟩
  | cons q ms ih =>
    intro s hs
    obtain ⟨hd, hds⟩ := List.forall_mem_cons.1 hd
    rw [memberKinds] at hs hf
    simp only [List.cons_append, List.append_assoc, List.nil_append] at hs
    simp only [List.length_cons, List.length_append] at hf
    obtain ⟨fuel, rfl⟩ := Nat.exists_eq_add_of_le' (Nat.le_trans (Nat.le_add_left 3 _) hf)
    obtain ⟨m, m', ts₁, hts, hts₁⟩ := exists_token hs
    obtain ⟨m₁, m₁', ts₂, rfl, hts₂⟩ := exists_token hts₁
    obtain ⟨m₂, m₂', us, rfl, hus⟩ := exists_token hts₂
    have hends : ∀ k ks, kinds q.2 = k :: ks →
        [Token.Kind.key, .value, .blockEnd].contains k = false := by
      intro k ks hk
      obtain ⟨k', ks', hk', hc, -⟩ := exists_kind q.2
      rw [hk] at hk'
      cases hk'
      exact hc
    -- the fuel is spent on the key, on its colon, and on what stands behind it
    have hnode : Grows (nodeUnless [.key, .value, .blockEnd] .blockOrItems (some m₂') (fuel + 1))
        (kinds q.2) (memberKinds ms ++ .blockEnd :: more) (Holds q.2) :=
      grows_nodeUnless hd hends (by simp) (fun _ => ⟨rfl, ends_members ms more⟩) (by omega) _
    have hrest : Grows (blockMembers start (fuel + 2)) (memberKinds ms ++ [.blockEnd]) more
        (HoldsMembers ms) := ih hds (by omega)
    obtain ⟨n, vs, hn, hvs, hholds⟩ := hnode { s with tokens := us } hus
    obtain ⟨ns, ws, hns, hws, hmembers⟩ := hrest { s with tokens := vs } (by
      rw [List.append_assoc]
      exact hvs)
    exact ⟨_, ws, blockMembers_cons hts hn hns, hws, .cons m₁ hholds hmembers⟩

theorem grows_scalar {d : Document} {style : Style} {text : String}
    (hk : kinds d = [.scalar style text])
    (hh : ∀ m, Holds d (.scalar m {} style text)) : GrowsBack d := by
  intro around fuel more _ _ hf s hs
  rw [hk] at hs
  obtain ⟨m, m', us, hts, hus⟩ := exists_token hs
  obtain ⟨fuel, rfl⟩ := Nat.exists_eq_add_of_le' (Nat.le_trans (Nat.le_add_left 1 _) hf)
  exact ⟨_, us, node_scalar around fuel hts, hus, hh m⟩

theorem grows_emptyList : GrowsBack (.list []) := by
  intro around fuel more _ _ hf s hs
  rw [kinds] at hs hf
  obtain ⟨m, m', ts, hts, hts'⟩ := exists_token hs
  obtain ⟨m₁, m₁', us, rfl, hus⟩ := exists_token hts'
  obtain ⟨fuel, rfl⟩ := Nat.exists_eq_add_of_le' hf
  exact ⟨_, us, node_emptyList around _ hts, hus, .list m .nil⟩

theorem grows_emptyRecord : GrowsBack (.record []) := by
  intro around fuel more _ _ hf s hs
  rw [kinds] at hs hf
  obtain ⟨m, m', ts, hts, hts'⟩ := exists_token hs
  obtain ⟨m₁, m₁', us, rfl, hus⟩ := exists_token hts'
  obtain ⟨fuel, rfl⟩ := Nat.exists_eq_add_of_le' hf
  exact ⟨_, us, node_emptyRecord around _ hts, hus, .record m .nil⟩

theorem growsBack_of_isLine {d : Document} (h : isLine d = true) : GrowsBack d := by
  cases d with
  | text s => exact grows_scalar (by rw [kinds]) fun m => .text m s
  | number n => exact grows_scalar (by rw [kinds]) fun m => .number m n
  | flag b => exact grows_scalar (by rw [kinds]) fun m => .flag m b
  | list ds =>
    cases ds with
    | nil => exact grows_emptyList
    | cons d ds => cases h
  | record ms =>
    cases ms with
    | nil => exact grows_emptyRecord
    | cons m ms => cases h

theorem growsBack_list {d : Document} {ds : List Document} (hr : ∀ q ∈ d :: ds, isRow q = false)
    (hd : ∀ q ∈ d :: ds, GrowsBack q) : GrowsBack (.list (d :: ds)) := by
  intro around fuel more ha hrow hf s hs
  obtain ⟨rfl, he⟩ := hrow rfl
  rw [kinds_list] at hs hf
  obtain ⟨fuel, rfl⟩ := Nat.exists_eq_add_of_le' (Nat.le_trans (Nat.le_add_left 1 _) hf)
  have hgrows : Grows (looseItems fuel) (itemKinds (d :: ds)) more (HoldsItems (d :: ds)) :=
    grows_items hd hr he (by omega)
  obtain ⟨ns, us, hns, hus, hitems⟩ := hgrows s hs
  rw [itemKinds] at hs
  obtain ⟨m, m', ts, hts, -⟩ := exists_token hs
  exact ⟨_, us, node_items hts hns, hus, .list m hitems⟩

theorem growsBack_record {q : String × Document} {ms : List (String × Document)}
    (hd : ∀ m ∈ q :: ms, GrowsBack m.2) : GrowsBack (.record (q :: ms)) := by
  intro around fuel more ha _ hf s hs
  rw [kinds_record] at hs hf
  simp only [List.length_cons, List.length_append] at hf
  obtain ⟨fuel, rfl⟩ := Nat.exists_eq_add_of_le' (Nat.le_trans (Nat.le_add_left 1 _) hf)
  obtain ⟨m, m', ts, hts, hts'⟩ := exists_token hs
  have hgrows : Grows (blockMembers m fuel) (memberKinds (q :: ms) ++ [.blockEnd]) more
      (HoldsMembers (q :: ms)) := grows_members hd m more (by omega)
  obtain ⟨ns, us, hns, hus, hmembers⟩ := hgrows { s with tokens := ts } hts'
  exact ⟨_, us, node_blockMapping ha hts hns, hus, .record m hmembers⟩

theorem InLines.growsBack {d : Document} (h : InLines d) : GrowsBack d :=
  h.induct (fun _ _ hd => growsBack_of_isLine hd) (fun _ _ _ hr ih => growsBack_list hr ih)
    fun _ _ _ ih => growsBack_record ih

/-! ## contents -/

theorem supplyHandle_eq (handle : String) (bytes : Bytes) (s : Supply) :
    ∃ hs, supplyHandle handle bytes s = ((), { s with handles := hs }) := by
  by_cases h : (s.handles.lookup handle).isSome = true
  · exact ⟨s.handles, congrArg (Prod.mk ()) (if_pos h)⟩
  · exact ⟨_, congrArg (Prod.mk ()) (if_neg h)⟩

theorem forM_supplyHandle (handles : List (String × Bytes)) (s : Supply) :
    ∃ hs, (handles.forM fun (handle, bytes) => supplyHandle handle bytes) s =
      ((), { s with handles := hs }) := by
  induction handles generalizing s with
  | nil => exact ⟨s.handles, rfl⟩
  | cons h handles ih =>
    obtain ⟨hs, hh⟩ := supplyHandle_eq h.1 h.2 s
    obtain ⟨hs', hr⟩ := ih { s with handles := hs }
    refine ⟨hs', ?_⟩
    show (handles.forM fun (handle, bytes) => supplyHandle handle bytes)
      (supplyHandle h.1 h.2 s).2 = _
    rw [hh, hr]

theorem document?_eq {k : Token.Kind} (hk : isOutside k = false) {s : Supply} {m m' : Mark}
    {ts : List Token} (hs : s.tokens = ⟨k, m, m'⟩ :: ts) (fuel : Nat) :
    ∃ handles, document? (fuel + 1) s =
      ((some (node .block (fuel + 1) { s with handles }).1),
        (node .block (fuel + 1) { s with handles }).2) := by
  obtain ⟨handles, hd⟩ := forM_supplyHandle defaultHandles s
  have hdirectives : directives false (fuel + 1) s = ((), { s with handles }) := by
    rw [← hd]
    cases s
    cases hs
    cases k <;> first | rfl | cases hk
  refine ⟨handles, ?_⟩
  have hdocument : document? (fuel + 1) s =
      (let (_, s) := directives false (fuel + 1) s
      let (n, s) := node .block (fuel + 1) s
      (some n, s)) := by
    cases s
    cases hs
    cases k <;> first | rfl | cases hk
  rw [hdocument, hdirectives]
  rfl

/-- the contents of the tokens of a record: its tree, and nothing behind it -/
theorem InLines.ofTokens_eq {ms : List (String × Document)} (h : InLines (.record ms))
    {ts : List Token} (ht : kindsOf ts = kinds (.record ms) ++ [.streamEnd]) :
    ∃ root, Contents.ofTokens ts none = ⟨some root, none, false⟩ ∧ Holds (.record ms) root := by
  have hlength : ts.length = (kinds (.record ms)).length + 1 := by
    rw [← List.length_map (f := Token.kind)]
    show (kindsOf ts).length = _
    rw [ht, List.length_append]
    rfl
  obtain ⟨k, ks, hk, hout⟩ : ∃ k ks, kinds (.record ms) = k :: ks ∧ isOutside k = false := by
    cases ms with
    | nil => exact ⟨_, _, by rw [kinds], rfl⟩
    | cons m ms => exact ⟨_, _, kinds_record m ms, rfl⟩
  have hkinds : kindsOf ts = k :: (ks ++ [.streamEnd]) := by
    rw [ht, hk]
    rfl
  obtain ⟨m, m', us, hts, -⟩ := exists_token hkinds
  obtain ⟨handles, hdocument⟩ := document?_eq (s := { tokens := ts, fault? := none }) hout hts
    (3 * ts.length + 2)
  have hgrows : Grows (node .block (3 * ts.length + 3)) (kinds (.record ms)) [.streamEnd]
      (Holds (.record ms)) := h.growsBack (by simp) (by simp [isRow]) (by omega)
  obtain ⟨root, vs, hnode, hvs, hholds⟩ := hgrows { tokens := ts, fault? := none, handles } ht
  obtain ⟨m₁, m₁', ws, rfl, hws⟩ := exists_token hvs
  obtain rfl := List.map_eq_nil_iff.1 hws
  refine ⟨root, ?_, hholds⟩
  rw [hnode] at hdocument
  have hrun : (document? (3 * (ts.length + 1))).run { tokens := ts, fault? := none } =
      (some root, ⟨[⟨.streamEnd, m₁, m₁'⟩], none, handles, []⟩) := hdocument
  unfold Contents.ofTokens
  rw [hrun]
  rfl

end MachineSpec.Yaml
