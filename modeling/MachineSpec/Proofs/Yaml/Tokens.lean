import MachineSpec.Proofs.Text.Numerals
import MachineSpec.Proofs.Yaml.Collections
import MachineSpec.Yaml.Printer

/-!
# Tokens of documents

The tokens of a document that is written with every item and every member on lines of its own.  The
keys have to be words, and no item may be a list that has items itself: its dashes would stand
behind the dash around them.

* `InLines`              the documents in question
* `Tokens.kinds`         the tokens of a document
* `InLines.behind`       the tokens of a member, from its colon on
* `InLines.next`         the tokens of an item, from behind its dash on
* `InLines.tokens_eq`    the tokens of a text that holds a record
-/

namespace MachineSpec.Yaml

open Quoting Printer

def isRow : Document → Bool
  | .list (_ :: _) => true
  | _ => false

/-- documents that are written with every item and every member on lines of its own -/
inductive InLines : Document → Prop
  | text (s : String) : InLines (.text s)
  | number (n : UInt32) : InLines (.number n)
  | flag (b : Bool) : InLines (.flag b)
  | list {ds : List Document} (flat : ∀ d ∈ ds, isRow d = false) (items : ∀ d ∈ ds, InLines d) :
      InLines (.list ds)
  | record {ms : List (String × Document)} (keys : ∀ m ∈ ms, Place.IsKey m.1.toList)
      (members : ∀ m ∈ ms, InLines m.2) : InLines (.record ms)

namespace Tokens

mutual

/-- the tokens of a document -/
def kinds : Document → List Token.Kind
  | .text s => [.scalar (styleOf s.toList) s]
  | .number n => [.scalar .plain (toString n.toNat)]
  | .flag b => [.scalar .plain (toString b)]
  | .list [] => [.flowSequenceStart, .flowSequenceEnd]
  | .list ds => itemKinds ds
  | .record [] => [.flowMappingStart, .flowMappingEnd]
  | .record ms => .blockMappingStart :: (memberKinds ms ++ [.blockEnd])

def itemKinds : List Document → List Token.Kind
  | [] => []
  | d :: ds => .blockEntry :: (kinds d ++ itemKinds ds)

def memberKinds : List (String × Document) → List Token.Kind
  | [] => []
  | (key, d) :: ms => .key :: .scalar .plain key :: .value :: (kinds d ++ memberKinds ms)

end

end Tokens

open Tokens

/-! ## pieces of lines -/

theorem stack_cons (indent : Nat) (p q : List Char) (ps : List (List Char)) :
    stack indent (p :: q :: ps) = p ++ (pad indent ++ stack indent (q :: ps)) := by
  unfold stack
  rw [List.intercalate_cons_cons, List.append_assoc]

theorem stack_one (indent : Nat) (p : List Char) : stack indent [p] = p :=
  List.intercalate_singleton

theorem exists_stack (indent : Nat) (p : List Char) (ps : List (List Char)) :
    ∃ r, stack indent (p :: ps) = p ++ r := by
  cases ps with
  | nil => exact ⟨[], by rw [stack_one, List.append_nil]⟩
  | cons q ps => exact ⟨_, stack_cons indent p q ps⟩

section Lines

variable {n indent margin column : Nat} {outer : List Nat} {rest : List Char}
  {more : List Token.Kind} {allowed : Bool} {p : Place}

/-- is a document written on one line, or with its first line where it starts -/
def isLine : Document → Bool
  | .list (_ :: _) | .record (_ :: _) => false
  | _ => true

theorem isRow_of_isLine {d : Document} (h : isLine d = true) : isRow d = false := by
  cases d with
  | list ds =>
    cases ds with
    | nil => rfl
    | cons d ds => cases h
  | _ => rfl

/-- a document of lines is one on a line, or a collection of such documents that is not empty -/
@[elab_as_elim]
theorem InLines.induct {P : Document → Prop} (line : ∀ d, InLines d → isLine d = true → P d)
    (list : ∀ d ds, (∀ q ∈ d :: ds, InLines q) → (∀ q ∈ d :: ds, isRow q = false) →
      (∀ q ∈ d :: ds, P q) → P (.list (d :: ds)))
    (record : ∀ m ms, (∀ q ∈ m :: ms, Place.IsKey q.1.toList) → (∀ q ∈ m :: ms, P q.2) →
      P (.record (m :: ms))) {d : Document} (h : InLines d) : P d := by
  induction h with
  | text s => exact line _ (.text s) rfl
  | number n => exact line _ (.number n) rfl
  | flag b => exact line _ (.flag b) rfl
  | @list ds flat items ih =>
    cases ds with
    | nil => exact line _ (.list flat items) rfl
    | cons d ds => exact list d ds items flat ih
  | @record ms keys members ih =>
    cases ms with
    | nil => exact line _ (.record keys members) rfl
    | cons m ms => exact record m ms keys ih

section Equations

variable (indent : Nat) (d : Document) (ds : List Document) (m : String × Document)
  (ms : List (String × Document))

theorem value_list : value indent (.list (d :: ds)) =
    '\n' :: (pad indent ++ stack indent (items indent (d :: ds))) := by
  rw [value]
  simp

theorem value_record : value indent (.record (m :: ms)) =
    '\n' :: (pad (indent + 2) ++ stack (indent + 2) (members (indent + 2) (m :: ms))) := by
  rw [value]
  simp

theorem item_list : item indent (.list (d :: ds)) =
    stack (indent + 2) (items (indent + 2) (d :: ds)) := by
  rw [item]
  simp

theorem item_record : item indent (.record (m :: ms)) =
    stack (indent + 2) (members (indent + 2) (m :: ms)) := by
  rw [item]
  simp

theorem kinds_list : kinds (.list (d :: ds)) = itemKinds (d :: ds) := by
  rw [kinds]
  simp

theorem kinds_record :
    kinds (.record (m :: ms)) = .blockMappingStart :: (memberKinds (m :: ms) ++ [.blockEnd]) := by
  rw [kinds]
  simp

end Equations

theorem value_of_isLine {d : Document} (h : isLine d = true) (indent : Nat) :
    value indent d = ' ' :: item indent d := by
  unfold isLine at h
  split at h
  · cases h
  · cases h
  · next hl hr =>
    cases d with
    | text s => rw [value, item]
    | number n => rw [value, item]; rfl
    | flag b => rw [value, item]; rfl
    | list ds =>
      cases ds with
      | nil => rw [value, item]
      | cons d ds => exact absurd rfl (hl d ds)
    | record ms =>
      cases ms with
      | nil => rw [value, item]
      | cons m ms => exact absurd rfl (hr m ms)

theorem isWordChar_number {k : Nat} {c : Char} (h : c ∈ (toString k).toList) :
    isWordChar c = true := by
  have hd := Text.isDigit_of_mem_toString h
  rw [isWordChar, Char.isAlphanum, hd, Bool.or_true, Bool.true_or]

theorem isWordChar_flag (b : Bool) : ∀ c ∈ (toString b).toList, isWordChar c = true :=
  List.all_eq_true.1 (by cases b <;> decide)

theorem number_ne_nil (k : Nat) : (toString k).toList ≠ [] := by
  rw [Text.toList_toString]
  exact fun h => Text.decimals_ne_nil k (List.map_eq_nil_iff.1 h)

theorem flag_ne_nil (b : Bool) : (toString b).toList ≠ [] := by
  cases b <;> decide

/-- a word right of the margin, at the end of its line -/
theorem Place.At.word {s : List Char} (hs : ∀ c ∈ s, isWordChar c = true) (hne : s ≠ [])
    (h : p.At (s ++ ['\n'] ++ (pad n ++ rest)) column allowed) (hm : margin ≤ column)
    (hn : n < margin) (hr : Starts rest) (hnext : Next margin outer rest n more) :
    p.Yields margin outer (.scalar .plain (String.ofList s) :: more) := by
  rw [List.append_assoc] at h
  exact h.plain (canBePlain_of_word hs) hne hm hn hr hnext

theorem Place.At.emptyList (h : p.At ('[' :: ']' :: '\n' :: (pad n ++ rest)) column allowed)
    (hm : margin ≤ column) (hr : Starts rest) (hnext : Next margin outer rest n more) :
    p.Yields margin outer (.flowSequenceStart :: .flowSequenceEnd :: more) := by
  refine h.brackets (fun _ _ => rfl) (fun _ _ => rfl) rfl rfl (by decide) (by decide) ?_ ?_
    (by simp) (by simp) hm hr hnext
  · intro r x hx
    cases hx
    decide
  · intro z hz r m
    simp only [List.mem_cons, List.not_mem_nil, or_false] at hz
    rcases hz with rfl | rfl <;> exact Bool.and_false _

theorem Place.At.emptyRecord
    (h : p.At ('\x7b' :: '\x7d' :: '\n' :: (pad n ++ rest)) column allowed)
    (hm : margin ≤ column) (hr : Starts rest) (hnext : Next margin outer rest n more) :
    p.Yields margin outer (.flowMappingStart :: .flowMappingEnd :: more) := by
  refine h.brackets (fun _ _ => rfl) (fun _ _ => rfl) rfl rfl (by decide) (by decide) ?_ ?_
    (by simp) (by simp) hm hr hnext
  · intro r x hx
    cases hx
    decide
  · intro z hz r m
    simp only [List.mem_cons, List.not_mem_nil, or_false] at hz
    rcases hz with rfl | rfl <;> exact Bool.and_false _

/-- a document that starts right of the margin on the line at hand -/
theorem Place.At.line {d : Document} (hd : isLine d = true)
    (h : p.At (item indent d ++ (pad n ++ rest)) column allowed) (hm : indent + 1 ≤ column)
    (hn : n ≤ indent) (hr : Starts rest) (hnext : Next (indent + 1) outer rest n more) :
    p.Yields (indent + 1) outer (kinds d ++ more) := by
  have hn' : n < indent + 1 := Nat.lt_succ_of_le hn
  cases d with
  | text s =>
    rw [item] at h
    have hy := h.write hm hn' hr hnext
    rw [String.ofList_toList] at hy
    rw [kinds]
    exact hy
  | number k =>
    rw [item] at h
    have hy := h.word (fun c hc => isWordChar_number hc) (number_ne_nil _) hm hn' hr hnext
    rw [String.ofList_toList] at hy
    rw [kinds]
    exact hy
  | flag b =>
    rw [item] at h
    have hy := h.word (isWordChar_flag b) (flag_ne_nil b) hm hn' hr hnext
    rw [String.ofList_toList] at hy
    rw [kinds]
    exact hy
  | list ds =>
    cases ds with
    | nil =>
      rw [item] at h
      rw [kinds]
      exact h.emptyList hm hr hnext
    | cons d ds => cases hd
  | record ms =>
    cases ms with
    | nil =>
      rw [item] at h
      rw [kinds]
      exact h.emptyRecord hm hr hnext
    | cons m ms => cases hd

/-! ## where documents start -/

theorem starts_of_isWordChar {c : Char} (h : isWordChar c = true) (r : List Char) :
    Starts (c :: r) := by
  intro x hx
  cases hx
  have hm := not_mem_of_isWordChar h
  refine ⟨isGap_of_isWordChar h, ?_, ?_⟩
  · rintro rfl
    exact hm (by decide)
  · rintro rfl
    exact hm (by decide)

theorem starts_word {s : List Char} (hs : ∀ c ∈ s, isWordChar c = true) (hne : s ≠ [])
    (tail : List Char) : Starts (s ++ tail) := by
  obtain ⟨c, r, rfl⟩ := List.exists_cons_of_ne_nil hne
  exact starts_of_isWordChar (hs c List.mem_cons_self) (r ++ tail)

theorem starts_bracket {c : Char} (hc : c ∈ ['[', '\x7b']) (r : List Char) : Starts (c :: r) := by
  intro x hx
  cases hx
  simp only [List.mem_cons, List.not_mem_nil, or_false] at hc
  rcases hc with rfl | rfl <;> decide

theorem starts_members (indent : Nat) {m : String × Document} (hk : Place.IsKey m.1.toList)
    (ms : List (String × Document)) (tail : List Char) :
    Starts (stack indent (members indent (m :: ms)) ++ tail) := by
  rw [members]
  obtain ⟨r, hr⟩ := exists_stack indent (m.1.toList ++ ':' :: value indent m.2) (members indent ms)
  rw [hr, List.append_assoc, List.append_assoc]
  exact starts_word hk.word hk.ne_nil _

theorem starts_items (indent : Nat) (d : Document) (ds : List Document) (tail : List Char) :
    Starts (stack indent (items indent (d :: ds)) ++ tail) := by
  rw [items]
  obtain ⟨r, hr⟩ := exists_stack indent ('-' :: ' ' :: item indent d) (items indent ds)
  rw [hr]
  intro x hx
  cases hx
  decide

theorem starts_item {d : Document} (h : InLines d) (hd : isRow d = false) (indent : Nat)
    (tail : List Char) : Starts (item indent d ++ tail) := by
  cases h with
  | text s =>
    rw [item]
    exact Place.starts_write _ _ _
  | number k =>
    rw [item, List.append_assoc]
    exact starts_word (fun c hc => isWordChar_number hc) (number_ne_nil _) _
  | flag b =>
    rw [item, List.append_assoc]
    exact starts_word (isWordChar_flag b) (flag_ne_nil b) _
  | @list ds flat items =>
    cases ds with
    | nil =>
      rw [item]
      exact starts_bracket (by decide) _
    | cons d ds => cases hd
  | @record ms keys members =>
    cases ms with
    | nil =>
      rw [item]
      exact starts_bracket (by decide) _
    | cons m ms =>
      rw [item_record]
      exact starts_members (indent + 2) (keys m List.mem_cons_self) ms tail

theorem startsBlank_value (indent : Nat) (d : Document) (tail : List Char) :
    startsBlank (value indent d ++ tail) = true := by
  by_cases hd : isLine d = true
  · rw [value_of_isLine hd]
    rfl
  · cases d with
    | list ds =>
      cases ds with
      | nil => exact absurd rfl hd
      | cons d ds =>
        rw [value_list]
        rfl
    | record ms =>
      cases ms with
      | nil => exact absurd rfl hd
      | cons m ms =>
        rw [value_record]
        rfl
    | _ => exact absurd rfl hd

/-! ## collections -/

/-- the tokens of a document behind the colon of a key -/
def BehindColon (d : Document) : Prop :=
  ∀ ⦃n indent : Nat⦄ ⦃outer : List Nat⦄ ⦃rest : List Char⦄ ⦃more : List Token.Kind⦄, n ≤ indent →
    Starts rest → Next (indent + 1) outer rest n more →
      Place.Behind (indent + 1) outer (value indent d ++ (pad n ++ rest)) (kinds d ++ more)

/-- the tokens of a document behind the dash of an item -/
def BehindDash (d : Document) : Prop :=
  ∀ ⦃n indent : Nat⦄ ⦃outer : List Nat⦄ ⦃rest : List Char⦄ ⦃more : List Token.Kind⦄, n ≤ indent →
    Starts rest → Next (indent + 1) outer rest n more →
      Next (indent + 1) outer (item indent d ++ (pad n ++ rest)) (indent + 2) (kinds d ++ more)

/-- what stands behind the colon of the first member, where the block of the members is open -/
theorem behind_members {m : String × Document} {ms : List (String × Document)}
    (hk : ∀ q ∈ m :: ms, Place.IsKey q.1.toList) (hd : ∀ q ∈ m :: ms, BehindColon q.2)
    (hn : n ≤ indent) (hr : Starts rest) (hnext : Next (indent + 1) outer rest n more) :
    ∃ tail, stack indent (members indent (m :: ms)) ++ (pad n ++ rest) =
        m.1.toList ++ ':' :: tail ∧ startsBlank tail = true ∧
      Place.Behind (indent + 1) outer tail (kinds m.2 ++ (memberKinds ms ++ more)) := by
  induction ms generalizing m with
  | nil =>
    refine ⟨value indent m.2 ++ (pad n ++ rest), ?_, startsBlank_value indent m.2 _, ?_⟩
    · rw [members, members, stack_one, List.append_assoc]
      rfl
    · exact hd m List.mem_cons_self hn hr hnext
  | cons q ms ih =>
    let text := stack indent (members indent (q :: ms)) ++ (pad n ++ rest)
    obtain ⟨tail, htext, hblank, hbehind⟩ := ih (fun x hx => hk x (List.mem_cons_of_mem _ hx))
      fun x hx => hd x (List.mem_cons_of_mem _ hx)
    have hkey := hk q (List.mem_cons_of_mem _ List.mem_cons_self)
    have hs : Starts text := starts_members indent hkey ms (pad n ++ rest)
    have hmembers : Next (indent + 1) outer text indent (memberKinds (q :: ms) ++ more) := by
      intro p hp
      have hp' : p.At (q.1.toList ++ ':' :: tail) indent true := htext ▸ hp
      have hy := hp'.key hkey hblank rfl hbehind
      rw [String.ofList_toList] at hy
      rw [memberKinds, List.cons_append, List.cons_append, List.cons_append, List.append_assoc]
      exact hy
    refine ⟨value indent m.2 ++ (pad indent ++ text), ?_, startsBlank_value indent m.2 _, ?_⟩
    · rw [members, members, stack_cons, ← members, List.append_assoc, List.append_assoc,
        List.cons_append, List.append_assoc]
    · exact hd m List.mem_cons_self (Nat.le_refl indent) hs hmembers

theorem Place.At.members {m : String × Document} {ms : List (String × Document)}
    (h : p.At (stack indent (members indent (m :: ms)) ++ (pad n ++ rest)) indent true)
    (hk : ∀ q ∈ m :: ms, Place.IsKey q.1.toList) (hd : ∀ q ∈ m :: ms, BehindColon q.2)
    (hm : margin ≤ indent) (hn : n ≤ indent) (hr : Starts rest)
    (hclose : Next (indent + 1) (margin :: outer) rest n (.blockEnd :: more)) :
    p.Yields margin outer (kinds (.record (m :: ms)) ++ more) := by
  obtain ⟨tail, htext, hblank, hbehind⟩ := behind_members hk hd hn hr hclose
  have h' : p.At (m.1.toList ++ ':' :: tail) indent true := htext ▸ h
  have hy := h'.firstKey (hk m List.mem_cons_self) hblank hm hbehind
  rw [String.ofList_toList] at hy
  rw [kinds_record, memberKinds]
  simpa using hy

/-- a list with items, from its first dash on -/
theorem next_items {d : Document} {ds : List Document} (hi : ∀ q ∈ d :: ds, InLines q)
    (hf : ∀ q ∈ d :: ds, isRow q = false) (hd : ∀ q ∈ d :: ds, BehindDash q) (hn : n ≤ indent)
    (hr : Starts rest) (hnext : Next (indent + 1) outer rest n more) :
    Next (indent + 1) outer (stack indent (items indent (d :: ds)) ++ (pad n ++ rest)) indent
      (itemKinds (d :: ds) ++ more) := by
  have hstarts := starts_item (hi d List.mem_cons_self) (hf d List.mem_cons_self) indent
  induction ds generalizing d with
  | nil =>
    intro p hp
    rw [items, items, stack_one] at hp
    have hdash := hp.dash rfl (hstarts _) (hd d List.mem_cons_self hn hr hnext)
    rw [itemKinds, itemKinds, List.append_nil]
    exact hdash
  | cons q ds ih =>
    have hq : q ∈ d :: q :: ds := List.mem_cons_of_mem _ List.mem_cons_self
    have hitems := ih (fun x hx => hi x (List.mem_cons_of_mem _ hx))
      (fun x hx => hf x (List.mem_cons_of_mem _ hx))
      (fun x hx => hd x (List.mem_cons_of_mem _ hx)) (starts_item (hi q hq) (hf q hq) indent)
    have hs := starts_items indent q ds (pad n ++ rest)
    intro p hp
    rw [items, items, stack_cons, ← items, List.append_assoc, List.append_assoc] at hp
    have hdash := hp.dash rfl (hstarts _)
      (hd d List.mem_cons_self (Nat.le_refl indent) hs hitems)
    rw [itemKinds, List.cons_append, List.append_assoc]
    exact hdash

theorem at_line {m : Mark} (hs : Starts rest) :
    Place.At ⟨⟨' ' :: rest, m, none⟩, none, false⟩ rest (m.column + 1) false :=
  Place.at_space hs rfl

theorem at_nextLine {m : Mark} (hs : Starts rest) (n : Nat) :
    Place.At ⟨⟨'\n' :: (pad n ++ rest), m, none⟩, none, false⟩ rest n true := by
  refine Place.at_newline hs (fun k hk => ?_) n
  cases hk

theorem behind_of_isLine {d : Document} (hi : InLines d) (hd : isLine d = true) :
    BehindColon d ∧ BehindDash d := by
  constructor
  · intro n indent outer rest more hn hr hnext m hm
    have hs := starts_item hi (isRow_of_isLine hd) indent (pad n ++ rest)
    rw [value_of_isLine hd, List.cons_append]
    exact (at_line hs).line hd (Nat.le_succ_of_le hm) hn hr hnext
  · intro n indent outer rest more hn hr hnext p hp
    exact hp.line hd (Nat.le_succ _) hn hr hnext

theorem behindColon_list {d : Document} {ds : List Document} (hi : ∀ q ∈ d :: ds, InLines q)
    (hf : ∀ q ∈ d :: ds, isRow q = false) (hd : ∀ q ∈ d :: ds, BehindDash q) :
    BehindColon (.list (d :: ds)) := by
  intro n indent outer rest more hn hr hnext m hm
  have hs := starts_items indent d ds (pad n ++ rest)
  have hy := next_items hi hf hd hn hr hnext _ (at_nextLine (m := m) hs indent)
  rw [value_list, kinds_list, List.cons_append, List.append_assoc]
  exact hy

/-- a record below its key, or behind a dash: it stands two columns further to the right -/
theorem behind_record {m : String × Document} {ms : List (String × Document)}
    (hk : ∀ q ∈ m :: ms, Place.IsKey q.1.toList) (hd : ∀ q ∈ m :: ms, BehindColon q.2) :
    BehindColon (.record (m :: ms)) ∧ BehindDash (.record (m :: ms)) := by
  have hclose : ∀ {n indent : Nat} {outer : List Nat} {rest : List Char} {more}, n ≤ indent →
      Next (indent + 1) outer rest n more →
        Next (indent + 3) ((indent + 1) :: outer) rest n (.blockEnd :: more) :=
    fun hn hnext => hnext.close (by omega)
  constructor
  · intro n indent outer rest more hn hr hnext p hp
    have hs := starts_members (indent + 2) (hk m List.mem_cons_self) ms (pad n ++ rest)
    have hy := (at_nextLine (m := p) hs (indent + 2)).members hk hd (Nat.le_succ _)
      (Nat.le_add_right_of_le hn) hr (hclose hn hnext)
    rw [value_record, List.cons_append, List.append_assoc]
    exact hy
  · intro n indent outer rest more hn hr hnext p hp
    rw [item_record] at hp
    exact hp.members hk hd (Nat.le_succ _) (Nat.le_add_right_of_le hn) hr (hclose hn hnext)

/-- the tokens of a document of lines, be it a member or an item -/
theorem InLines.behind {d : Document} (h : InLines d) :
    BehindColon d ∧ (isRow d = false → BehindDash d) := by
  -- no item of a list is a list with items, so only other documents stand behind a dash
  refine h.induct (fun d hi hd => ?_) (fun d ds hi hf ih => ?_) fun m ms hk ih => ?_
  · obtain ⟨hcolon, hdash⟩ := behind_of_isLine hi hd
    exact ⟨hcolon, fun _ => hdash⟩
  · refine ⟨behindColon_list hi hf fun q hq => (ih q hq).2 (hf q hq), fun hrow => ?_⟩
    cases hrow
  · obtain ⟨hcolon, hdash⟩ := behind_record hk fun q hq => (ih q hq).1
    exact ⟨hcolon, fun _ => hdash⟩

end Lines

/-! ## whole texts -/

theorem starts_nil : Starts [] := by
  intro x hx
  cases hx

theorem InLines.next_root {ms : List (String × Document)} (h : InLines (.record ms)) :
    Starts (printList (.record ms)) ∧
      Next 0 [] (printList (.record ms)) 0 (kinds (.record ms) ++ [.streamEnd]) := by
  cases h with
  | record keys hi =>
    cases ms with
    | nil =>
      refine ⟨starts_bracket (by decide) _, fun p hp => ?_⟩
      exact Place.At.emptyRecord (n := 0) hp (Nat.le_refl 0) starts_nil next_end
    | cons m ms =>
      have hs := starts_members 0 (keys m List.mem_cons_self) ms []
      have hd : ∀ q ∈ m :: ms, BehindColon q.2 := fun q hq => (hi q hq).behind.1
      rw [List.append_nil] at hs
      refine ⟨hs, fun p hp => ?_⟩
      have hp' : p.At (stack 0 (members 0 (m :: ms)) ++ (pad 0 ++ [])) 0 true := by
        rw [pad, List.replicate_zero, List.append_nil, List.append_nil]
        exact hp
      exact hp'.members keys hd (Nat.le_refl 0) (Nat.le_refl 0) starts_nil next_end_of_block

/-- the tokens of a text that holds a record -/
theorem InLines.tokens_eq {ms : List (String × Document)} (h : InLines (.record ms)) :
    ∃ ts, Frontier.tokens ⟨printList (.record ms), none⟩ = (ts, none) ∧
      Frontier.kindsOf ts = kinds (.record ms) ++ [.streamEnd] := by
  obtain ⟨hs, hnext⟩ := h.next_root
  exact hnext _ (Place.at_here (m := .start) hs rfl) [] 0 _ (Nat.lt_succ_of_lt (Nat.lt_succ_self _))

end MachineSpec.Yaml
