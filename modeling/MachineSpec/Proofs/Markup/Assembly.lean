import MachineSpec.Markup.Assembly
import MachineSpec.Proofs.Markup.Surface
import MachineSpec.Proofs.Outcome
import MachineSpec.Proofs.Text.Coding
import Mathlib.Data.List.Basic

/-!
# Assembling a tree

What holds while a text is read with two rows of open elements.  The names in the reader are those of
the elements in the assembler, so an end tag that is handed out always finds its element; and the
edges of the tokens that have been read are the edges of the open elements, outermost first, so no
tag is lost, none is taken twice, and each element stands in the one that was open around it.

One token is looked at at a time: what it comes to (`comes_turn`) and which edges it adds
(`edges_take`).  Runs follow by induction on the tokens that have been read (`standing_of_reaches`).

* `Element.filterMap_edges`   the tags of an element are the starts among its edges
* `Progress.edges_take`       one token adds its own edges
* `Progress.take_eq`          one row does what two do that agree
* `Assembly.comes_turn`       all that one token more can come to
* `Assembly.run_eq_readFrom`  two rows that agree are read on like one
* `Assembly.standing_of_reaches`   what holds wherever reading comes
* `AssemblyLaws`, `assemblyLaws`   all of it, for every text
-/

namespace MachineSpec.Markup

/-! ## trees -/

namespace Element

/-- what holds of an element if it holds of its children holds of every element -/
theorem induction {P : Element → Prop}
    (h : ∀ n as t es, (∀ e ∈ es, P e) → P (.mk n as t es)) (e : Element) : P e :=
  @Element.rec P (fun es => ∀ e ∈ es, P e) h (fun _ hm => absurd hm List.not_mem_nil)
    (fun _ _ he hes => List.forall_mem_cons.2 ⟨he, hes⟩) e

theorem headsWithin_eq (es : List Element) : headsWithin es = es.flatMap heads := by
  induction es with
  | nil => rfl
  | cons e es ih => rw [headsWithin, ih, List.flatMap_cons]

theorem edgesWithin_eq (es : List Element) : edgesWithin es = es.flatMap edges := by
  induction es with
  | nil => rfl
  | cons e es ih => rw [edgesWithin, ih, List.flatMap_cons]

theorem name_addText (e : Element) (s : String) : (e.addText s).name = e.name := by
  cases e
  rfl

theorem name_addChild (e child : Element) : (e.addChild child).name = e.name := by
  cases e
  rfl

theorem openEdges_addText (e : Element) (s : String) : (e.addText s).openEdges = e.openEdges := by
  cases e
  rfl

theorem edges_eq (e : Element) : e.edges = e.openEdges ++ [.stop e.name] := by
  cases e
  rw [edges, openEdges, List.cons_append]
  rfl

theorem openEdges_addChild (e child : Element) :
    (e.addChild child).openEdges = e.openEdges ++ child.edges := by
  cases e
  rw [addChild, openEdges, openEdges, edgesWithin_eq, edgesWithin_eq, List.flatMap_append,
    List.flatMap_singleton, List.cons_append]

/-- an element that has just been started by a tag -/
theorem head_of_tag {tag : List Char} {e : Element} (h : ofTag tag = .ok e) :
    Head.ofTag tag = .ok ⟨e.name, e.attributes⟩ ∧ e.openEdges = [.start ⟨e.name, e.attributes⟩] ∧
      e.name = String.ofList (tagName tag) := by
  obtain ⟨as, ha, he⟩ := exists_of_bind h
  refine ⟨bind_ok h rfl, ?_⟩
  cases he
  exact ⟨rfl, rfl⟩

theorem filterMap_stop (name : String) : [Edge.stop name].filterMap Edge.head? = [] := rfl

/-- the starts among the edges of an element are its tags -/
theorem filterMap_edges (e : Element) : e.edges.filterMap Edge.head? = e.heads := by
  induction e using induction with
  | h n as t es ih =>
    have hstart : (Edge.start ⟨n, as⟩).head? = some ⟨n, as⟩ := rfl
    rw [edges, heads, edgesWithin_eq, headsWithin_eq, List.filterMap_cons_some hstart,
      List.filterMap_append, List.filterMap_flatMap, filterMap_stop, List.append_nil,
      List.flatMap_congr ih]

theorem filterMap_openEdges (e : Element) : e.openEdges.filterMap Edge.head? = e.heads := by
  have h := filterMap_edges e
  rwa [edges_eq, List.filterMap_append, filterMap_stop, List.append_nil] at h

/-- in an element that is complete, every element that starts ends -/
theorem countP_edges (e : Element) :
    e.edges.countP Edge.isStart = e.edges.countP Edge.isStop := by
  induction e using induction with
  | h n as t es ih =>
    have hes : (edgesWithin es).countP Edge.isStart = (edgesWithin es).countP Edge.isStop := by
      rw [edgesWithin_eq, List.countP_flatMap, List.countP_flatMap]
      exact congrArg List.sum (List.map_congr_left ih)
    simp [edges, List.countP_cons, List.countP_append, Edge.isStart, Edge.isStop, hes]

/-- a tree that is still open has one start more than ends for every open element -/
theorem countP_openEdges (e : Element) :
    e.openEdges.countP Edge.isStart = e.openEdges.countP Edge.isStop + 1 := by
  have h := countP_edges e
  simp only [edges_eq, List.countP_append, List.countP_singleton, Edge.isStart, Edge.isStop] at h
  simpa using h

theorem complete_edges (e : Element) : Edge.Complete e.edges := by
  refine ⟨?_, countP_edges e⟩
  cases e
  exact List.cons_ne_nil _ _

theorem length_unmarked_le (cs : List Char) : (unmarked cs).length ≤ cs.length := by
  cases cs with
  | nil => exact Nat.le_refl 0
  | cons c cs =>
    show (if c = byteOrderMark then cs else c :: cs).length ≤ (c :: cs).length
    split
    · exact Nat.le_succ _
    · exact Nat.le_refl _

end Element

/-! ## tokens -/

namespace Token

/-- only at the end of a text it is too early for a token -/
theorem eq_nil_of_next_ended {place : List Char} (h : next place = .error .ended) :
    place = [] := by
  unfold next at h
  split at h
  · rfl
  · split at h <;> cases h
  · cases h

theorem allEdges_cons_iff {t : Token} {ts : List Token} {es : List Edge} :
    allEdges (t :: ts) = .ok es ↔
      ∃ x y, t.edges = .ok x ∧ allEdges ts = .ok y ∧ es = x ++ y := by
  constructor
  · intro h
    obtain ⟨x, hx, h⟩ := exists_of_bind h
    obtain ⟨y, hy, h⟩ := exists_of_bind h
    cases h
    exact ⟨x, y, hx, hy, rfl⟩
  · rintro ⟨x, y, hx, hy, rfl⟩
    rw [allEdges, hx, hy]
    rfl

theorem allEdges_append_iff {a b : List Token} {es : List Edge} :
    allEdges (a ++ b) = .ok es ↔
      ∃ x y, allEdges a = .ok x ∧ allEdges b = .ok y ∧ es = x ++ y := by
  induction a generalizing es with
  | nil =>
    constructor
    · intro h
      exact ⟨[], es, rfl, h, rfl⟩
    · rintro ⟨x, y, hx, hy, rfl⟩
      cases hx
      exact hy
  | cons t a ih =>
    rw [List.cons_append, allEdges_cons_iff]
    constructor
    · rintro ⟨x, yz, hx, hyz, rfl⟩
      obtain ⟨y, z, hy, hz, rfl⟩ := ih.1 hyz
      exact ⟨x ++ y, z, allEdges_cons_iff.2 ⟨x, y, hx, hy, rfl⟩, hz, (List.append_assoc ..).symm⟩
    · rintro ⟨xy, z, hxy, hz, rfl⟩
      obtain ⟨x, y, hx, hy, rfl⟩ := allEdges_cons_iff.1 hxy
      exact ⟨x, y ++ z, hx, ih.2 ⟨y, z, hy, hz, rfl⟩, List.append_assoc ..⟩

theorem allEdges_append_singleton_iff {ts : List Token} {t : Token} {es : List Edge} :
    allEdges (ts ++ [t]) = .ok es ↔
      ∃ x y, allEdges ts = .ok x ∧ t.edges = .ok y ∧ es = x ++ y := by
  have hone {y : List Edge} : allEdges [t] = .ok y ↔ t.edges = .ok y := by
    rw [allEdges_cons_iff]
    constructor
    · rintro ⟨x, _, hx, hy, rfl⟩
      cases hy
      rwa [List.append_nil]
    · intro h
      exact ⟨y, [], h, rfl, (List.append_nil y).symm⟩
  simp only [allEdges_append_iff, hone]

theorem heads_cons_of_tag {t : Token} {ts : List Token} {tag : List Char} {head : Head}
    {heads' : List Head} (ht : t.tag? = some tag) (hhead : Head.ofTag tag = .ok head)
    (hts : heads ts = .ok heads') : heads (t :: ts) = .ok (head :: heads') := by
  unfold heads at hts ⊢
  rw [List.filterMap_cons_some ht, List.mapM_cons, hhead, hts]
  rfl

theorem heads_cons_of_none {t : Token} (ts : List Token) (ht : t.tag? = none) :
    heads (t :: ts) = heads ts := by
  unfold heads
  rw [List.filterMap_cons_none ht]

/-- the tags among tokens are the starts among their edges -/
theorem heads_of_allEdges {ts : List Token} {es : List Edge} (h : allEdges ts = .ok es) :
    heads ts = .ok (es.filterMap Edge.head?) := by
  induction ts generalizing es with
  | nil =>
    cases h
    rfl
  | cons t ts ih =>
    obtain ⟨x, y, hx, hy, rfl⟩ := allEdges_cons_iff.1 h
    have hts := ih hy
    -- a token with a tag has one start among its edges, any other token none
    cases t with
    | opening tag | single tag =>
      obtain ⟨head, hhead, hx⟩ := exists_of_bind hx
      cases hx
      exact heads_cons_of_tag rfl hhead hts
    | text cs | literal cs | skipped | closing name =>
      cases hx
      exact (heads_cons_of_none ts rfl).trans hts

end Token

namespace Progress

theorem edges_inside_cons (e : Element) (es : List Element) :
    (inside (e :: es)).edges = (inside es).edges ++ e.openEdges := by
  show (e :: es).reverse.flatMap Element.openEdges = _
  rw [List.reverse_cons, List.flatMap_append, List.flatMap_singleton]
  rfl

theorem edges_close (e : Element) (stack : List Element) :
    (close e stack).edges = (inside stack).edges ++ e.edges := by
  cases stack with
  | nil => rfl
  | cons p ps =>
    show (inside (p.addChild e :: ps)).edges = _
    rw [edges_inside_cons, edges_inside_cons, Element.openEdges_addChild, List.append_assoc]

theorem edges_addText (s : String) (stack : List Element) :
    (inside (addText s stack)).edges = (inside stack).edges := by
  cases stack with
  | nil => rfl
  | cons p ps =>
    show (inside (p.addText s :: ps)).edges = _
    rw [edges_inside_cons, edges_inside_cons, Element.openEdges_addText]

theorem countP_inside (stack : List Element) :
    (inside stack).edges.countP Edge.isStart =
      (inside stack).edges.countP Edge.isStop + stack.length := by
  induction stack with
  | nil => rfl
  | cons e es ih =>
    have he := Element.countP_openEdges e
    rw [edges_inside_cons, List.countP_append, List.countP_append, List.length_cons, ih, he]
    omega

/-- while reading goes on, no element that stands in no other is complete -/
theorem not_complete_inside (stack : List Element) : ¬Edge.Complete (inside stack).edges := by
  rintro ⟨hne, hcount⟩
  rw [countP_inside] at hcount
  cases stack with
  | nil => exact hne rfl
  | cons e es =>
    rw [List.length_cons] at hcount
    omega

/-- one token more adds the edges that it tells of -/
theorem edges_take {stack : List Element} {t : Token} {p : Progress}
    (h : take stack t = .ok p) :
    ∃ es, t.edges = .ok es ∧ p.edges = (inside stack).edges ++ es := by
  cases t with
  | text cs =>
    obtain ⟨s, -, h⟩ := exists_of_bind h
    cases h
    exact ⟨[], rfl, by rw [edges_addText, List.append_nil]⟩
  | literal cs =>
    cases h
    exact ⟨[], rfl, by rw [edges_addText, List.append_nil]⟩
  | skipped =>
    cases h
    exact ⟨[], rfl, (List.append_nil _).symm⟩
  | opening tag =>
    obtain ⟨e, he, h⟩ := exists_of_bind h
    cases h
    obtain ⟨hhead, hopen, -⟩ := Element.head_of_tag he
    exact ⟨_, bind_ok hhead rfl, by rw [edges_inside_cons, hopen]⟩
  | single tag =>
    obtain ⟨e, he, h⟩ := exists_of_bind h
    cases h
    obtain ⟨hhead, hopen, -⟩ := Element.head_of_tag he
    refine ⟨_, bind_ok hhead rfl, ?_⟩
    rw [edges_close, Element.edges_eq, hopen]
    rfl
  | closing name =>
    unfold take at h
    cases stack with
    | nil => cases h
    | cons e es =>
      dsimp only at h
      split at h
      · next hname =>
        cases h
        refine ⟨_, rfl, ?_⟩
        rw [edges_close, edges_inside_cons, Element.edges_eq, List.append_assoc, hname]
      · cases h

end Progress

/-! ## two rows -/

/-- an end tag that is handed out names the innermost element -/
theorem Reader.eq_of_follow_closing {opened opened' : List String} {name : List Char}
    (h : follow opened (.closing name) = .ok opened') : opened = String.ofList name :: opened' := by
  cases opened with
  | nil => cases h
  | cons n ns =>
    unfold follow at h
    dsimp only at h
    split at h
    · next hn =>
      cases h
      rw [hn]
    · cases h

namespace Progress

theorem map_name_addText (s : String) (stack : List Element) :
    (addText s stack).map Element.name = stack.map Element.name := by
  cases stack with
  | nil => rfl
  | cons p ps =>
    show (p.addText s).name :: ps.map Element.name = _
    rw [Element.name_addText]
    rfl

theorem map_name_of_close {e : Element} {stack stack' : List Element}
    (h : close e stack = .inside stack') : stack'.map Element.name = stack.map Element.name := by
  cases stack with
  | nil => cases h
  | cons p ps =>
    cases h
    rw [List.map_cons, Element.name_addChild]
    rfl

/-- one row does what two do that agree -/
theorem take_eq (stack : List Element) (t : Token) :
    take stack t = match Reader.follow (stack.map Element.name) t with
      | .error cause => .error cause
      | .ok _ => (receive stack t).map settle := by
  cases t with
  | text cs =>
    show (unescape cs >>= _) = (unescape cs >>= _).map settle
    cases unescape cs <;> rfl
  | literal cs | skipped => rfl
  | opening tag | single tag =>
    show (Element.ofTag tag >>= _) = (Element.ofTag tag >>= _).map settle
    cases Element.ofTag tag <;> rfl
  | closing name =>
    cases stack with
    | nil => rfl
    | cons e es =>
      by_cases hname : e.name = String.ofList name
      · have htake : take (e :: es) (.closing name) = .ok (close e es) := if_pos hname
        have hfollow : Reader.follow ((e :: es).map Element.name) (.closing name) =
            .ok (es.map Element.name) := if_pos hname
        rw [htake, hfollow]
        rfl
      · have htake : take (e :: es) (.closing name) =
            .error (.otherEndTag e.name (String.ofList name)) := if_neg hname
        have hfollow : Reader.follow ((e :: es).map Element.name) (.closing name) =
            .error (.otherEndTag e.name (String.ofList name)) := if_neg hname
        rw [htake, hfollow]

/-- and the two rows agree again behind the token -/
theorem follow_eq {stack stack' : List Element} {t : Token} {opened : List String}
    {out : List Element × Option Element}
    (hf : Reader.follow (stack.map Element.name) t = .ok opened)
    (hr : receive stack t = .ok out) (hs : settle out = .inside stack') :
    opened = stack'.map Element.name := by
  cases t with
  | text cs =>
    obtain ⟨s, -, hr⟩ := exists_of_bind hr
    cases hf
    cases hr
    cases hs
    exact (map_name_addText s stack).symm
  | literal cs =>
    cases hf
    cases hr
    cases hs
    exact (map_name_addText _ stack).symm
  | skipped =>
    cases hf
    cases hr
    cases hs
    rfl
  | opening tag =>
    obtain ⟨e, he, hr⟩ := exists_of_bind hr
    cases hf
    cases hr
    cases hs
    rw [List.map_cons, (Element.head_of_tag he).2.2]
  | single tag =>
    obtain ⟨e, he, hr⟩ := exists_of_bind hr
    cases hf
    cases hr
    exact (map_name_of_close hs).symm
  | closing name =>
    have hnames := Reader.eq_of_follow_closing hf
    cases stack with
    | nil => cases hnames
    | cons e es =>
      cases hr
      rw [map_name_of_close hs]
      exact (List.cons.inj hnames).2.symm

/-- a token that the reader hands out and that is not taken all the same tells of no edges -/
theorem eq_nil_of_take_error {stack : List Element} {t : Token} {opened : List String}
    {cause : Cause} {es : List Edge} (hf : Reader.follow (stack.map Element.name) t = .ok opened)
    (h : take stack t = .error cause) (he : t.edges = .ok es) : es = [] := by
  cases t with
  | text cs | literal cs | skipped =>
    cases he
    rfl
  | opening tag | single tag =>
    obtain ⟨head, hhead, -⟩ := exists_of_bind he
    obtain ⟨e, htag, -⟩ := exists_of_bind hhead
    rw [take, htag] at h
    cases h
  | closing name =>
    rw [take_eq, hf] at h
    cases stack <;> cases h

end Progress

/-! ## one token more -/

namespace Assembly

/-- the names in the reader are those of the open elements -/
def Agrees (a : Assembly) : Prop := a.reader.opened = a.stack.map Element.name

/-- all that one token more can come to where the two rows agree -/
inductive Comes (a : Assembly) : Turn → Prop
  | stopped {f : Failure} (next : Token.next a.reader.place = .error f) :
      Comes a (.over (.error f))
  | refused {t : Token} {rest : List Char} {cause : Cause}
      (next : Token.next a.reader.place = .ok (t, rest))
      (take : Progress.take a.stack t = .error cause) :
      Comes a (.over (.error (.malformed cause a.reader.place)))
  | finished {t : Token} {rest : List Char} {root : Element} {reader : Reader}
      (next : Token.next a.reader.place = .ok (t, rest))
      (read : a.reader.read = .ok (t, reader))
      (take : Progress.take a.stack t = .ok (.finished root)) : Comes a (.over (.ok root))
  | grown {t : Token} {rest : List Char} {stack : List Element}
      (next : Token.next a.reader.place = .ok (t, rest))
      (take : Progress.take a.stack t = .ok (.inside stack)) :
      Comes a (.on ⟨⟨rest, stack.map Element.name⟩, stack⟩)

theorem comes_turn {a : Assembly} (h : a.Agrees) : Comes a a.turn := by
  cases hn : Token.next a.reader.place with
  | error f =>
    rw [turn_of_read_error (Reader.read_of_next_error hn)]
    exact .stopped hn
  | ok p =>
    obtain ⟨t, rest⟩ := p
    have hread := Reader.read_of_next hn
    have htake := Progress.take_eq a.stack t
    rw [h] at hread
    cases hf : Reader.follow (a.stack.map Element.name) t with
    | error cause =>
      rw [hf] at hread htake
      rw [turn_of_read_error hread]
      exact .refused hn htake
    | ok opened =>
      rw [hf] at hread htake
      rw [turn_of_read hread]
      cases hr : Progress.receive a.stack t with
      | error cause =>
        rw [hr] at htake
        exact .refused hn htake
      | ok out =>
        rw [hr] at htake
        show Comes a (.behind ⟨rest, opened⟩ (Progress.settle out))
        cases hs : Progress.settle out with
        | finished root => exact .finished hn hread (htake.trans (congrArg Except.ok hs))
        | inside stack =>
          rw [Progress.follow_eq hf hr hs]
          exact .grown hn (htake.trans (congrArg Except.ok hs))

/-- two rows that agree are read on like one -/
theorem run_eq_readFrom {a : Assembly} (h : a.Agrees) :
    a.run = Element.readFrom a.stack a.reader.place := by
  fun_induction run a with
  | case1 a result ht =>
    have hc := comes_turn h
    rw [ht] at hc
    cases hc with
    | stopped next => exact (Element.readFrom_of_next_error next).symm
    | refused next take => exact (Element.readFrom_of_take_error next take).symm
    | finished next read take => exact (Element.readFrom_of_next next take).symm
  | case2 a a' ht ih =>
    have hc := comes_turn h
    rw [ht] at hc
    cases hc with
    | grown next take => exact (ih rfl).trans (Element.readFrom_of_next next take).symm

/-! ## runs -/

section runs
variable {cs : List Char} {ts : List Token} {a a' : Assembly}

/-- what holds wherever reading comes -/
structure Standing (cs : List Char) (ts : List Token) (a : Assembly) : Prop where
  agrees : a.Agrees
  /-- the tokens that have been read tell of the edges of the open elements -/
  edges : Token.allEdges ts = .ok (Progress.inside a.stack).edges
  /-- and have taken a character each -/
  left : ts.length + a.reader.place.length ≤ cs.length
  same : a.run = (start cs).run

theorem standing_start (cs : List Char) : Standing cs [] (start cs) where
  agrees := rfl
  edges := rfl
  left := by
    rw [List.length_nil, Nat.zero_add]
    exact Element.length_unmarked_le cs
  same := rfl

/-- the edges with one token more, if the token is taken -/
theorem Standing.edges_of_take (hs : Standing cs ts a) {t : Token} {p : Progress}
    (h : Progress.take a.stack t = .ok p) : Token.allEdges (ts ++ [t]) = .ok p.edges := by
  obtain ⟨es, hes, hedges⟩ := Progress.edges_take h
  exact Token.allEdges_append_singleton_iff.2 ⟨_, es, hs.edges, hes, hedges⟩

/-- one token more keeps it -/
theorem Standing.turn {t : Token} {reader : Reader} (hs : Standing cs ts a)
    (hread : a.reader.read = .ok (t, reader)) (hon : a.turn = .on a') :
    Standing cs (ts ++ [t]) a' := by
  have hc := comes_turn hs.agrees
  rw [hon] at hc
  cases hc with
  | grown next take =>
    have hnext := (Reader.of_read hread).1
    rw [next] at hnext
    cases hnext
    have hlt := Token.length_lt_of_next next
    have hleft := hs.left
    constructor
    · rfl
    · exact hs.edges_of_take take
    · rw [List.length_append, List.length_singleton]
      dsimp only
      omega
    · rw [← run_of_turn_on hon]
      exact hs.same

theorem standing_of_reaches (h : Reaches cs ts a) : Standing cs ts a := by
  induction h with
  | start => exact standing_start cs
  | turn _ read on ih => exact ih.turn read on

/-- from wherever reading comes it goes on to an end -/
theorem exists_over (h : Reaches cs ts a) :
    ∃ ts' a', Reaches cs ts' a' ∧ a'.turn = .over a.run := by
  fun_induction run a generalizing ts with
  | case1 a result ht => exact ⟨ts, a, h, ht⟩
  | case2 a a' ht ih =>
    obtain ⟨t, hread⟩ := exists_of_turn ht
    exact ih (.turn h hread ht)

theorem run_start (cs : List Char) : (start cs).run = Element.ofText cs := run_eq_readFrom rfl

end runs

/-! ## what has been read -/

section reached
variable {cs : List Char} {ts : List Token} {t : Token} {a : Assembly} {reader : Reader}

theorem Standing.heads (hs : Standing cs ts a) :
    Token.heads ts = .ok (a.stack.reverse.flatMap Element.heads) := by
  have h := Token.heads_of_allEdges hs.edges
  unfold Progress.edges at h
  rw [List.filterMap_flatMap] at h
  simpa only [Element.filterMap_openEdges] using h

/-- an end tag that is handed out is the one of the innermost element -/
theorem Standing.exists_of_closing (hs : Standing cs ts a) {name : List Char}
    (hread : a.reader.read = .ok (.closing name, reader)) :
    ∃ e es, a.stack = e :: es ∧ e.name = String.ofList name := by
  have hnames := Reader.eq_of_follow_closing (Reader.of_read hread).2
  rw [hs.agrees] at hnames
  cases hstack : a.stack with
  | nil =>
    rw [hstack] at hnames
    cases hnames
  | cons e es =>
    rw [hstack] at hnames
    exact ⟨e, es, rfl, (List.cons.inj hnames).1⟩

/-- no element is open only before the first one -/
theorem Standing.stack_eq_nil_iff (hs : Standing cs ts a) :
    a.stack = [] ↔ ts.filterMap Token.tag? = [] := by
  have hheads : (ts.filterMap Token.tag?).mapM Head.ofTag = _ := hs.heads
  constructor
  · intro hstack
    rw [hstack] at hheads
    cases htags : ts.filterMap Token.tag? with
    | nil => rfl
    | cons tag tags =>
      rw [htags, List.mapM_cons] at hheads
      obtain ⟨head, -, hheads⟩ := exists_of_bind hheads
      obtain ⟨heads, -, hheads⟩ := exists_of_bind hheads
      cases hheads
  · intro htags
    rw [htags] at hheads
    have hnil : a.stack.reverse.flatMap Element.heads = [] := (Except.ok.inj hheads).symm
    cases hstack : a.stack with
    | nil => rfl
    | cons e es =>
      have hmem : e ∈ a.stack.reverse := by
        rw [hstack]
        exact List.mem_reverse.2 List.mem_cons_self
      have he := List.flatMap_eq_nil_iff.1 hnil e hmem
      cases e
      cases he

theorem Standing.exists_of_root (hs : Standing cs ts a) {root : Element}
    (h : a.turn = .over (.ok root)) :
    ∃ t reader, a.reader.read = .ok (t, reader) ∧
      Token.allEdges (ts ++ [t]) = .ok root.edges := by
  have hc := comes_turn hs.agrees
  rw [h] at hc
  cases hc with
  | finished next read take => exact ⟨_, _, read, hs.edges_of_take take⟩

/-- reading ends with an element just when the first one that stands in no other is complete -/
theorem Standing.exists_root_iff (hs : Standing cs ts a)
    (hread : a.reader.read = .ok (t, reader)) :
    (∃ root, a.turn = .over (.ok root)) ↔
      ∃ es, Token.allEdges (ts ++ [t]) = .ok es ∧ Edge.Complete es := by
  constructor
  · rintro ⟨root, hturn⟩
    obtain ⟨t', reader', hread', hedges⟩ := hs.exists_of_root hturn
    rw [hread] at hread'
    cases hread'
    exact ⟨root.edges, hedges, Element.complete_edges root⟩
  · rintro ⟨es, hedges, hcomplete⟩
    obtain ⟨hnext, hfollow⟩ := Reader.of_read hread
    have hc := comes_turn hs.agrees
    generalize a.turn = result at hc ⊢
    cases hc with
    | stopped next =>
      rw [hnext] at next
      cases next
    | refused next take =>
      -- a token that is refused after it has been handed out tells of no edges
      rw [hnext] at next
      cases next
      obtain ⟨x, y, hx, hy, rfl⟩ := Token.allEdges_append_singleton_iff.1 hedges
      rw [hs.agrees] at hfollow
      rw [Progress.eq_nil_of_take_error hfollow take hy, List.append_nil] at hcomplete
      rw [hs.edges] at hx
      cases hx
      exact absurd hcomplete (Progress.not_complete_inside _)
    | finished next read take => exact ⟨_, rfl⟩
    | grown next take =>
      rw [hnext] at next
      cases next
      rw [hs.edges_of_take take] at hedges
      cases hedges
      exact absurd hcomplete (Progress.not_complete_inside _)

theorem Standing.ended_iff (hs : Standing cs ts a) :
    a.turn = .over (.error .ended) ↔ a.reader.place = [] := by
  constructor
  · intro h
    have hc := comes_turn hs.agrees
    rw [h] at hc
    cases hc with
    | stopped next => exact Token.eq_nil_of_next_ended next
  · intro h
    refine turn_of_read_error (Reader.read_of_next_error ?_)
    rw [h]
    rfl

end reached

end Assembly

/-! ## the laws -/

open Assembly (Reaches)

/-- what holds while a text is read -/
structure AssemblyLaws (cs : List Char) : Prop where
  /-- two rows of open elements are read to the same end as one -/
  same : (Assembly.start cs).run = Element.ofText cs
  /-- there is an end to come to, and no other is come to -/
  ends : ∃ ts a, Reaches cs ts a ∧ a.turn = .over (Element.ofText cs)
  result {ts a r} : Reaches cs ts a → a.turn = .over r → r = Element.ofText cs
  /-- before the last read there have been no more than the text has bytes -/
  bounded {ts a} : Reaches cs ts a → ts.length + 1 ≤ (Utf8.encodeList cs).length + 1
  /-- the names in the reader are those of the open elements -/
  names {ts a} : Reaches cs ts a → a.reader.opened = a.stack.map Element.name
  /-- an end tag finds its element open -/
  closing {ts a name reader} : Reaches cs ts a → a.reader.read = .ok (.closing name, reader) →
    ∃ e es, a.stack = e :: es ∧ e.name = String.ofList name
  /-- the tags that have been read are those of the open elements and of all elements in them, one
  for one and in the order of the document -/
  tags {ts a} : Reaches cs ts a → Token.heads ts = .ok (a.stack.reverse.flatMap Element.heads)
  /-- and every element stands in the one that was open around its tag -/
  nested {ts a} : Reaches cs ts a →
    Token.allEdges ts = .ok (a.stack.reverse.flatMap Element.openEdges)
  /-- no element is open only before the first one -/
  untouched {ts a} : Reaches cs ts a → (a.stack = [] ↔ ts.filterMap Token.tag? = [])
  /-- reading ends with an element just when the first one that stands in no other is complete -/
  completed {ts a t reader} : Reaches cs ts a → a.reader.read = .ok (t, reader) →
    ((∃ root, a.turn = .over (.ok root)) ↔
      ∃ es, Token.allEdges (ts ++ [t]) = .ok es ∧ Edge.Complete es)
  /-- and the element has all tags that have been read, each in its place -/
  root {ts a e} : Reaches cs ts a → a.turn = .over (.ok e) →
    ∃ t reader, a.reader.read = .ok (t, reader) ∧ Token.heads (ts ++ [t]) = .ok e.heads ∧
      Token.allEdges (ts ++ [t]) = .ok e.edges
  /-- it ends too early just when nothing is left of the text; every other failure has a place -/
  ended {ts a} : Reaches cs ts a → (a.turn = .over (.error .ended) ↔ a.reader.place = [])

theorem assemblyLaws (cs : List Char) : AssemblyLaws cs where
  same := Assembly.run_start cs
  ends := by
    have h := Assembly.exists_over (Reaches.start : Reaches cs [] (.start cs))
    rwa [Assembly.run_start] at h
  result h hturn := by
    have hsame := (Assembly.standing_of_reaches h).same
    rw [Assembly.run_of_turn_over hturn, Assembly.run_start] at hsame
    exact hsame
  bounded {ts a} h := by
    have hleft := (Assembly.standing_of_reaches h).left
    have hbytes := Utf8.length_le_length_encodeList cs
    omega
  names h := (Assembly.standing_of_reaches h).agrees
  closing h hread := (Assembly.standing_of_reaches h).exists_of_closing hread
  tags h := (Assembly.standing_of_reaches h).heads
  nested h := (Assembly.standing_of_reaches h).edges
  untouched h := (Assembly.standing_of_reaches h).stack_eq_nil_iff
  completed h hread := (Assembly.standing_of_reaches h).exists_root_iff hread
  root h hturn := by
    obtain ⟨t, reader, hread, hedges⟩ := (Assembly.standing_of_reaches h).exists_of_root hturn
    have hheads := Token.heads_of_allEdges hedges
    rw [Element.filterMap_edges] at hheads
    exact ⟨t, reader, hread, hheads, hedges⟩
  ended h := (Assembly.standing_of_reaches h).ended_iff

end MachineSpec.Markup
