import MachineSpec.Yaml.Node

/-!
# Trees of tokens

The tree that a row of tokens stands for.  Every function looks at one token ahead.  Where the
tokens end in a fault, or do not fit together, nothing is left from there on, and everything that is
still to be read is cut.

* `Supply`              what is left of the tokens
* `Growth`              reads tokens
* `Growth.node`         a node
* `Contents`            the first document of a text, and what is behind it
* `Contents.ofTokens`   the contents of a row of tokens
-/

namespace MachineSpec.Yaml

/-- what is left to read: the tokens, the fault behind them if there is one, what the handles of
tags stand for, and the numbers of anchors by their names -/
structure Supply where
  tokens : List Token
  fault? : Option Fault
  handles : List (String × Bytes) := []
  names : List (String × Nat) := []

abbrev Growth := StateM Supply

/-- where a node stands: in a block, in a block where the items of a sequence need no indentation of
their own, or between brackets -/
inductive Around where
  | block
  | blockOrItems
  | flow
  deriving DecidableEq, Repr

namespace Growth

def peek? : Growth (Option Token) := do return (← get).tokens.head?

def drop : Growth Unit := modify fun s => { s with tokens := s.tokens.tail }

/-- nothing is left from here on -/
def breakOff {α : Type} (f : Fault) (a : α) : Growth α := do
  modify fun s => { s with tokens := [], fault? := some f }
  return a

/-! ## properties -/

/-- the number of an anchor is how many names there are already.  A name that comes again gets a new
number, which the next new name shares. -/
def number (name : String) : Growth Nat := do
  let names := (← get).names
  modify fun s => { s with names := (name, names.length) :: names.filter (·.1 ≠ name) }
  return names.length

def anchor? : Growth (Option String) := do
  match ← peek? with
  | some ⟨.anchor name, _, _⟩ => drop; return some name
  | _ => return none

def tag? : Growth (Option (Tag × Mark)) := do
  match ← peek? with
  | some ⟨.tag tag, start, _⟩ => drop; return some (tag, start)
  | _ => return none

/-- an anchor and a tag, in either order -/
def written : Growth (Option String × Option (Tag × Mark)) := do
  match ← anchor? with
  | some name => return (some name, ← tag?)
  | none =>
    match ← tag? with
    | some tag => return (← anchor?, some tag)
    | none => return (none, none)

/-- the bytes of a tag with its handle; nothing where the handle stands for nothing -/
def tagBytes? (handles : List (String × Bytes)) (tag : Tag) : Option Bytes :=
  if tag.handle = "" then some tag.bytes
  else (handles.lookup tag.handle).map (· ++ tag.bytes)

def properties (start : Mark) : Growth (Option Properties) := do
  let (name?, tag?) ← written
  let some _ ← peek? | return none
  let number? ← name?.mapM number
  match tag? with
  | none => return some ⟨number?, none⟩
  | some (tag, mark) =>
    match tagBytes? (← get).handles tag with
    | some bytes => return some ⟨number?, some bytes⟩
    | none => breakOff (.form .undefinedTagHandle mark (some (.node, start))) none

/-! ## nodes -/

def aliasNode (name : String) (mark : Mark) : Growth Node := do
  match (← get).names.lookup name with
  | some n => return .alias n
  | none => breakOff (.form .unknownAnchor mark none) .cut

/-- a node of which nothing but its properties is written; one of them has to be there -/
def absent (around : Around) (start : Mark) (p : Properties) (mark : Mark) : Growth Node :=
  if p.anchor?.isSome || p.tag?.isSome then return .scalar start p .plain ""
  else
    let setting := if around = .flow then Setting.flowNode else .blockNode
    breakOff (.form .expectedNode mark (some (setting, start))) .cut

def cutMember : Node × Node := (.cut, .cut)

mutual

def node (around : Around) : Nat → Growth Node
  | 0 => return .cut
  | fuel + 1 => do
    let some first ← peek? | return .cut
    if let .alias name := first.kind then
      drop
      return ← aliasNode name first.start
    let some p ← properties first.start | return .cut
    let some t ← peek? | return .cut
    match t.kind, around with
    | .scalar style text, _ => drop; return .scalar first.start p style text
    | .flowSequenceStart, _ =>
      drop; return .sequence first.start p (← flowItems t.start true fuel)
    | .flowMappingStart, _ =>
      drop; return .mapping first.start p (← flowMembers t.start true fuel)
    | .blockEntry, .blockOrItems => return .sequence first.start p (← looseItems fuel)
    | _, .flow => absent around first.start p t.start
    | .blockSequenceStart, _ => drop; return .sequence first.start p (← blockItems t.start fuel)
    | .blockMappingStart, _ => drop; return .mapping first.start p (← blockMembers t.start fuel)
    | _, _ => absent around first.start p t.start

/-- a node, or one that is not written where one of `ends` stands -/
def nodeUnless (ends : List Token.Kind) (around : Around) (mark? : Option Mark) :
    Nat → Growth Node
  | 0 => return .cut
  | fuel + 1 => do
    let some t ← peek? | return .cut
    if ends.contains t.kind then return .empty (mark?.getD t.start) else node around fuel

def value (ends : List Token.Kind) (around : Around) : Nat → Growth Node
  | 0 => return .cut
  | fuel + 1 => do
    let some t ← peek? | return .cut
    if t.kind = .value then
      drop
      nodeUnless ends around (if around = .flow then none else some t.stop) fuel
    else return .empty t.start

def blockItems (start : Mark) : Nat → Growth (List Node)
  | 0 => return [.cut]
  | fuel + 1 => do
    let some t ← peek? | return [.cut]
    match t.kind with
    | .blockEntry =>
      drop
      let item ← nodeUnless [.blockEntry, .blockEnd] .block (some t.stop) fuel
      return item :: (← blockItems start fuel)
    | .blockEnd => drop; return []
    | _ => breakOff (.form .expectedDash t.start (some (.blockCollection, start))) [.cut]

/-- the items of a sequence that has no indentation of its own -/
def looseItems : Nat → Growth (List Node)
  | 0 => return [.cut]
  | fuel + 1 => do
    let some t ← peek? | return [.cut]
    if t.kind = .blockEntry then
      drop
      let item ← nodeUnless [.blockEntry, .key, .value, .blockEnd] .block (some t.stop) fuel
      return item :: (← looseItems fuel)
    else return []

def blockMembers (start : Mark) : Nat → Growth (List (Node × Node))
  | 0 => return [cutMember]
  | fuel + 1 => do
    let some t ← peek? | return [cutMember]
    match t.kind with
    | .key =>
      drop
      let k ← nodeUnless [.key, .value, .blockEnd] .blockOrItems (some t.stop) fuel
      let v ← value [.key, .value, .blockEnd] .blockOrItems fuel
      return (k, v) :: (← blockMembers start fuel)
    | .blockEnd => drop; return []
    | _ => breakOff (.form .expectedKey t.start (some (.blockMapping, start))) [cutMember]

/-- the items between brackets, which stand behind commas but for the first -/
def flowItems (start : Mark) (first : Bool) : Nat → Growth (List Node)
  | 0 => return [.cut]
  | fuel + 1 => do
    let some t ← peek? | return [.cut]
    if !first && t.kind ≠ .flowSequenceEnd then
      if t.kind ≠ .flowEntry then
        return ← breakOff (.form .expectedCommaOrBracket t.start (some (.flowSequence, start)))
          [.cut]
      drop
    let some t ← peek? | return [.cut]
    match t.kind with
    | .flowSequenceEnd => drop; return []
    | .key =>
      drop
      let item := Node.mapping t.start {} (← pair fuel)
      return item :: (← flowItems start false fuel)
    | _ =>
      let item ← node .flow fuel
      return item :: (← flowItems start false fuel)

/-- the one member of a mapping that is an item between brackets; a colon right behind the question
mark is passed over with the key -/
def pair : Nat → Growth (List (Node × Node))
  | 0 => return [cutMember]
  | fuel + 1 => do
    let some t ← peek? | return [cutMember]
    let k ←
      if [Token.Kind.value, .flowEntry, .flowSequenceEnd].contains t.kind then do
        drop
        pure (Node.empty t.stop)
      else node .flow fuel
    let v ← value [.flowEntry, .flowSequenceEnd] .flow fuel
    let some _ ← peek? | return [(k, v), cutMember]
    return [(k, v)]

/-- the members between braces, which stand behind commas but for the first -/
def flowMembers (start : Mark) (first : Bool) : Nat → Growth (List (Node × Node))
  | 0 => return [cutMember]
  | fuel + 1 => do
    let some t ← peek? | return [cutMember]
    if !first && t.kind ≠ .flowMappingEnd then
      if t.kind ≠ .flowEntry then
        return ← breakOff (.form .expectedCommaOrBrace t.start (some (.flowMapping, start)))
          [cutMember]
      drop
    let some t ← peek? | return [cutMember]
    match t.kind with
    | .flowMappingEnd => drop; return []
    | .key =>
      drop
      let k ← nodeUnless [.value, .flowEntry, .flowMappingEnd] .flow none fuel
      let v ← value [.flowEntry, .flowMappingEnd] .flow fuel
      return (k, v) :: (← flowMembers start false fuel)
    | _ =>
      let k ← node .flow fuel
      let v := match ← peek? with
        | some t => Node.empty t.start
        | none => .cut
      return (k, v) :: (← flowMembers start false fuel)

end

/-! ## documents -/

/-- what handles stand for unless a directive says otherwise -/
def defaultHandles : List (String × Bytes) :=
  [("!", Utf8.encode "!"), ("!!", Utf8.encode "tag:yaml.org,2002:")]

/-- gives a handle its meaning; what it already stands for remains -/
def supplyHandle (handle : String) (bytes : Bytes) : Growth Unit :=
  modify fun s =>
    if (s.handles.lookup handle).isSome then s
    else { s with handles := s.handles ++ [(handle, bytes)] }

def directives : Bool → Nat → Growth Unit
  | _, 0 => return
  | versioned, fuel + 1 => do
    let some t ← peek? | return
    match t.kind with
    | .directive (.version major minor) =>
      if versioned then breakOff (.form .duplicateVersion t.start none) ()
      else if major ≠ 1 || minor ≠ 1 && minor ≠ 2 then
        breakOff (.form .incompatibleVersion t.start none) ()
      else drop; directives true fuel
    | .directive (.tag handle bytes) =>
      if ((← get).handles.lookup handle).isSome then
        breakOff (.form .duplicateTagHandle t.start none) ()
      else
        supplyHandle handle bytes
        drop
        directives versioned fuel
    | _ => defaultHandles.forM fun (handle, bytes) => supplyHandle handle bytes

def isOutside : Token.Kind → Bool
  | .directive _ | .documentStart | .documentEnd | .streamEnd => true
  | _ => false

def explicitDocument (fuel : Nat) : Growth Node := do
  let some t ← peek? | return .cut
  if t.kind ≠ .documentStart then
    return ← breakOff (.form .expectedDocumentStart t.start none) .cut
  drop
  let some t ← peek? | return .cut
  if isOutside t.kind then return .empty t.start else node .block fuel

def document? (fuel : Nat) : Growth (Option Node) := do
  let some t ← peek? | return some .cut
  match t.kind with
  | .streamEnd => return none
  | .directive _ | .documentStart =>
    directives false fuel
    return some (← explicitDocument fuel)
  | _ =>
    directives false fuel
    return some (← node .block fuel)

end Growth

/-- the first document of a text if there is one, the fault that it breaks off with, and whether
anything stands behind it -/
structure Contents where
  root? : Option Node
  fault? : Option Fault
  more : Bool
  deriving Repr

namespace Contents

def isMore (t : Token) : Bool := t.kind ≠ .streamEnd

def ofTokens (tokens : List Token) (fault? : Option Fault) : Contents :=
  let (root?, rest) := (Growth.document? (3 * (tokens.length + 1))).run { tokens, fault? }
  match rest.tokens with
  | [] => ⟨root?, rest.fault?, false⟩
  | ts =>
    match ts.dropWhile fun t => t.kind = .documentEnd with
    | [] => ⟨root?, none, true⟩
    | t :: _ => ⟨root?, none, isMore t⟩

def ofBytes (bytes : Bytes) : Contents :=
  let (tokens, fault?) := Frontier.tokens (Characters.ofBytes bytes)
  ofTokens tokens fault?

end Contents

end MachineSpec.Yaml
