import MachineSpec.Yaml.BlockScalar
import MachineSpec.Yaml.Tag

/-!
# YAML tokens

A text as a row of tokens.  Indentation shows as tokens too: a block collection opens where a line
starts further to the right, and closes where one starts left of it.

Whether a word is a key is known only when the colon behind it is met.  So tokens from a possible
key on are held back until it is decided; a fault that comes first hides them.

* `Token`               a piece of a text
* `Frontier`            how far a text has been read
* `Frontier.step`       the tokens that the next character leads to
* `Frontier.tokens`     the tokens of a text, and the fault behind them if there is one
-/

namespace MachineSpec.Yaml

inductive Style where
  | plain
  | single
  | double
  | literal
  | folded
  deriving DecidableEq, Repr

namespace Token

inductive Kind where
  | streamEnd
  | directive (d : Directive)
  | documentStart
  | documentEnd
  | blockSequenceStart
  | blockMappingStart
  | blockEnd
  | flowSequenceStart
  | flowSequenceEnd
  | flowMappingStart
  | flowMappingEnd
  | blockEntry
  | flowEntry
  | key
  | value
  | alias (name : String)
  | anchor (name : String)
  | tag (tag : Tag)
  | scalar (style : Style) (text : String)
  deriving DecidableEq, Repr

end Token

/-- a piece of a text, where it starts, and where it stops -/
structure Token where
  kind : Token.Kind
  start : Mark
  stop : Mark
  deriving DecidableEq, Repr

/-- a place where a key may have started: the number of its first token, and whether it has to be
one -/
structure KeyPlace where
  number : Nat
  required : Bool
  mark : Mark
  deriving DecidableEq, Repr

/-- how far a text has been read.  The margin is the column right of the innermost block collection,
and `outer` are the margins around it; `keys` are the places of possible keys, one for each open
bracket and one for the block around them, innermost first. -/
structure Frontier where
  cursor : Cursor
  margin : Nat := 0
  outer : List Nat := []
  key? : Option KeyPlace := none
  outerKeys : List (Option KeyPlace) := []
  keyAllowed : Bool := true
  held : List Token := []
  released : Nat := 0

namespace Frontier

def ofCharacters (cs : Characters) : Frontier := { cursor := .ofCharacters cs }

def inFlow (s : Frontier) : Bool := !s.outerKeys.isEmpty

def mark (s : Frontier) : Mark := s.cursor.mark

def fault (s : Frontier) (cause : Cause) : Fault := .form cause s.mark none

def nextNumber (s : Frontier) : Nat := s.released + s.held.length

def push (s : Frontier) (kind : Token.Kind) (start stop : Mark) : Frontier :=
  { s with held := s.held ++ [⟨kind, start, stop⟩] }

/-- the frontier with a token more that stands at the number of another -/
def insert (s : Frontier) (number : Nat) (kind : Token.Kind) (mark : Mark) : Frontier :=
  { s with held := s.held.insertIdx (number - s.released) ⟨kind, mark, mark⟩ }

def pushTo (s : Frontier) (kind : Token.Kind) (c : Cursor) : Frontier :=
  { s.push kind s.mark c.mark with cursor := c }

/-- the frontier behind a sign of `n` characters -/
def pushSigns (s : Frontier) (kind : Token.Kind) (n : Nat) : Frontier :=
  s.pushTo kind (s.cursor.advance n)

/-! ## possible keys -/

def missingColon (s : Frontier) (k : KeyPlace) : Fault :=
  s.cursor.fault .expectedColon .simpleKey k.mark

/-- a place is a key's no more when it is on another line or too far away -/
def isStale (s : Frontier) (k : KeyPlace) : Bool :=
  k.mark.line < s.mark.line || k.mark.index + 1024 < s.mark.index

/-- gives up a place that is too far away, unless a key has to start there -/
def settle (s : Frontier) (k? : Option KeyPlace) : Except Fault (Option KeyPlace) :=
  match k? with
  | none => .ok none
  | some k =>
    if s.isStale k then if k.required then .error (s.missingColon k) else .ok none
    else .ok (some k)

/-- gives up all places that are too far away, the outermost first -/
def settleKeys (s : Frontier) : Except Fault Frontier := do
  let outer ← s.outerKeys.reverse.mapM s.settle
  let key? ← s.settle s.key?
  return { s with key?, outerKeys := outer.reverse }

/-- gives up the innermost place, unless a key has to start there -/
def dropKey (s : Frontier) : Except Fault Frontier :=
  match s.key? with
  | some k => if k.required then .error (s.missingColon k) else .ok { s with key? := none }
  | none => .ok s

/-- a key may start here -/
def noteKey (s : Frontier) : Except Fault Frontier :=
  if s.keyAllowed then do
    let required := !s.inFlow && s.margin = s.mark.column + 1
    let t ← s.dropKey
    return { t with key? := some ⟨s.nextNumber, required, s.mark⟩ }
  else .ok s

/-! ## indentation -/

/-- opens a block collection here if it is further to the right than the one around it -/
def indent (s : Frontier) (kind : Token.Kind) : Frontier :=
  if s.inFlow || s.mark.column + 1 ≤ s.margin then s
  else { s.push kind s.mark s.mark with margin := s.mark.column + 1, outer := s.margin :: s.outer }

/-- opens a block mapping at a possible key if it is further to the right than the block around -/
def indentAt (s : Frontier) (k : KeyPlace) : Frontier :=
  if s.inFlow || k.mark.column + 1 ≤ s.margin then s
  else
    { s.insert k.number .blockMappingStart k.mark with
      margin := k.mark.column + 1, outer := s.margin :: s.outer }

/-- closes the block collections whose margin is right of `margin` -/
def dedentFrom (s : Frontier) (margin : Nat) : List Nat → Frontier
  | [] => s
  | m :: ms =>
    if s.margin ≤ margin then s
    else dedentFrom { s.push .blockEnd s.mark s.mark with margin := m, outer := ms } margin ms

/-- closes the block collections whose margin is right of `margin`; brackets keep them open -/
def dedent (s : Frontier) (margin : Nat) : Frontier :=
  if s.inFlow then s else s.dedentFrom margin s.outer

/-! ## tokens -/

def stepEnd (s : Frontier) : Except Fault Frontier := do
  let m := s.mark
  let m := if m.column = 0 then m else ⟨m.index, m.line + 1, 0⟩
  let s := { s with cursor := { s.cursor with mark := m } }
  let s ← (s.dedent 0).dropKey
  return { s with keyAllowed := false }.push .streamEnd m m

def stepDirective (s : Frontier) : Except Fault Frontier := do
  let s ← (s.dedent 0).dropKey
  let (d, c) ← Directive.scan s.cursor
  return { s with keyAllowed := false }.pushTo (.directive d) c

def stepDocumentLine (s : Frontier) (kind : Token.Kind) : Except Fault Frontier := do
  let s ← (s.dedent 0).dropKey
  return { s with keyAllowed := false }.pushSigns kind 3

def openBracket (s : Frontier) (kind : Token.Kind) : Except Fault Frontier := do
  let s ← s.noteKey
  return { s with key? := none, outerKeys := s.key? :: s.outerKeys, keyAllowed := true }
    |>.pushSigns kind 1

def closeBracket (s : Frontier) (kind : Token.Kind) : Except Fault Frontier := do
  let s ← s.dropKey
  let s := match s.outerKeys with
    | [] => s
    | k :: ks => { s with key? := k, outerKeys := ks }
  return { s with keyAllowed := false }.pushSigns kind 1

def stepComma (s : Frontier) : Except Fault Frontier := do
  let s ← s.dropKey
  return { s with keyAllowed := true }.pushSigns .flowEntry 1

def stepDash (s : Frontier) : Except Fault Frontier := do
  if !s.inFlow && !s.keyAllowed then throw (s.fault .blockEntryNotAllowed)
  let s ← (s.indent .blockSequenceStart).dropKey
  return { s with keyAllowed := true }.pushSigns .blockEntry 1

def stepQuestionMark (s : Frontier) : Except Fault Frontier := do
  if !s.inFlow && !s.keyAllowed then throw (s.fault .keyNotAllowed)
  let s ← (s.indent .blockMappingStart).dropKey
  return { s with keyAllowed := !s.inFlow }.pushSigns .key 1

/-- the colon of a value: if a key may have started, it did -/
def stepColon (s : Frontier) : Except Fault Frontier :=
  match s.key? with
  | some k =>
    let s := (s.insert k.number .key k.mark).indentAt k
    return { s with key? := none, keyAllowed := false }.pushSigns .value 1
  | none => do
    if !s.inFlow && !s.keyAllowed then throw (s.fault .valueNotAllowed)
    let s := s.indent .blockMappingStart
    return { s with keyAllowed := !s.inFlow }.pushSigns .value 1

/-- a token in front of which a key may start -/
def stepNode (s : Frontier) (scan : Frontier → Except Fault (Token.Kind × Cursor)) :
    Except Fault Frontier := do
  let s ← s.noteKey
  let (kind, c) ← scan s
  return { s with keyAllowed := false }.pushTo kind c

def readNamed (setting : Setting) (make : String → Token.Kind) (s : Frontier) :
    Except Fault (Token.Kind × Cursor) := do
  let (name, c) ← scanName setting s.cursor
  return (make name, c)

def readTag (s : Frontier) : Except Fault (Token.Kind × Cursor) := do
  let (tag, c) ← Tag.scan s.inFlow s.cursor
  return (.tag tag, c)

def readQuoted (style : Style) (quote : Char) (s : Frontier) :
    Except Fault (Token.Kind × Cursor) := do
  let (text, c) ← Quoted.scan quote s.cursor
  return (.scalar style (String.ofList text), c)

/-- a scalar without quotes; a key may start on the line behind it -/
def stepPlain (s : Frontier) : Except Fault Frontier := do
  let s ← s.noteKey
  let r ← Plain.scan s.inFlow s.margin s.cursor
  return { s with keyAllowed := r.broken }
    |>.pushTo (.scalar .plain (String.ofList r.text)) r.rest

def stepBlock (s : Frontier) (style : Style) : Except Fault Frontier := do
  let s ← s.dropKey
  let (text, c) ← BlockScalar.scan (style = .literal) s.margin s.cursor
  return { s with keyAllowed := true }.pushTo (.scalar style (String.ofList text)) c

/-- passes over blanks, comments and line breaks; a tab may not stand where a key may -/
def skipSpace : Nat → Frontier → Except Fault Frontier
  | 0, s => .ok s
  | fuel + 1, s => do
    s.cursor.need 1
    let c := if s.mark.column = 0 && s.cursor.rest.head? = some '\uFEFF' then s.cursor.skip
      else s.cursor
    c.need 1
    let c ← c.skipWhile fun x => x = ' ' || (s.inFlow || !s.keyAllowed) && x = '\t'
    let c ← c.skipComment
    if c.rest.head?.any isBreak then
      c.need 2
      skipSpace fuel { s with cursor := c.skipBreak, keyAllowed := s.keyAllowed || !s.inFlow }
    else return { s with cursor := c }

def stepAt (s : Frontier) (x : Char) (r : List Char) : Except Fault Frontier :=
  if x = '[' then s.openBracket .flowSequenceStart
  else if x = '\x7b' then s.openBracket .flowMappingStart
  else if x = ']' then s.closeBracket .flowSequenceEnd
  else if x = '\x7d' then s.closeBracket .flowMappingEnd
  else if x = ',' then s.stepComma
  else if x = '-' && startsBlank r then s.stepDash
  else if x = '?' && (s.inFlow || startsBlank r) then s.stepQuestionMark
  else if x = ':' && (s.inFlow || startsBlank r) then s.stepColon
  else if x = '*' then s.stepNode (readNamed .alias .alias)
  else if x = '&' then s.stepNode (readNamed .anchor .anchor)
  else if x = '!' then s.stepNode readTag
  else if x = '|' && !s.inFlow then s.stepBlock .literal
  else if x = '>' && !s.inFlow then s.stepBlock .folded
  else if x = '\'' then s.stepNode (readQuoted .single '\'')
  else if x = '"' then s.stepNode (readQuoted .double '"')
  else if x = '-' || !s.inFlow && openIndicators.contains x then s.stepPlain
  else if isBlank x || isBreak x || indicators.contains x || openIndicators.contains x then
    .error (s.cursor.fault .noToken .nextToken s.mark)
  else s.stepPlain

/-- the tokens that the next character leads to -/
def step (s : Frontier) : Except Fault Frontier := do
  let s ← skipSpace (s.cursor.rest.length + 1) s
  let s ← s.settleKeys
  let s := s.dedent (s.mark.column + 1)
  s.cursor.need 4
  match s.cursor.rest with
  | [] => s.stepEnd
  | x :: r =>
    if s.mark.column = 0 && x = '%' then s.stepDirective
    else if s.cursor.isDocumentIndicator then
      s.stepDocumentLine (if x = '-' then .documentStart else .documentEnd)
    else s.stepAt x r

/-! ## the tokens of a text -/

/-- the number of the first token that is held back for a possible key -/
def firstHeld (s : Frontier) : Nat :=
  (s.key? :: s.outerKeys).foldl (fun n k? => match k? with
    | some k => min n k.number
    | none => n) s.nextNumber

/-- the tokens that are held back for no key, and the frontier without them -/
def release (s : Frontier) : List Token × Frontier :=
  let n := s.firstHeld - s.released
  (s.held.take n, { s with held := s.held.drop n, released := s.released + n })

def isAtEnd (s : Frontier) : Bool := s.held.getLast?.any fun t => t.kind = .streamEnd

/-- the tokens from here on, and the fault behind them if there is one -/
def tokensFrom : Nat → Frontier → List Token × Option Fault
  | 0, s => (s.held, none)
  | fuel + 1, s =>
    match do (← s.step).settleKeys with
    | .error f => ([], some f)
    | .ok s =>
      if s.isAtEnd then (s.held, none)
      else
        let (ts, s) := s.release
        let (more, fault?) := tokensFrom fuel s
        (ts ++ more, fault?)

/-- the tokens of a text, and the fault behind them if there is one -/
def tokens (cs : Characters) : List Token × Option Fault :=
  let s := ofCharacters cs
  match s.cursor.need 1 with
  | .error f => ([], some f)
  | .ok () => tokensFrom (cs.list.length + 2) s

end Frontier

end MachineSpec.Yaml
