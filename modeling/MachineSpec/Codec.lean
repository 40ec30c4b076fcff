import MachineSpec.Document.Content
import MachineSpec.Document.Layout
import MachineSpec.Error
import MachineSpec.Json.Printer
import MachineSpec.Json.Reader
import MachineSpec.Markup.Content
import MachineSpec.Markup.Layout
import MachineSpec.Yaml.Printer
import MachineSpec.Yaml.Reader

/-!
# Reading and writing specifications

* `Spec.decode`         the specification in bytes at hand
* `Spec.decodeStream`   the specification in a stream
* `Spec.lexemes`        a specification as text, in the pieces in which it is written
* `Spec.encode`         a specification as bytes
* `Spec.write`          writes a specification into a sink
-/

namespace MachineSpec.Spec

/-- a value, or why bytes are no specification, with the reports made on the way -/
abbrev Decoding := ExceptT ReadError Logged

def report (e : Log.Entry) : Decoding Unit := ExceptT.lift (Logged.tell e)

/-- a value or an error that was found without reports -/
def settle {ε α : Type} (wrap : ε → ReadError) : Except ε α → Decoding α
  | .ok a => return a
  | .error e => throw (wrap e)

/-- the specification in markup at hand; bytes that are no text are not reported -/
def decodeMarkup (bytes : Bytes) : Decoding Spec :=
  match Utf8.decode? bytes with
  | none => throw (.xml .notUtf8)
  | some source => do
    report (.decoding .xml bytes.length)
    (ofMarkup source).adapt .xml

def decode (format : Format) (bytes : Bytes) : Decoding Spec :=
  match format with
  | .json => do
    report (.decoding .json bytes.length)
    ofDocument <$> settle .json (Json.read Spec.shape .slice (Glyph.ofBytes bytes))
  | .yaml => do
    report (.decoding .yaml bytes.length)
    ofDocument <$> settle .yaml (Yaml.read Spec.shape bytes)
  | .xml => decodeMarkup bytes

/-- what a reader meets in a stream that it takes byte by byte: the bytes, and the failure in place
of their end -/
def glyphs (source : Stream.Source) : List Glyph :=
  let (bytes, failure?) := source.drain 1
  Glyph.ofBytes bytes ++ (failure?.map fun f => .lost f.text).toList

def decodeStream (format : Format) (source : Stream.Source) : Decoding Spec :=
  match format with
  | .json => do
    report (.decodingStream .json)
    ofDocument <$> settle .json (Json.read Spec.shape .stream (glyphs source))
  | .yaml => do
    report (.decodingStream .yaml)
    let bytes ← settle (fun f => .yaml (.lost f.text)) source.readAll
    ofDocument <$> settle .yaml (Yaml.read Spec.shape bytes)
  | .xml => do
    let bytes ← settle .stream source.readAll
    decodeMarkup bytes

/-- a specification as text, in the pieces in which it is written -/
def lexemes (format : Format) (s : Spec) : Logged (List String) := do
  Logged.tell (.encoding format)
  match format with
  | .json => return Json.Printer.lexemes (← s.toDocument)
  | .yaml => return [Yaml.Printer.print (← s.toDocument)]
  | .xml => return Markup.declaration :: (← s.toMarkup).lexemes

def print (format : Format) (s : Spec) : Logged String := String.join <$> s.lexemes format

def encode (format : Format) (s : Spec) : Logged Bytes := Utf8.encode <$> s.print format

/-- writes a specification into a sink: the outcome, and what the sink has taken -/
def write (format : Format) (s : Spec) (sink : Stream.Sink) :
    Logged (Except Error Unit × Stream.Sink) := do
  let pieces ← s.lexemes format
  let (outcome, sink) := (pieces.forM fun piece => Stream.writeAll (Utf8.encode piece)).run sink
  return (outcome.mapError .write, sink)

end MachineSpec.Spec
