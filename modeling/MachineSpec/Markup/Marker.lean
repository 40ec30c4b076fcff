import MachineSpec.Markup.Inspection

/-!
# Markers

A reference in markup may carry a marker that names the selector its text is for.  The markers of a
document are told here without reading a specification from it: they are those of its references,
in the order of the start tags, up to the first element that is wrong.

* `Marker`, `Marker.report`   a marker on a reference, and how it is reported
* `Visit.marker?`             the marker of an element, if a reference is due in its place
* `Visit.markers`             the markers of a row of elements, up to the first that is wrong
* `Spec.markers`              the markers of a document
* `Spec.dueReports`           what is to be reported when bytes are read
-/

namespace MachineSpec

namespace Markup

/-- a marker on a reference of a kind -/
structure Marker where
  kind : Kind
  name : String
  deriving DecidableEq, Repr

namespace Marker

def report (m : Marker) : Log.Entry := .resolved m.kind m.name

/-- the marker names the selector that is meant without one -/
def IsPrimary (m : Marker) : Prop := m.name = m.kind.primary

instance : DecidablePred IsPrimary := fun m => inferInstanceAs (Decidable (m.name = _))

end Marker

/-- the marker that an element carries where one is looked at -/
def Demand.marker? (e : Element) : Demand → Option Marker
  | .marker kind => (e.attribute? "by").map (.mk kind)
  | _ => none

namespace Visit

def marker? (v : Visit) : Option Marker :=
  (v.role?.elim [] Role.demands).findSome? (Demand.marker? v.element)

/-- the markers of a row of elements, up to the first element that is wrong -/
def markers (vs : List Visit) : List Marker :=
  (vs.takeWhile fun v => v.error?.isNone).filterMap marker?

end Visit

end Markup

namespace Spec

open Markup

/-- the markers of a document, in the order of the start tags, up to the first element that is
wrong -/
def markers (root : Element) : List Marker := Visit.markers (visits root)

/-- the markers of the document that bytes hold, if they hold one -/
def markersIn (bytes : Bytes) : List Marker :=
  match (Utf8.decode? bytes).map Element.ofText with
  | some (.ok root) => markers root
  | _ => []

/-- what is to be reported when bytes are read: their format and number, and behind that, in markup,
the markers that name another selector than the primary one -/
def dueReports (format : Format) (bytes : Bytes) : List Log.Entry :=
  .decoding format bytes.length ::
    match format with
    | .xml => ((markersIn bytes).filter fun m => ¬m.IsPrimary).map Marker.report
    | _ => []

end Spec

end MachineSpec
