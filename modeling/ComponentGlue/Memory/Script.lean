import ComponentGlue.Generation
import ComponentGlue.Run.Encoding
import ComponentGlue.Validation

/-!
Rules that follow a script: they warn about, reject and fail on elements of given names, and ask for
given markers. With them a registry can be tried without the standard rules.
-/

set_option autoImplicit false
set_option relaxedAutoImplicit false

namespace ComponentGlue

structure Script where
  kind : Marker
  requiresCatalog : Bool
  warnedFront : Option String
  rejectedFront : Option String
  enclosedBy : List Marker
  alsoMarked : List Marker
  faultOn : Option String
  panics : Bool

namespace Script

def decode : Decode Script := fun d => do
  return {
    kind := ← d.required "kind" Marker.decode
    requiresCatalog := ← d.optionalOr "requires_catalog" false .bool
    warnedFront := ← d.optional "warn_prefix" .str
    rejectedFront := ← d.optional "reject_prefix" .str
    enclosedBy := ← d.optionalOr "enclosed_by" [] (.list Marker.decode)
    alsoMarked := ← d.optionalOr "also_marked" [] (.list Marker.decode)
    faultOn := ← d.optional "fault_on" .str
    panics := ← d.optionalOr "panics" false .bool }

def startsWith (name : String) : Option String → Bool
  | none => false
  | some front => (Text.afterPrefix? front.toList name.toList).isSome

def interruption (s : Script) (name : String) : Option Interruption :=
  if s.faultOn = some name then
    some (if s.panics then .panic s!"scripted panic on {name}"
      else .fault (.stated s!"scripted fault on {name}"))
  else none

def check (s : Script) (subject : Subject) : Checked Unit := do
  let name := subject.element.name
  if startsWith name s.warnedFront then Checked.warning s!"warned {name}"
  if startsWith name s.rejectedFront then Checked.error s!"rejected {name}"
  Checked.each s.enclosedBy fun kind => do let _ ← subject.enclosedBy kind
  Checked.each s.alsoMarked fun kind => do let _ ← subject.alsoMarked kind

def validator (s : Script) : Validator where
  kind := s.kind
  description := "scripted"
  requiresCatalog := s.requiresCatalog
  check subject := ⟨(s.check subject).findings, s.interruption subject.element.name⟩

/-- Generates one empty type for each element. -/
def processor (s : Script) : Processor where
  kind := s.kind
  description := "scripted"
  process _ d :=
    match s.interruption d.element.name with
    | some i => Assemble.interrupt i
    | none =>
      let name := "seen." ++ d.qualifiedName
      Assemble.modify fun a =>
        { a with model := a.model.ensure name (.new name d.marker.name) }

end Script

end ComponentGlue
