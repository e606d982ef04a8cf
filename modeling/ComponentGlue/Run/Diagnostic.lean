import ComponentGlue.Catalog
import ComponentGlue.Host.Declaration

set_option autoImplicit false
set_option relaxedAutoImplicit false

namespace ComponentGlue

inductive Severity where
  | error
  | warning
  | note
  deriving DecidableEq

namespace Severity

def text : Severity → String
  | .error => "error"
  | .warning => "warning"
  | .note => "note"

end Severity

/-- The declaration that a diagnostic is about. -/
structure DeclarationRef where
  marker : Marker
  kind : ElementKind
  element : String
  deriving DecidableEq

namespace DeclarationRef

def text (r : DeclarationRef) : String := s!"{r.marker} {r.kind} {r.element}"

end DeclarationRef

def Declaration.ref (d : Declaration) : DeclarationRef := ⟨d.marker, d.element.kind, d.qualifiedName⟩

structure Diagnostic where
  severity : Severity
  phase : String
  message : String
  location : Option DeclarationRef
  deriving DecidableEq

namespace Diagnostic

def error (phase message : String) : Diagnostic := ⟨.error, phase, message, none⟩

def warning (phase message : String) : Diagnostic := ⟨.warning, phase, message, none⟩

def note (phase message : String) : Diagnostic := ⟨.note, phase, message, none⟩

def about (d : Diagnostic) (declaration : Declaration) : Diagnostic :=
  { d with location := some declaration.ref }

def isError (d : Diagnostic) : Bool := d.severity = .error

def isWarning (d : Diagnostic) : Bool := d.severity = .warning

def text (d : Diagnostic) : String :=
  s!"{d.severity.text}[{d.phase}]: {d.message}" ++
    match d.location with
    | none => ""
    | some ref => "\n  --> " ++ ref.text

end Diagnostic

/-- What was being done when a fault arose. -/
inductive Activity where
  | reading (marker : Marker)
  | validating (declaration : Declaration)
  | processing (declaration : Declaration)
  | rendering
  | writing (path : String)

namespace Activity

def text : Activity → String
  | .reading marker => s!"reading {marker} declarations"
  | .validating declaration => s!"validating {declaration}"
  | .processing declaration => s!"processing {declaration}"
  | .rendering => "rendering generation model"
  | .writing path => s!"writing {path}"

end Activity

inductive Fault where
  | stated (message : String)
  | panicked (message : String)
  | lookup (e : LookupError)
  | noCatalog (key : ResourceKey)
  | noComponent (origin : String)
  | noRestClient (interface : String)
  | noGeneratedType (name : String)
  | noBlock (typeName method label : String)
  | lostExtrasGuard (typeName method : String)
  | noDeclaredType (element : Element)
  | unknownService (type : String)
  | noApplication
  | noDatabaseParameter (element : Element)
  | unsupportedPreference (name type : String)
  | notExtracted
  | notValidated
  | notProcessed
  | during (activity : Activity) (cause : Fault)

namespace Fault

/-- The text of a fault, its activities from the outside in and the cause last. -/
def text : Fault → String
  | .stated message => message
  | .panicked message => "panicked: " ++ message
  | .lookup e => e.text
  | .noCatalog key => s!"cannot resolve {key}: resource catalog unavailable"
  | .noComponent origin =>
    s!"no component holder for {origin}: its @enhanced-component declaration was not processed"
  | .noRestClient interface =>
    s!"no REST client holder for {interface}: its @rest declaration was not processed"
  | .noGeneratedType name => s!"generated type {name} is missing from the model"
  | .noBlock typeName method label => s!"{typeName}.{method} has no '{label}' section"
  | .lostExtrasGuard typeName method => s!"{typeName}.{method} lost its extras guard"
  | .noDeclaredType element => s!"{element} has no declared type"
  | .unknownService type => s!"{type} is not a known system service"
  | .noApplication => "no application class is declared"
  | .noDatabaseParameter element => s!"{element} has no database parameter"
  | .unsupportedPreference name type => s!"preference {name} has unsupported type {type}"
  | .notExtracted => "no extracted model - ValidatePhase must run after ExtractPhase"
  | .notValidated => "no validated model - ProcessPhase must run after ValidatePhase"
  | .notProcessed => "no generation model - RenderPhase must run after ProcessPhase"
  | .during activity cause => activity.text ++ ": " ++ cause.text

end Fault

/-- What cuts a piece of work short: a fault that is handed on, or a panic that leaves at once. -/
inductive Interruption where
  | fault (f : Fault)
  | panic (message : String)

namespace Interruption

def during (activity : Activity) : Interruption → Interruption
  | .fault f => .fault (.during activity f)
  | .panic message => .panic message

def contain : Interruption → Fault
  | .fault f => f
  | .panic message => .panicked message

end Interruption

end ComponentGlue
