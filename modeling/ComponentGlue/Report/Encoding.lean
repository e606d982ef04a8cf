import ComponentGlue.Artifact
import ComponentGlue.Disk.Tree
import ComponentGlue.Input
import ComponentGlue.Pipeline
import ComponentGlue.Run.Diagnostic

set_option autoImplicit false
set_option relaxedAutoImplicit false

namespace ComponentGlue

inductive ReportItem where
  | title (text : String)
  | heading (name : String)
  | keyValue (key value : String)
  | indentedKeyValue (key value : String)
  | numbered (index : Nat) (text : String)
  | bullet (text : String)
  | added (text : String)
  | diagnostic (text : String)
  | divider (label : String)
  | block (text : String)
  | blank
  deriving DecidableEq

abbrev Report := List ReportItem

namespace ReportItem

/-- The lines a terminal shows, without the last line break. -/
def text : ReportItem → String
  | .title text => text ++ "\n" ++ String.ofList (List.replicate text.utf8ByteSize '=')
  | .heading name => name ++ ":"
  | .keyValue key value => key ++ ": " ++ value
  | .indentedKeyValue key value => "  " ++ key ++ ": " ++ value
  | .numbered index text => s!"  {index}. {text}"
  | .bullet text => "  - " ++ text
  | .added text => "  + " ++ text
  | .diagnostic text => text
  | .divider label => "── " ++ label ++ " ──"
  | .block text => text
  | .blank => ""

def isDiagnostic : ReportItem → Bool
  | .diagnostic _ => true
  | _ => false

end ReportItem

namespace Report

def lines (items : List ReportItem) : String := String.join (items.map fun i => i.text ++ "\n")

def regularText (r : Report) : String := lines (r.filter fun i => !i.isDiagnostic)

def diagnosticText (r : Report) : String := lines (r.filter ReportItem.isDiagnostic)

end Report

/-- The texts of a run's diagnostics by severity. -/
structure DiagnosticSummary where
  errors : List String
  warnings : List String
  notes : List String
  deriving DecidableEq

namespace DiagnosticSummary

def textsOf (severity : Severity) (ds : List Diagnostic) : List String :=
  (ds.filter fun d => d.severity = severity).map Diagnostic.text

def ofList (ds : List Diagnostic) : DiagnosticSummary :=
  ⟨textsOf .error ds, textsOf .warning ds, textsOf .note ds⟩

def hasErrors (s : DiagnosticSummary) : Bool := !s.errors.isEmpty

def report (s : DiagnosticSummary) : Report :=
  s.errors.map .diagnostic ++ s.warnings.map .diagnostic ++ s.notes.map .block ++
    if s.errors.isEmpty && s.warnings.isEmpty then [] else [.blank]

end DiagnosticSummary

def RunStatus.succeeded (status : RunStatus) (summary : DiagnosticSummary) : Bool :=
  decide (status ≠ .failed) && !summary.hasErrors

structure CheckReport where
  config : Path
  status : RunStatus
  summary : DiagnosticSummary
  artifacts : Nat

namespace CheckReport

def isValid (r : CheckReport) : Bool := r.status.succeeded r.summary

def report (r : CheckReport) : Report :=
  r.summary.report ++
    if r.isValid then
      [.block s!"✓ {r.config} is valid, {r.artifacts} artifact(s) would be generated"]
    else []

end CheckReport

/-- What a completed run has rendered. -/
inductive BakeResult where
  /-- The files created or changed in the output directory, and how many were current. -/
  | written (dir : Path) (names : List String) (unchanged : Nat)
  | preview (artifacts : List Artifact)

structure BakeReport where
  package : String
  status : RunStatus
  summary : DiagnosticSummary
  timings : List (String × Nat)
  total : Option Nat
  /-- Absent when the run did not complete. -/
  result : Option BakeResult

namespace BakeReport

def isSuccess (r : BakeReport) : Bool := r.status.succeeded r.summary

def twoDigits (n : Nat) : String := if n < 10 then "0" ++ toString n else toString n

def durationText (nanoseconds : Nat) : String :=
  let hundredths := (nanoseconds + 5000) / 10000
  s!"{hundredths / 100}." ++ twoDigits (hundredths % 100) ++ " ms"

def resultReport : Option BakeResult → Report
  | none => [.block "Nothing was generated"]
  | some (.written dir names unchanged) =>
    [.heading s!"Generated ({names.length})"] ++ names.map .added ++
      (if unchanged > 0 then [.block s!"{unchanged} file(s) unchanged"] else []) ++
      [.blank, .keyValue "Output" dir.text]
  | some (.preview artifacts) =>
    artifacts.flatMap (fun a => [.divider a.fileName, .block a.content]) ++
      [.divider "Summary", .block s!"{artifacts.length} files would be generated"]

def timingReport (r : BakeReport) : Report :=
  [.heading "Timings"] ++
    r.timings.map (fun e => .indentedKeyValue e.1 (durationText e.2)) ++
    (r.total.map fun t => ReportItem.indentedKeyValue "total" (durationText t)).toList

def report (r : BakeReport) : Report :=
  r.summary.report ++ [.block r.package, .blank] ++ resultReport r.result ++ [.blank] ++
    r.timingReport

end BakeReport

def numberedItems (texts : List String) : Report :=
  texts.zipIdx.map fun e => .numbered (e.2 + 1) e.1

/-- Explain the phases and the registered rules. -/
def Registry.explanation (r : Registry) : Report :=
  [.title "tagsmith Pipeline Explanation", .blank, .heading "Pipeline Phases"] ++
    numberedItems (Phase.all.map fun p => s!"{p.name} - {p.description}") ++
    [.blank, .heading s!"Validators ({r.validators.length})"] ++
    r.validators.map (fun v => .bullet s!"{v.kind}: {v.description}") ++
    [.blank, .heading s!"Processors ({r.processors.length}, in run order)"] ++
    numberedItems (r.processors.map fun p => s!"{p.kind}: {p.description}")

def Path.toDocument (p : Path) : Document := .str p.text

def SourceSpan.toDocument (s : SourceSpan) : Document := .pair (.ofNat s.offset) (.ofNat s.length)

namespace InputError

def kindName : InputError → String
  | .unreadable _ _ => "Io"
  | .malformed => "Parse"
  | .invalid _ _ => "Validation"
  | .invalidName _ _ _ _ => "InvalidName"

def commonFields (e : InputError) : List (String × Document) :=
  [("error", .str e.kindName), ("message", .str e.message), ("code", .str e.code),
    ("help", .ofOption .str e.help?)]

def placeFields (e : InputError) : List (String × Document) :=
  [("span", .ofOption SourceSpan.toDocument e.span?), ("label", .ofOption .str e.label?)]

def ownFields (e : InputError) : List (String × Document) :=
  match e with
  | .unreadable path _ => [("path", path.toDocument), ("not_found", .bool e.isNotFound)]
  | .malformed => []
  | .invalid _ _ => e.placeFields
  | .invalidName name context reason _ =>
    e.placeFields ++ [("name", .str name), ("context", .str context), ("reason", .str reason)]

def toDocument (e : InputError) : Document := .obj (e.commonFields ++ e.ownFields)

end InputError

def Manifest.toDocument (m : Manifest) : Document :=
  .obj [("package", .str m.package), ("application", .ofOption .str m.application),
    ("components", .ofStrings m.components), ("declarations", m.declarations.toDocument),
    ("project_symbols", m.projectSymbols.toDocument),
    ("platform_symbols", .ofOption Path.toDocument m.platformSymbols), ("suffix", .str m.suffix),
    ("output", m.output.toDocument)]

namespace SymbolEntry

def toDocument (e : SymbolEntry) : Document := .arr [.str e.typeName, .str e.name, .int e.id]

def decode : Decode SymbolEntry
  | .arr [typeName, name, id] => do
    return ⟨← Decode.str typeName, ← Decode.str name, ← Decode.int id⟩
  | _ => none

end SymbolEntry

def Declaration.toDocument (d : Declaration) : Document :=
  .obj [("marker", .str d.marker.name), ("element", d.element.toDocument),
    ("args", Argument.pairs d.args)]

/-- An item as the name of its kind with what it shows. -/
def ReportItem.toDocument : ReportItem → Document
  | .title text => .ofStrings ["title", text]
  | .heading name => .ofStrings ["section", name]
  | .keyValue key value => .ofStrings ["key_value", key, value]
  | .indentedKeyValue key value => .ofStrings ["key_value_indented", key, value]
  | .numbered index text => .arr [.str "numbered_item", .ofNat index, .str text]
  | .bullet text => .ofStrings ["list_item", text]
  | .added text => .ofStrings ["added_item", text]
  | .diagnostic text => .ofStrings ["diagnostic", text]
  | .divider label => .ofStrings ["divider", label]
  | .block text => .ofStrings ["preformatted", text]
  | .blank => .ofStrings ["newline"]

def Report.toDocument (r : Report) : Document := .arr (r.map ReportItem.toDocument)

def DiagnosticSummary.fields (s : DiagnosticSummary) : List (String × Document) :=
  [("errors", .ofStrings s.errors), ("warnings", .ofStrings s.warnings),
    ("notes", .ofStrings s.notes)]

def CheckReport.toDocument (r : CheckReport) : Document :=
  .obj ([("status", .str r.status.text), ("artifacts", .ofNat r.artifacts),
    ("valid", .bool r.isValid)] ++ r.summary.fields ++
    [("report", Report.toDocument r.report)])

def BakeResult.toDocument : BakeResult → Document
  | .written dir names unchanged =>
    .obj [("output_dir", dir.toDocument),
      ("written", .arr (names.map fun n => (dir.join ⟨n⟩).toDocument)),
      ("unchanged", .ofNat unchanged)]
  | .preview artifacts => .obj [("preview", .ofStrings (artifacts.map Artifact.fileName))]

def BakeReport.toDocument (r : BakeReport) : Document :=
  .obj ([("package", .str r.package), ("status", .str r.status.text),
    ("success", .bool r.isSuccess)] ++ r.summary.fields ++
    [("timed", .ofStrings (r.timings.map Prod.fst)), ("total", .bool r.total.isSome),
      ("result", .ofOption BakeResult.toDocument r.result),
      ("report", Report.toDocument r.report)])

end ComponentGlue
