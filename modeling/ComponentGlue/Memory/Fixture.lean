import ComponentGlue.Artifact
import ComponentGlue.Generation
import ComponentGlue.Host.Declaration
import ComponentGlue.Pipeline
import ComponentGlue.Rule.Standard
import ComponentGlue.Validation

set_option autoImplicit false
set_option relaxedAutoImplicit false

namespace ComponentGlue

structure MemoryHost where
  declarations : Table Marker (List RawDeclaration)
  projectSymbols : SymbolSource
  platformSymbols : SymbolSource
  failing : Option Marker
  panicking : Option Marker
  reported : List Diagnostic

namespace MemoryHost

def empty : MemoryHost := ⟨.empty, .ok [], .ok [], none, none, []⟩

instance : Inhabited MemoryHost := ⟨empty⟩

def declare (h : MemoryHost) (marker : Marker) (raw : RawDeclaration) : MemoryHost :=
  let before := (h.declarations.get? marker).getD []
  { h with declarations := h.declarations.insert marker (before ++ [raw]) }

def declareAll (h : MemoryHost) (ds : List Declaration) : MemoryHost :=
  ds.foldl (fun h d => h.declare d.marker ⟨d.element, d.args⟩) h

def round (h : MemoryHost) : Round := .ofMarkers h.declarations.keys

/-- The declarations of a marker; failing is tested before panicking. -/
def lookup (h : MemoryHost) (marker : Marker) : Except Interruption (List RawDeclaration) :=
  if h.failing = some marker then
    .error (.fault (.stated s!"declaration lookup for {marker} failed"))
  else if h.panicking = some marker then
    .error (.panic s!"declaration lookup for {marker} panicked")
  else .ok ((h.declarations.get? marker).getD [])

def symbols (h : MemoryHost) : ResourceScope → SymbolSource
  | .project => h.projectSymbols
  | .platform => h.platformSymbols

def extracted (h : MemoryHost) : DeclarationModel := .extract h.declarations.entries

end MemoryHost

/-- What a renderer in memory does with a model, and what it has kept. -/
inductive MemoryRenderer where
  | recording (models : List GenerationModel)
  | preview (artifacts : List Artifact)
  | discarding
  | failing

namespace MemoryRenderer

def render (model : GenerationModel) :
    MemoryRenderer → Except Interruption Nat × MemoryRenderer
  | .recording models => (.ok model.artifactCount, .recording (models ++ [model]))
  | .preview _ => (.ok model.artifacts.length, .preview model.artifacts)
  | .discarding => (.ok model.artifactCount, .discarding)
  | .failing => (.error (.fault (.stated "output directory is not writable")), .failing)

end MemoryRenderer

/-- A host and a renderer in memory. -/
structure MemoryWorld where
  host : MemoryHost
  renderer : MemoryRenderer

namespace MemoryWorld

/-- The world as an environment whose clock stands still. -/
def environment : Environment (StateM MemoryWorld) where
  declarations marker := fun w => (w.host.lookup marker, w)
  symbols scope := fun w => (.ok (w.host.symbols scope), w)
  render model := fun w =>
    let (result, renderer) := w.renderer.render model
    (result, { w with renderer })
  report d := fun w => ((), { w with host := { w.host with reported := w.host.reported ++ [d] } })
  now := pure 0

end MemoryWorld

structure Fixture where
  host : MemoryHost
  project : Project

namespace Fixture

def context (f : Fixture) : ValidationContext where
  extracted := f.host.extracted
  catalog := (Catalog.resolve f.host.projectSymbols f.host.platformSymbols).toOption
  project := f.project

/-- Try one validator: the qualified names it accepts among the declarations of its kind, and its
diagnostics. Kinds without validator are passed over in silence. -/
def check (f : Fixture) (v : Validator) : Except Interruption (List String) × List Diagnostic :=
  let reported := Validator.validate [v] f.context
  (reported.result.map fun m => (m.declarations v.kind).map Declaration.qualifiedName,
    reported.diagnostics.filter fun d => d.location.isSome || d.isError)

/-- Where trying the standard rules was cut short. -/
inductive GenerateFailure where
  | validation (cause : Interruption)
  | processing (cause : Interruption)

/-- What trying the standard rules yields. -/
structure Generated where
  model : GenerationModel
  diagnostics : List Diagnostic

/-- Validate with the standard rules and generate from what is accepted. -/
def generate (f : Fixture) : Except GenerateFailure Generated :=
  let reported := Validator.validate Registry.standard.validators f.context
  match reported.result with
  | .error cause => .error (.validation cause)
  | .ok validated =>
    match Processor.generate Registry.standard.processors validated
        ⟨f.context.catalog, f.project⟩ with
    | .error cause => .error (.processing cause)
    | .ok model => .ok ⟨model, reported.diagnostics⟩

end Fixture

end ComponentGlue
