import ComponentGlue.Artifact
import ComponentGlue.Input
import ComponentGlue.Pipeline
import ComponentGlue.Report.Encoding

set_option autoImplicit false
set_option relaxedAutoImplicit false

namespace ComponentGlue

structure Workspace where
  path : Path
  content : String
  manifest : Manifest

namespace Workspace

variable {m : Type → Type} [Monad m]

def openAt (disk : Disk m) (path : Path) : m (Except InputError Workspace) :=
  readInput disk path fun content =>
    (Manifest.parse content).map fun manifest => ⟨path, content, manifest⟩

def baseDir (w : Workspace) : Path := w.path.parent?.getD ⟨"."⟩

def resolve (w : Workspace) (p : Path) : Path := w.baseDir.join p

def declarationsPath (w : Workspace) : Path := w.resolve w.manifest.declarations

def projectSymbolsPath (w : Workspace) : Path := w.resolve w.manifest.projectSymbols

def platformSymbolsPath (w : Workspace) : Option Path := w.manifest.platformSymbols.map w.resolve

def outputDir (w : Workspace) : Path := w.resolve w.manifest.output

def readDeclarations (disk : Disk m) (w : Workspace) : m (Except InputError DeclarationFile) :=
  readInput disk w.declarationsPath DeclarationFile.parse

def symbolsPath (w : Workspace) : ResourceScope → Option Path
  | .project => some w.projectSymbolsPath
  | .platform => w.platformSymbolsPath

def symbolError (scope : ResourceScope) (e : InputError) : SymbolSourceError :=
  if e.isNotFound then .missing scope else .malformed scope (.stated e.message)

/-- The symbols of a scope; a table that is not configured is missing. -/
def readSymbols (disk : Disk m) (w : Workspace) (scope : ResourceScope) : m SymbolSource := do
  match w.symbolsPath scope with
  | none => return .error (.missing scope)
  | some path =>
    match ← readInput disk path SymbolEntry.parseAll with
    | .ok entries => return .ok entries
    | .error e => return .error (symbolError scope e)

/-- The workspace as the host of a pipeline with a renderer that keeps a state. -/
def environment {σ : Type} (disk : Disk m) (w : Workspace) (file : DeclarationFile)
    (render : GenerationModel → StateT σ m (Except Interruption Nat)) :
    Environment (StateT σ m) where
  declarations marker := pure (.ok (file.declarationsFor marker))
  symbols scope := do return .ok (← (readSymbols disk w scope : m SymbolSource))
  render := render
  report _ := pure ()
  now := (disk.now : m Nat)

end Workspace

namespace Workspace

variable {m : Type → Type} [Monad m]

/-- Run the standard rules over the workspace's declarations with a renderer that keeps a state. -/
def runWith {σ : Type} (disk : Disk m) (w : Workspace) (file : DeclarationFile)
    (render : GenerationModel → StateT σ m (Except Interruption Nat)) (start : σ) :
    m ((RunOutcome × Pipeline) × σ) :=
  ((Pipeline.new .standard w.manifest.project).run (environment disk w file render)
    (.ofMarkers file.markers)).run start

def countOnly (model : GenerationModel) : StateT Unit m (Except Interruption Nat) :=
  pure (.ok model.artifactCount)

def keepArtifacts (model : GenerationModel) :
    StateT (List Artifact) m (Except Interruption Nat) := do
  set model.artifacts
  return .ok model.artifacts.length

/-- Write the artifacts and keep the names of those that were created or changed. -/
def writeArtifacts (disk : Disk m) (dir : Path) (model : GenerationModel) :
    StateT (List String) m (Except Interruption Nat) := do
  let (result, names) ← (Artifact.writeAll disk dir model.artifacts : m _)
  set names
  match result with
  | .ok () => return .ok model.artifacts.length
  | .error f => return .error (.fault f)

def check (disk : Disk m) (w : Workspace) (file : DeclarationFile) : m CheckReport := do
  let ((outcome, _), ()) ← runWith disk w file countOnly ()
  return ⟨w.path, outcome.status, .ofList outcome.diagnostics, outcome.artifacts⟩

/-- The report of a finished run. -/
def bakeReport (w : Workspace) (outcome : RunOutcome) (pipeline : Pipeline) (result : BakeResult) :
    BakeReport where
  package := w.manifest.package
  status := outcome.status
  summary := .ofList outcome.diagnostics
  timings := pipeline.stopwatch.laps.entries
  total := pipeline.stopwatch.total
  result := if outcome.status = .completed then some result else none

def preview (disk : Disk m) (w : Workspace) (file : DeclarationFile) : m BakeReport := do
  let ((outcome, pipeline), artifacts) ← runWith disk w file keepArtifacts []
  return w.bakeReport outcome pipeline (.preview artifacts)

def bakeTo (disk : Disk m) (w : Workspace) (file : DeclarationFile) (dir : Path) :
    m BakeReport := do
  let ((outcome, pipeline), names) ← runWith disk w file (writeArtifacts disk dir) []
  return w.bakeReport outcome pipeline (.written dir names (outcome.artifacts - names.length))

/-- How to bake. -/
structure BakeOptions where
  /-- The output directory, in place of the manifest's. -/
  output : Option Path
  dryRun : Bool

def bake (disk : Disk m) (w : Workspace) (file : DeclarationFile) (options : BakeOptions) :
    m BakeReport :=
  if options.dryRun then preview disk w file
  else bakeTo disk w file (options.output.getD w.outputDir)

end Workspace

end ComponentGlue
