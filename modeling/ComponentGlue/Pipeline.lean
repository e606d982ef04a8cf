import ComponentGlue.Catalog
import ComponentGlue.Code.GeneratedType
import ComponentGlue.Generation
import ComponentGlue.Rule.Standard
import ComponentGlue.Run.Diagnostic
import ComponentGlue.Table
import ComponentGlue.Validation

/-!
The pipeline over the effects of an arbitrary monad. It works at most once, its five phases run in turn, and
a phase that is interrupted ends the run with one error at the fault's anchor.
-/

set_option autoImplicit false
set_option relaxedAutoImplicit false

namespace ComponentGlue

/-- One processing round: the marker kinds present in it, in host order. -/
structure Round where
  markers : List Marker
  /-- The host's closing round, which never carries work. -/
  isFinal : Bool
  deriving DecidableEq

namespace Round

def ofMarkers (markers : List Marker) : Round := ⟨markers, false⟩

def last : Round := ⟨[], true⟩

def isIdle (r : Round) : Bool := r.isFinal || r.markers.isEmpty

end Round

/-- The message of a panic outside the library's own code. -/
structure Panic where
  message : String

/-- Host, renderer and clock as the pipeline uses them. -/
structure Environment (m : Type → Type) where
  /-- The declarations that carry a marker, in discovery order. -/
  declarations : Marker → m (Except Interruption (List RawDeclaration))
  symbols : ResourceScope → m (Except Panic SymbolSource)
  /-- Render a model and answer how many artifacts were produced. -/
  render : GenerationModel → m (Except Interruption Nat)
  report : Diagnostic → m Unit
  now : m Nat

structure Stopwatch where
  laps : Table String Nat
  running : Table String Nat
  started : Option Nat
  total : Option Nat

namespace Stopwatch

def new : Stopwatch := ⟨.empty, .empty, none, none⟩

instance : Inhabited Stopwatch := ⟨new⟩

def begin (w : Stopwatch) (now : Nat) : Stopwatch := { w with started := some now, total := none }

def finish (w : Stopwatch) (now : Nat) : Option Nat × Stopwatch :=
  match w.started with
  | none => (none, w)
  | some start => (some (now - start), { w with started := none, total := some (now - start) })

def start (w : Stopwatch) (name : String) (now : Nat) : Stopwatch :=
  { w with running := w.running.insert name now }

/-- End a lap and answer how long it took, if it had begun. -/
def stop (w : Stopwatch) (name : String) (now : Nat) : Option Nat × Stopwatch :=
  match w.running.get? name with
  | none => (none, w)
  | some start =>
    let elapsed := now - start
    (some elapsed,
      { w with
        running := w.running.erase name
        laps := w.laps.insert name ((w.laps.get? name).getD 0 + elapsed) })

def lap? (w : Stopwatch) (name : String) : Option Nat := w.laps.get? name

def lapNames (w : Stopwatch) : List String := w.laps.keys

end Stopwatch

/-- Where a pipeline is in its single run. -/
inductive PipelineState where
  | idle
  | extracting
  | resolvingCatalog
  | validating
  | processing
  | rendering
  | done
  | failed
  deriving DecidableEq

namespace PipelineState

def text : PipelineState → String
  | .idle => "idle"
  | .extracting => "extracting"
  | .resolvingCatalog => "resolving-catalog"
  | .validating => "validating"
  | .processing => "processing"
  | .rendering => "rendering"
  | .done => "done"
  | .failed => "failed"

end PipelineState

/-- What the phases of one run have left so far. -/
structure Progress where
  extracted : Option DeclarationModel
  /-- Absent when the project's symbol table is unusable. -/
  catalog : Option Catalog
  validated : Option DeclarationModel
  generation : Option GenerationModel
  artifacts : Nat
  diagnostics : List Diagnostic

namespace Progress

def start : Progress := ⟨none, none, none, none, 0, []⟩

instance : Inhabited Progress := ⟨start⟩

def add (p : Progress) (d : Diagnostic) : Progress := { p with diagnostics := p.diagnostics ++ [d] }

end Progress

/-- What is fixed during one run. -/
structure RunSetting where
  round : Round
  project : Project
  registry : Registry

inductive Phase where
  | extract
  | resolve
  | validate
  | process
  | render
  deriving DecidableEq

namespace Phase

def all : List Phase := [.extract, .resolve, .validate, .process, .render]

def name : Phase → String
  | .extract => "extract"
  | .resolve => "resolve"
  | .validate => validationPhase
  | .process => "process"
  | .render => "render"

def ofName? (s : String) : Option Phase := all.find? (fun p => p.name == s)

def description : Phase → String
  | .extract => "Collect marked declarations from the host"
  | .resolve => "Resolve the project and platform resource catalog"
  | .validate => "Check declarations against the registered validators"
  | .process => "Build the generation model with the registered processors"
  | .render => "Render the generation model"

def state : Phase → PipelineState
  | .extract => .extracting
  | .resolve => .resolvingCatalog
  | .validate => .validating
  | .process => .processing
  | .render => .rendering

abbrev Ending := Except Interruption Unit × Progress

variable {m : Type → Type} [Monad m]

/-- Ask the host for the declarations of each marker in turn. -/
def readBatches (env : Environment m) :
    List Marker → m (Except Interruption (List (Marker × List RawDeclaration)))
  | [] => pure (.ok [])
  | marker :: markers => do
    match ← env.declarations marker with
    | .error e => return .error (e.during (.reading marker))
    | .ok raw =>
      match ← readBatches env markers with
      | .error e => return .error e
      | .ok batches => return .ok ((marker, raw) :: batches)

def runExtract (env : Environment m) (setting : RunSetting) (p : Progress) : m Ending := do
  match ← readBatches env setting.round.markers with
  | .error e => return (.error e, p)
  | .ok batches => return (.ok (), { p with extracted := some (.extract batches) })

/-- What the resolved tables leave: the catalog, or a warning that there is none. -/
def recordCatalog (project platform : SymbolSource) (p : Progress) : Progress :=
  match Catalog.resolve project platform with
  | .ok catalog =>
    let p :=
      if catalog.platform.isNone then
        p.add (.note Phase.resolve.name
          "platform resources unavailable, resolving against project resources only")
      else p
    { p with catalog := some catalog }
  | .error e =>
    p.add (.warning Phase.resolve.name s!"resource catalog unavailable: {e.source.text}")

def runResolve (env : Environment m) (p : Progress) : m Ending := do
  match ← env.symbols .project with
  | .error panic => return (.error (.panic panic.message), p)
  | .ok project =>
    match ← env.symbols .platform with
    | .error panic => return (.error (.panic panic.message), p)
    | .ok platform => return (.ok (), recordCatalog project platform p)

def runValidate (setting : RunSetting) (p : Progress) : Ending :=
  match p.extracted with
  | none => (.error (.fault .notExtracted), p)
  | some extracted =>
    let reported :=
      Validator.validate setting.registry.validators ⟨extracted, p.catalog, setting.project⟩
    let p := { p with diagnostics := p.diagnostics ++ reported.diagnostics }
    match reported.result with
    | .error e => (.error e, p)
    | .ok validated => (.ok (), { p with validated := some validated })

def runProcess (setting : RunSetting) (p : Progress) : Ending :=
  match p.validated with
  | none => (.error (.fault .notValidated), p)
  | some validated =>
    match Processor.generate setting.registry.processors validated
        ⟨p.catalog, setting.project⟩ with
    | .error e => (.error e, p)
    | .ok model => (.ok (), { p with generation := some model })

def runRender (env : Environment m) (p : Progress) : m Ending := do
  match p.generation with
  | none => return (.error (.fault .notProcessed), p)
  | some model =>
    match ← env.render model with
    | .error e => return (.error (e.during .rendering), p)
    | .ok artifacts => return (.ok (), { p with artifacts })

def run (phase : Phase) (env : Environment m) (setting : RunSetting) (p : Progress) : m Ending :=
  match phase with
  | .extract => runExtract env setting p
  | .resolve => runResolve env p
  | .validate => pure (runValidate setting p)
  | .process => pure (runProcess setting p)
  | .render => runRender env p

end Phase

namespace Progress

variable {m : Type → Type} [Monad m]

/-- Where a fault is reported: at the first extracted declaration, or at the host's first declaration
of the round's first marker when nothing was extracted. -/
def faultAnchor (env : Environment m) (round : Round) (p : Progress) :
    m (Option DeclarationRef) := do
  match p.extracted.bind DeclarationModel.first? with
  | some d => return some d.ref
  | none =>
    match round.markers with
    | [] => return none
    | marker :: _ =>
      match ← env.declarations marker with
      | .error _ => return none
      | .ok raw => return raw.head?.map fun r => (r.marked marker).ref

end Progress

/-- How a round ended. -/
inductive RunStatus where
  /-- The round was turned away and nothing ran. -/
  | skipped
  /-- Every phase ran; declarations may still have been rejected. -/
  | completed
  | failed
  deriving DecidableEq

namespace RunStatus

def text : RunStatus → String
  | .skipped => "skipped"
  | .completed => "completed"
  | .failed => "failed"

end RunStatus

structure RunOutcome where
  status : RunStatus
  diagnostics : List Diagnostic
  artifacts : Nat

namespace RunOutcome

def skipped : RunOutcome := ⟨.skipped, [], 0⟩

def errorCount (o : RunOutcome) : Nat := (o.diagnostics.filter Diagnostic.isError).length

def warningCount (o : RunOutcome) : Nat := (o.diagnostics.filter Diagnostic.isWarning).length

end RunOutcome

structure Pipeline where
  registry : Registry
  project : Project
  state : PipelineState
  hasRun : Bool
  stopwatch : Stopwatch

namespace Pipeline

def new (registry : Registry) (project : Project) : Pipeline :=
  ⟨registry, project, .idle, false, .new⟩

variable {m : Type → Type} [Monad m]

/-- The phase that was interrupted, if one was, with the progress and the timing up to there. -/
structure PhasesEnd where
  interrupted : Option (Phase × Interruption)
  progress : Progress
  stopwatch : Stopwatch

/-- Run phases in turn, up to the first interrupted one, and time each. -/
def runPhases (env : Environment m) (setting : RunSetting) :
    List Phase → Progress → Stopwatch → m PhasesEnd
  | [], p, w => pure ⟨none, p, w⟩
  | phase :: phases, p, w => do
    let w := w.start phase.name (← env.now)
    let (ending, p) ← phase.run env setting p
    let (_, w) := w.stop phase.name (← env.now)
    match ending with
    | .error e => return ⟨some (phase, e), p, w⟩
    | .ok () => runPhases env setting phases p w

def faultDiagnostic (phase : Phase) (e : Interruption) (anchor : Option DeclarationRef) :
    Diagnostic :=
  { Diagnostic.error phase.name s!"Unexpected error in {phase.name} phase: {e.contain.text}" with
    location := anchor }

def completionNote (artifacts : Nat) : Diagnostic :=
  .note Phase.render.name s!"generated {artifacts} artifact(s)"

def reportAll (env : Environment m) : List Diagnostic → m Unit
  | [] => pure ()
  | d :: ds => do
    env.report d
    reportAll env ds

/-- Offer a round to the pipeline. -/
def run (env : Environment m) (round : Round) (pipeline : Pipeline) :
    m (RunOutcome × Pipeline) := do
  if round.isIdle || pipeline.hasRun then
    return (.skipped, { pipeline with state := .done })
  else
    let begun := Stopwatch.new.begin (← env.now)
    let setting : RunSetting := ⟨round, pipeline.project, pipeline.registry⟩
    let ended ← runPhases env setting Phase.all .start begun
    let (status, state, progress) ←
      match ended.interrupted with
      | some (phase, e) => do
        let anchor ← ended.progress.faultAnchor env round
        pure (RunStatus.failed, PipelineState.failed,
          ended.progress.add (faultDiagnostic phase e anchor))
      | none =>
        pure (RunStatus.completed, PipelineState.done,
          ended.progress.add (completionNote ended.progress.artifacts))
    let (_, stopwatch) := ended.stopwatch.finish (← env.now)
    reportAll env progress.diagnostics
    return (⟨status, progress.diagnostics, progress.artifacts⟩,
      { pipeline with state, hasRun := true, stopwatch })

end Pipeline

end ComponentGlue
