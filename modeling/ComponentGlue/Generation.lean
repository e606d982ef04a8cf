import ComponentGlue.Code.GeneratedType
import ComponentGlue.Host.Declaration
import ComponentGlue.Project
import ComponentGlue.Run.Diagnostic

/-!
Processing. The standard processors run one after the other over one assembly: the generation model and the
holders by which later rules find the types of earlier ones.
-/

set_option autoImplicit false
set_option relaxedAutoImplicit false

namespace ComponentGlue

/-- What processing has built so far. -/
structure Assembly where
  model : GenerationModel
  /-- Generated subclasses by component. -/
  components : Table String String
  /-- Generated clients by REST interface. -/
  restClients : Table String String

namespace Assembly

def empty : Assembly := ⟨.empty, .empty, .empty⟩

instance : Inhabited Assembly := ⟨empty⟩

def registerComponent (a : Assembly) (origin generated : String) : Assembly :=
  { a with components := a.components.insert origin generated }

def registerRestClient (a : Assembly) (interface generated : String) : Assembly :=
  { a with restClients := a.restClients.insert interface generated }

end Assembly

/-- What a run's processing may read. -/
structure Setting where
  catalog : Option Catalog
  project : Project

namespace Setting

/-- A resource that validation has already looked up. -/
def resource (s : Setting) (key : ResourceKey) : Except Fault ResourceRef :=
  match s.catalog with
  | none => .error (.noCatalog key)
  | some catalog =>
    match catalog.lookup key with
    | .ok ref => .ok ref
    | .error e => .error (.lookup e)

def resources (s : Setting) : List ResourceKey → Except Fault (List ResourceRef)
  | [] => .ok []
  | key :: keys =>
    match s.resource key with
    | .error f => .error f
    | .ok ref => (s.resources keys).map (ref :: ·)

end Setting

def Assemble (α : Type) : Type := Assembly → Except Interruption α × Assembly

namespace Assemble

variable {α β : Type}

def andThen (x : Assemble α) (f : α → Assemble β) : Assemble β := fun a =>
  match x a with
  | (.error e, a') => (.error e, a')
  | (.ok v, a') => f v a'

instance : Monad Assemble where
  pure v := fun a => (.ok v, a)
  bind := andThen

def interrupt (i : Interruption) : Assemble α := fun a => (.error i, a)

def fault (f : Fault) : Assemble α := interrupt (.fault f)

def modify (f : Assembly → Assembly) : Assemble Unit := fun a => (.ok (), f a)

def ofExcept : Except Fault α → Assemble α
  | .ok v => pure v
  | .error f => fault f

def orFault (f : Fault) : Option α → Assemble α
  | some v => pure v
  | none => fault f

def during (activity : Activity) (x : Assemble α) : Assemble α := fun a =>
  match x a with
  | (.error e, a') => (.error (e.during activity), a')
  | (.ok v, a') => (.ok v, a')

def componentName (origin : String) : Assemble String := fun a =>
  orFault (.noComponent origin) (a.components.get? origin) a

def restClientName (interface : String) : Assemble String := fun a =>
  orFault (.noRestClient interface) (a.restClients.get? interface) a

def generatedType (name : String) : Assemble GeneratedType := fun a =>
  orFault (.noGeneratedType name) (a.model.get? name) a

def componentType (origin : String) : Assemble GeneratedType := do
  generatedType (← componentName origin)

def restClientType (interface : String) : Assemble GeneratedType := do
  generatedType (← restClientName interface)

def modifyType (name : String) (f : GeneratedType → GeneratedType) : Assemble Unit :=
  modify fun a => { a with model := a.model.modify name f }

def modifyComponent (origin : String) (f : GeneratedType → GeneratedType) : Assemble Unit := do
  let name ← componentName origin
  let _ ← generatedType name
  modifyType name f

def modifyRestClient (interface : String) (f : GeneratedType → GeneratedType) : Assemble Unit := do
  let name ← restClientName interface
  let _ ← generatedType name
  modifyType name f

def insertType (t : GeneratedType) : Assemble Unit :=
  modify fun a => { a with model := a.model.insert t }

end Assemble

def onCreate : String := "onCreate"

/-- The labelled blocks of `onCreate`. -/
inductive CreationBlock where
  | beforeCreate
  | inject
  | bindViews
  | bindListeners
  | afterViews
  deriving DecidableEq

namespace CreationBlock

def all : List CreationBlock := [.beforeCreate, .inject, .bindViews, .bindListeners, .afterViews]

def label : CreationBlock → String
  | .beforeCreate => "before-create"
  | .inject => "inject"
  | .bindViews => "bind-views"
  | .bindListeners => "bind-listeners"
  | .afterViews => "after-views"

end CreationBlock

namespace Assemble

def creationBlock (origin label : String) : Assemble (List Statement) := do
  let type ← componentType origin
  orFault (.noBlock type.name onCreate label) (type.block? onCreate label)

/-- Change the content of a labelled block of a component's `onCreate`. -/
def modifyCreation (origin : String) (block : CreationBlock)
    (f : List Statement → List Statement) : Assemble Unit := do
  let name ← componentName origin
  let type ← generatedType name
  let changed ← orFault (.noBlock type.name onCreate block.label)
    (type.mapBlock? onCreate block.label f)
  modifyType name fun _ => changed

def appendCreation (origin : String) (block : CreationBlock) (s : Statement) : Assemble Unit :=
  modifyCreation origin block (· ++ [s])

end Assemble

/-- What one marker kind contributes to the generation model. -/
structure Processor where
  kind : Marker
  description : String
  process : Setting → Declaration → Assemble Unit

namespace Processor

def processAll (p : Processor) (setting : Setting) : List Declaration → Assemble Unit
  | [] => pure ()
  | d :: ds => do
    Assemble.during (.processing d) (p.process setting d)
    processAll p setting ds

/-- Run processors in turn, each over the declarations of its kind. -/
def runAll (validated : DeclarationModel) (setting : Setting) : List Processor → Assemble Unit
  | [] => pure ()
  | p :: ps => do
    p.processAll setting (validated.declarations p.kind)
    runAll validated setting ps

/-- The generation model of a validated model. -/
def generate (ps : List Processor) (validated : DeclarationModel) (setting : Setting) :
    Except Interruption GenerationModel :=
  match runAll validated setting ps .empty with
  | (.error e, _) => .error e
  | (.ok (), a) => .ok a.model

def handles (ps : List Processor) (kind : Marker) : Bool := ps.any fun p => p.kind = kind

end Processor

end ComponentGlue
