import ComponentGlue.Disk.Tree
import ComponentGlue.Json.Layout
import ComponentGlue.Run.Diagnostic
import ComponentGlue.Run.Encoding

set_option autoImplicit false
set_option relaxedAutoImplicit false

namespace ComponentGlue

structure Artifact where
  fileName : String
  content : String
  deriving DecidableEq

def GeneratedType.artifact (t : GeneratedType) : Artifact where
  fileName := t.name ++ ".json"
  content := t.toDocument.layout ++ "\n"

def GenerationModel.artifacts (m : GenerationModel) : List Artifact :=
  m.typeList.map GeneratedType.artifact

theorem GenerationModel.length_artifacts (m : GenerationModel) :
    m.artifacts.length = m.artifactCount := by
  simp [artifacts, typeList, Table.values, artifactCount, Table.size]

namespace Artifact

variable {m : Type → Type} [Monad m]

def path (a : Artifact) (dir : Path) : Path := dir.join ⟨a.fileName⟩

/-- Write a file after creating its directory. -/
def replace (disk : Disk m) (p : Path) (content : String) : m (Except FileError Unit) := do
  match p.parent? with
  | none => disk.write p content
  | some parent =>
    match ← disk.createDirs parent with
    | .error e => return .error e
    | .ok () => disk.write p content

/-- Write the artifact unless its file is current; the answer tells whether it was written. -/
def write (disk : Disk m) (dir : Path) (a : Artifact) : m (Except FileError Bool) := do
  let p := a.path dir
  match ← disk.read p with
  | .ok existing =>
    if existing == a.content then return .ok false
    else return (← replace disk p a.content).map fun () => true
  | .error .notFound => return (← replace disk p a.content).map fun () => true
  | .error e => return .error e

/-- Write artifacts in turn; the answer names the files that were created or changed, also when a
failure cuts the writing short. -/
def writeAll (disk : Disk m) (dir : Path) :
    List Artifact → m (Except Fault Unit × List String)
  | [] => pure (.ok (), [])
  | a :: rest => do
    match ← a.write disk dir with
    | .error e => return (.error (.during (.writing (a.path dir).text) (.stated e.text)), [])
    | .ok written => do
      let (result, names) ← writeAll disk dir rest
      return (result, if written then a.fileName :: names else names)

end Artifact

end ComponentGlue
