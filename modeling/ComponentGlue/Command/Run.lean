import ComponentGlue.Command.Arguments
import ComponentGlue.Report.Encoding
import ComponentGlue.Workspace

set_option autoImplicit false
set_option relaxedAutoImplicit false

namespace ComponentGlue

/-- What a finished command leaves. -/
structure Exit where
  code : Nat
  regular : String
  diagnostic : String
  deriving DecidableEq

namespace Exit

def ofReport (r : Report) (success : Bool) : Exit :=
  ⟨if success then 0 else 1, r.regularText, r.diagnosticText⟩

/-- Show an error in an input file, its code first. -/
def ofInputError (e : InputError) : Exit where
  code := 1
  regular := ""
  diagnostic := e.code ++ "\n\n  × " ++ e.message ++ "\n" ++
    match e.help? with
    | some help => "  help: " ++ help ++ "\n"
    | none => ""

def ofUsageError (e : UsageError) : Exit := ⟨2, "", "error: " ++ e.message ++ "\n"⟩

end Exit

namespace Command

def versionText : String := "tagsmith 0.5.0\n"

def helpText : String :=
  "Generate component glue code from marked declarations\n\n" ++
  "Usage: tagsmith [OPTIONS] <COMMAND>\n\n" ++
  "Commands:\n" ++
  "  check    Run the pipeline without writing anything\n" ++
  "  bake     Run the pipeline and write one JSON file per generated type\n" ++
  "  explain  List pipeline phases and the registered rules\n"

variable {m : Type → Type} [Monad m]

/-- Open a workspace and its declarations and work on them. -/
def withWorkspace (disk : Disk m) (config : Path)
    (work : Workspace → DeclarationFile → m Exit) : m Exit := do
  match ← Workspace.openAt disk config with
  | .error e => return .ofInputError e
  | .ok w =>
    match ← w.readDeclarations disk with
    | .error e => return .ofInputError e
    | .ok file => work w file

/-- Run one command. -/
def run (disk : Disk m) : Command → m Exit
  | .check config => withWorkspace disk config fun w file => do
    let r ← w.check disk file
    return .ofReport r.report r.isValid
  | .bake config output dryRun => withWorkspace disk config fun w file => do
    let r ← w.bake disk file ⟨output, dryRun⟩
    return .ofReport r.report r.isSuccess
  | .explain => return .ofReport Registry.standard.explanation true
  | .version => return ⟨0, versionText, ""⟩
  | .help => return ⟨0, helpText, ""⟩

def runArguments (disk : Disk m) (arguments : List String) : m Exit :=
  match ofArguments arguments with
  | .error e => return .ofUsageError e
  | .ok c => run disk c

end Command

end ComponentGlue
