import ComponentGlue.Disk.Tree
import ComponentGlue.Document
import ComponentGlue.Host.Declaration
import ComponentGlue.Project
import ComponentGlue.Run.Encoding
import ComponentGlue.Text
import ComponentGlue.Toml.Reader

set_option autoImplicit false
set_option relaxedAutoImplicit false

namespace ComponentGlue

section Error

/-- A stretch of a source text, counted in bytes. -/
structure SourceSpan where
  offset : Nat
  length : Nat
  deriving DecidableEq

namespace SourceSpan

def within? (quote : Char) (source value : String) : Option SourceSpan :=
  (Text.splitAtFirst? (quote :: value.toList ++ [quote]) source.toList).map fun (before, _) =>
    ⟨(String.ofList before).utf8ByteSize + 1, value.utf8ByteSize⟩

def ofValue? (source value : String) : Option SourceSpan :=
  within? '"' source value <|> within? '\'' source value

end SourceSpan

/-- Why an input file cannot be used. -/
inductive InputError where
  | unreadable (path : Path) (cause : FileError)
  /-- The text is not TOML, or it lacks a field or has one of another type. -/
  | malformed
  | invalid (message : String) (span : Option SourceSpan)
  | invalidName (name context reason : String) (span : Option SourceSpan)
  deriving DecidableEq

namespace InputError

def atValue (source message value : String) : InputError :=
  .invalid message (SourceSpan.ofValue? source value)

def badName (source name context reason : String) : InputError :=
  .invalidName name context reason (SourceSpan.ofValue? source name)

def message : InputError → String
  | .unreadable path _ => s!"failed to read '{path}'"
  | .malformed => "failed to parse TOML"
  | .invalid message _ => message
  | .invalidName name context _ _ => s!"invalid {context} '{name}'"

def code : InputError → String
  | .unreadable _ _ => "tagsmith::io"
  | .malformed => "tagsmith::parse_error"
  | .invalid _ _ => "tagsmith::validation_error"
  | .invalidName _ _ _ _ => "tagsmith::invalid_name"

def help? : InputError → Option String
  | .unreadable _ _ => some "check the path in tagsmith.toml"
  | .malformed => none
  | .invalid _ _ => none
  | .invalidName _ _ reason _ =>
    some s!"{reason}. Use letters, digits, '_' and '$', not starting with a digit."

def span? : InputError → Option SourceSpan
  | .unreadable _ _ => none
  | .malformed => none
  | .invalid _ span => span
  | .invalidName _ _ _ span => span

/-- What is said at the place the error points at. -/
def label? (e : InputError) : Option String :=
  e.span?.bind fun _ =>
    match e with
    | .unreadable _ _ => none
    | .malformed => none
    | .invalid message _ => some message
    | .invalidName _ _ _ _ => some "invalid name"

def isNotFound : InputError → Bool
  | .unreadable _ cause => cause = .notFound
  | .malformed => false
  | .invalid _ _ => false
  | .invalidName _ _ _ _ => false

end InputError

/-- Take the text of an input apart: read it as a document, decode that and check what was decoded. -/
def parseInput {α : Type} (read : String → Option Document) (decode : Decode α)
    (check : String → α → Except InputError Unit) (source : String) : Except InputError α :=
  match (read source).bind decode with
  | none => .error .malformed
  | some a => (check source a).map fun () => a

variable {m : Type → Type} [Monad m]

/-- Read a file and take its text apart. -/
def readInput {α : Type} (disk : Disk m) (path : Path) (parse : String → Except InputError α) :
    m (Except InputError α) := do
  match ← disk.read path with
  | .error cause => return .error (.unreadable path cause)
  | .ok text => return parse text

end Error

structure Manifest where
  package : String
  application : Option String
  components : List String
  declarations : Path
  projectSymbols : Path
  platformSymbols : Option Path
  suffix : String
  output : Path

namespace Manifest

def defaultSuffix : String := "_"

def defaultOutput : Path := ⟨"generated"⟩

def tableOf (names : List String) (d : Document) : Option Document :=
  match d.positional names with
  | .obj fields => some (.obj fields)
  | _ => none

def path : Decode Path := fun d => (Decode.str d).map Path.mk

def decode : Decode Manifest := fun d => do
  let project ← d.required "project" (tableOf ["package", "application", "components"])
  let sources ← d.required "sources"
    (tableOf ["declarations", "project_symbols", "platform_symbols"])
  let generation ← d.withDefault "generation" (.obj []) (tableOf ["suffix", "output"])
  return {
    package := ← project.required "package" .str
    application := ← project.optional "application" .str
    components := ← project.withDefault "components" [] .strings
    declarations := ← sources.required "declarations" path
    projectSymbols := ← sources.required "project_symbols" path
    platformSymbols := ← sources.optional "platform_symbols" path
    suffix := ← generation.withDefault "suffix" defaultSuffix .str
    output := ← generation.withDefault "output" defaultOutput path }

def checkQualified (source context reason : String) : List String → Except InputError Unit
  | [] => .ok ()
  | name :: names =>
    if isQualifiedName name then checkQualified source context reason names
    else .error (.badName source name context reason)

/-- The names of a manifest. The suffix has to continue an identifier, since it is appended to type
names. -/
def check (source : String) (m : Manifest) : Except InputError Unit := do
  checkQualified source "package" "each dot-separated segment must be an identifier" [m.package]
  checkQualified source "application class" "expected a qualified class name"
    m.application.toList
  checkQualified source "component" "expected a qualified class name" m.components
  if m.suffix.isEmpty then .error (.invalid "generation.suffix cannot be empty" none)
  else if isIdentifier ("A" ++ m.suffix) then .ok ()
  else .error (.badName source m.suffix "suffix" "the suffix must continue an identifier")

def parseWith (read : String → Option Document) : String → Except InputError Manifest :=
  parseInput read decode check

def parse : String → Except InputError Manifest := parseWith Document.ofToml?

def isComponent (m : Manifest) (qualified : String) : Bool := m.components.contains qualified

def project (m : Manifest) : Project where
  package := m.package
  application := m.application
  components := m.components
  suffix := m.suffix
  services := .standard

end Manifest

namespace SymbolEntry

def decodeSection (typeName : String) : Decode (List SymbolEntry)
  | .obj fields => fields.mapM fun e => (Decode.int e.2).map fun id => ⟨typeName, e.1, id⟩
  | _ => none

def decodeAll : Decode (List SymbolEntry)
  | .obj sections => (sections.mapM fun e => decodeSection e.1 e.2).map List.flatten
  | _ => none

def parseAllWith (read : String → Option Document) : String → Except InputError (List SymbolEntry) :=
  parseInput read decodeAll fun _ _ => .ok ()

def parseAll : String → Except InputError (List SymbolEntry) := parseAllWith Document.ofToml?

end SymbolEntry

mutual
/-- Whether every integer in a document fits into 64 bits, with or without a sign. -/
def Document.fitsWord : Document → Bool
  | .int i => -9223372036854775808 ≤ i && i < 18446744073709551616
  | .arr items => Document.itemsFitWord items
  | .obj fields => Document.fieldsFitWord fields
  | .null => true
  | .bool _ => true
  | .real _ => true
  | .str _ => true

def Document.itemsFitWord : List Document → Bool
  | [] => true
  | d :: rest => d.fitsWord && Document.itemsFitWord rest

def Document.fieldsFitWord : List (String × Document) → Bool
  | [] => true
  | (_, d) :: rest => d.fitsWord && Document.fieldsFitWord rest
end

structure DeclarationFile where
  entries : List Declaration

namespace DeclarationFile

def decodeArgs : Decode (Table String Argument)
  | .obj fields =>
    (fields.mapM fun e => (Argument.decode e.2).map fun a => (e.1, a)).map Table.ofList
  | _ => none

/-- One entry. There is no null in a file: what only names an alternative has an empty table for its
value. -/
def decodeEntry : Decode Declaration
  | .obj fields => do
    let d := Document.obj fields
    if d.fitsWord then
      return {
        marker := ⟨← d.required "marker" .str⟩
        element := ← Element.decodeWith Decode.isEmptyObject d
        args := ← d.withDefault "args" .empty decodeArgs }
    else none
  | _ => none

def decode : Decode DeclarationFile := fun d =>
  (d.withDefault "declaration" [] (.list decodeEntry)).map DeclarationFile.mk

def ownerFits (e : Element) : Bool := (e.kind.isType && e.owner.isEmpty) || isQualifiedName e.owner

/-- The first thing that is wrong with an entry. -/
def checkEntry (source : String) (d : Declaration) : Except InputError Unit :=
  let e := d.element
  if d.marker.name.isEmpty then .error (.invalid "marker cannot be empty" none)
  else if !isIdentifier e.name then
    .error (.badName source e.name "element name" s!"'{e.name}' is not an identifier")
  else if !ownerFits e then
    .error (.atValue source s!"{e.kind} '{e.name}' has an invalid owner" e.owner)
  else .ok ()

def check (source : String) (f : DeclarationFile) : Except InputError Unit :=
  f.entries.forM (checkEntry source)

def parseWith (read : String → Option Document) : String → Except InputError DeclarationFile :=
  parseInput read decode check

def parse : String → Except InputError DeclarationFile := parseWith Document.ofToml?

def markers (f : DeclarationFile) : List Marker :=
  (f.entries.foldl (fun t d => t.insert d.marker ()) (Table.empty : Table Marker Unit)).keys

def declarationsFor (f : DeclarationFile) (marker : Marker) : List RawDeclaration :=
  (f.entries.filter fun d => d.marker = marker).map fun d => ⟨d.element, d.args⟩

end DeclarationFile

end ComponentGlue
