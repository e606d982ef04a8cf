import ComponentGlue.Table
import ComponentGlue.Text

/-!
What is asked of a file system, as a record of effects, and a file tree in memory that answers it. A place
is the list of segments that lead to it from the working directory, or from the root when it starts with a
slash.
-/

set_option autoImplicit false
set_option relaxedAutoImplicit false

namespace ComponentGlue

/-- A path as it was written. -/
structure Path where
  text : String
  deriving DecidableEq, Inhabited

namespace Path

instance : ToString Path := ⟨text⟩

def isAbsolute (p : Path) : Bool := p.text.toList.head? = some '/'

def join (base p : Path) : Path :=
  if p.isAbsolute || base.text.isEmpty then p
  else if base.text.toList.getLast? = some '/' then ⟨base.text ++ p.text⟩
  else ⟨base.text ++ "/" ++ p.text⟩

def isIdleSegment (segment : List Char) : Bool := segment = [] || segment = ['.']

/-- The start of a path that counts as a segment of its own, a root or a leading dot, and the
rest. -/
def splitStart : List Char → List Char × List Char
  | '/' :: rest => (['/'], rest)
  | ['.'] => (['.'], [])
  | '.' :: '/' :: rest => (['.'], '/' :: rest)
  | chars => ([], chars)

/-- The path without its last segment; a root and the empty path have no parent. -/
def parent? (p : Path) : Option Path :=
  let (start, rest) := splitStart p.text.toList
  match (Text.splitAll '/' rest).reverse.dropWhile isIdleSegment with
  | [] => if start = ['.'] then some ⟨""⟩ else none
  | _ :: segments =>
    let kept := (segments.dropWhile isIdleSegment).reverse
    some ⟨String.ofList (start ++ ['/'].intercalate kept)⟩

end Path

/-- Why a file operation failed. -/
inductive FileError where
  | notFound
  | notDirectory
  | isDirectory
  | alreadyExists
  | nameTooLong
  | nulInName
  | other (text : String)
  deriving DecidableEq

namespace FileError

def text : FileError → String
  | .notFound => "No such file or directory (os error 2)"
  | .notDirectory => "Not a directory (os error 20)"
  | .isDirectory => "Is a directory (os error 21)"
  | .alreadyExists => "File exists (os error 17)"
  | .nameTooLong => "File name too long (os error 36)"
  | .nulInName => "file name contained an unexpected NUL byte"
  | .other text => text

end FileError

/-- A file system and a clock. -/
structure Disk (m : Type → Type) where
  read : Path → m (Except FileError String)
  write : Path → String → m (Except FileError Unit)
  /-- Create a directory and all those above it, as far as they are missing. -/
  createDirs : Path → m (Except FileError Unit)
  now : m Nat

inductive FileNode where
  | directory
  | file (content : String)
  deriving DecidableEq

abbrev Place := List String

/-- What a path leads to. -/
inductive Spot where
  | directory (place : Place)
  | file (place : Place) (content : String)
  /-- A directory without an entry of this name; `slashed` tells that a slash follows the name. -/
  | vacant (place : Place) (slashed : Bool)

structure FileTree where
  nodes : Table Place FileNode

namespace FileTree

def empty : FileTree := ⟨.empty⟩

instance : Inhabited FileTree := ⟨empty⟩

def isGiven (place : Place) : Bool := place == ["/"] || place.all (· == "..")

def node? (t : FileTree) (place : Place) : Option FileNode :=
  if isGiven place then some .directory else t.nodes.get? place

def above (place : Place) : Place :=
  if place == ["/"] then place
  else if isGiven place then place ++ [".."]
  else place.dropLast

def nameLimit : Nat := 255

def pathLimit : Nat := 4095

/-- Follow segments from a directory. -/
def follow (t : FileTree) (place : Place) : List String → Except FileError Spot
  | [] => .ok (.directory place)
  | segment :: rest =>
    if segment == "" || segment == "." then t.follow place rest
    else if segment == ".." then t.follow (above place) rest
    else if segment.utf8ByteSize > nameLimit then .error .nameTooLong
    else
      match t.node? (place ++ [segment]) with
      | some .directory => t.follow (place ++ [segment]) rest
      | some (.file content) =>
        if rest.isEmpty then .ok (.file (place ++ [segment]) content) else .error .notDirectory
      | none =>
        if rest.all (· == "") then .ok (.vacant (place ++ [segment]) !rest.isEmpty)
        else .error .notFound

def segments (p : Path) : List String := (Text.splitAll '/' p.text.toList).map String.ofList

def start (p : Path) : Place := if p.isAbsolute then ["/"] else []

def locate (t : FileTree) (p : Path) : Except FileError Spot :=
  if p.text.toList.contains '\x00' then .error .nulInName
  else if p.text.isEmpty then .error .notFound
  else if p.text.utf8ByteSize > pathLimit then .error .nameTooLong
  else t.follow (start p) (segments p)

def read (t : FileTree) (p : Path) : Except FileError String :=
  match t.locate p with
  | .error e => .error e
  | .ok (.directory _) => .error .isDirectory
  | .ok (.file _ content) => .ok content
  | .ok (.vacant _ _) => .error .notFound

def put (t : FileTree) (place : Place) (n : FileNode) : FileTree := ⟨t.nodes.insert place n⟩

def write (t : FileTree) (p : Path) (content : String) : Except FileError FileTree :=
  match t.locate p with
  | .error e => .error e
  | .ok (.directory _) => .error .isDirectory
  | .ok (.file place _) => .ok (t.put place (.file content))
  | .ok (.vacant place slashed) =>
    if slashed then .error .isDirectory else .ok (t.put place (.file content))

/-- Follow segments and create the directories that are missing. -/
def create (t : FileTree) (place : Place) : List String → Except FileError FileTree
  | [] => .ok t
  | segment :: rest =>
    if segment == "" || segment == "." then t.create place rest
    else if segment == ".." then t.create (above place) rest
    else
      match t.node? (place ++ [segment]) with
      | some .directory => t.create (place ++ [segment]) rest
      | some (.file _) => .error (if rest.isEmpty then .alreadyExists else .notDirectory)
      | none => (t.put (place ++ [segment]) .directory).create (place ++ [segment]) rest

def createDirs (t : FileTree) (p : Path) : Except FileError FileTree :=
  if p.text.toList.contains '\x00' then .error .nulInName
  else if p.text.utf8ByteSize > pathLimit || (segments p).any (·.utf8ByteSize > nameLimit) then
    .error .nameTooLong
  else t.create (start p) (segments p)

def writeBelow (t : FileTree) (p : Path) (content : String) : Except FileError FileTree := do
  let t ← match p.parent? with
    | none => pure t
    | some parent => t.createDirs parent
  t.write p content

/-- Take a file, or a directory with all that is in it, away. -/
def remove (t : FileTree) (p : Path) : Except FileError FileTree :=
  match t.locate p with
  | .error e => .error e
  | .ok (.vacant _ _) => .error .notFound
  | .ok (.file place _) => .ok ⟨t.nodes.erase place⟩
  | .ok (.directory place) =>
    .ok ⟨(t.nodes.keys.filter place.isPrefixOf).foldl Table.erase t.nodes⟩

/-- The paths of all files below the working directory, in order. -/
def files (t : FileTree) : List String :=
  let shown := t.nodes.entries.filterMap fun e =>
    match e with
    | (place, .file _) =>
      if place.head? == some "/" || place.head? == some ".." then none
      else some (Text.joinWith "/" place)
    | (_, .directory) => none
  shown.mergeSort (fun a b => decide (a ≤ b))

/-- The tree as a disk whose clock stands still. -/
def disk : Disk (StateM FileTree) where
  read p := fun t => (t.read p, t)
  write p content := fun t =>
    match t.write p content with
    | .ok t' => (.ok (), t')
    | .error e => (.error e, t)
  createDirs p := fun t =>
    match t.createDirs p with
    | .ok t' => (.ok (), t')
    | .error e => (.error e, t)
  now := pure 0

end FileTree

end ComponentGlue
