import ComponentGlue.Document
import ComponentGlue.Toml.Scalar

/-!
Reading TOML. The lines of a text fill the tables of one document; how a table came to be decides who may
add to it.
-/

set_option autoImplicit false
set_option relaxedAutoImplicit false

namespace ComponentGlue.Toml

/-- How a table came to be. -/
inductive Making where
  /-- A header names it, or it is the table of the whole text. -/
  | header
  /-- A longer header passes through it. -/
  | implied
  /-- A dotted key passes through it. -/
  | dotted
  deriving DecidableEq

inductive Node where
  | closed (d : Document)
  | table (making : Making) (fields : List (String × Node))
  | series (done : List Document) (fields : List (String × Node))

abbrev Fields := List (String × Node)

mutual
def Node.toDocument : Node → Document
  | .closed d => d
  | .table _ fields => .obj (documents fields)
  | .series done fields => .arr (done ++ [.obj (documents fields)])

def documents : List (String × Node) → List (String × Document)
  | [] => []
  | (name, n) :: rest => (name, n.toDocument) :: documents rest
end

namespace Fields

def get? (name : String) (fields : Fields) : Option Node :=
  (fields.find? (fun e => e.1 == name)).map Prod.snd

def set (name : String) (n : Node) (fields : Fields) : Fields :=
  fields.map fun e => if e.1 == name then (name, n) else e

def add (name : String) (n : Node) (fields : Fields) : Fields := fields ++ [(name, n)]

/-- Change the table that a path leads to. Tables missing on the way are made; a value is in the
way, and so is, for a dotted key, a table with a header. -/
def changeAt (byDottedKey : Bool) (change : Making → Fields → Option Fields) (making : Making) :
    List String → Fields → Option Fields
  | [], fields => change making fields
  | name :: path, fields =>
    match fields.get? name with
    | none =>
      let making := if byDottedKey then Making.dotted else Making.implied
      (changeAt byDottedKey change making path []).map fun inner =>
        fields.add name (.table making inner)
    | some (.closed _) => none
    | some (.table making inner) =>
      if byDottedKey && making = .header then none
      else
        (changeAt byDottedKey change making path inner).map fun inner =>
          fields.set name (.table making inner)
    | some (.series done inner) =>
      (changeAt byDottedKey change .header path inner).map fun inner =>
        fields.set name (.series done inner)

/-- Give a new field of a table its value. A name alone cannot add to a table made by dotted keys,
and a dotted key only to such a table. -/
def assign (path : List String) (name : String) (value : Document) : Fields → Option Fields :=
  changeAt true (fun making fields =>
    if decide (making = .dotted) == path.isEmpty then none
    else
      match fields.get? name with
      | none => some (fields.add name (.closed value))
      | some _ => none) .header path

def openTable (path : List String) (name : String) : Fields → Option Fields :=
  changeAt false (fun _ fields =>
    match fields.get? name with
    | none => some (fields.add name (.table .header []))
    | some (.table .implied inner) => some (fields.set name (.table .header inner))
    | some _ => none) .header path

/-- Open the next table of an array of tables. -/
def openNext (path : List String) (name : String) : Fields → Option Fields :=
  changeAt false (fun _ fields =>
    match fields.get? name with
    | none => some (fields.add name (.series [] []))
    | some (.series done inner) =>
      some (fields.set name (.series (done ++ [.obj (documents inner)]) []))
    | some _ => none) .header path

def assignIn (place : List String) (path : List String) (name : String) (value : Document) :
    Fields → Option Fields :=
  changeAt false (fun _ fields => fields.assign path name value) .header place

end Fields

end ComponentGlue.Toml

namespace ComponentGlue

namespace Toml

open Text (Scan)

def isBareKeyChar (c : Char) : Bool := c.isAlphanum || c = '_' || c = '-'

def scanSimpleKey : Scan String := fun s =>
  match Scan.run isBareKeyChar s with
  | ([], _) => scanLineString s
  | (chars, rest) => some (String.ofList chars, rest)

def scanNextKey : Scan String := fun s => do
  let rest ← after? '.' (skipBlanks s)
  scanSimpleKey (skipBlanks rest)

def partLimit : Nat := 80

/-- A key as the path to its last part, and that part. -/
def scanKey : Scan (List String × String) := fun s => do
  let (first, rest) ← scanSimpleKey (skipBlanks s)
  let (more, rest) := Scan.many scanNextKey rest
  let parts := first :: more
  if parts.length ≤ partLimit then
    return ((parts.dropLast, more.getLastD first), skipBlanks rest)
  else none

def scanAssignment (skip : List Char → List Char) (value : Scan Document) :
    Scan ((List String × String) × Document) := fun s => do
  let (key, rest) ← scanKey (skip s)
  let rest ← after? '=' (skip rest)
  let (v, rest) ← value (skip rest)
  return ((key, v), rest)

def listEnd {α : Type} (bracket : Char) (before : List α) (s : List Char) : Option (List Char) :=
  match skipLines s with
  | ',' :: rest => if before.isEmpty then none else after? bracket (skipLines rest)
  | rest => after? bracket rest

def scanItem (value : Scan Document) (before : List Document) : Scan (List Document) := fun s => do
  let rest ← if before.isEmpty then some s else after? ',' (skipLines s)
  let (v, rest) ← value (skipLines rest)
  return (v :: before, rest)

def scanField (value : Scan Document) (before : Fields) : Scan Fields := fun s => do
  let rest ← if before.isEmpty then some s else after? ',' (skipLines s)
  let ((key, v), rest) ← scanAssignment skipLines value rest
  return (← before.assign key.1 key.2 v, rest)

def scanScalar : Scan Document := fun s =>
  let (text, rest) := splitScalar s
  (scalar? text).map fun d => (d, rest)

/-- A value with less than `depth` arrays and inline tables around one another. -/
def scanValue : Nat → Scan Document
  | 0 => fun _ => none
  | depth + 1 => fun s =>
    match s with
    | '"' :: _ => (scanString s).map fun (text, rest) => (.str text, rest)
    | '\'' :: _ => (scanString s).map fun (text, rest) => (.str text, rest)
    | '[' :: rest =>
      if depth = 0 then none
      else
        (Scan.foldUntil (listEnd ']') (scanItem (scanValue depth)) [] rest).map
          fun (items, rest) => (.arr items.reverse, rest)
    | '\x7b' :: rest =>
      if depth = 0 then none
      else
        (Scan.foldUntil (listEnd '\x7d') (scanField (scanValue depth)) [] rest).map
          fun (fields, rest) => (.obj (documents fields), rest)
    | _ => scanScalar s

def depthLimit : Nat := 81

/-- What has been read of a text: all fields, and the table that the last header has opened. -/
structure Reading where
  fields : Fields
  place : List String

def scanTableHeader (r : Reading) : Scan Reading := fun s => do
  let ((path, name), rest) ← scanKey s
  let rest ← after? ']' rest
  return (⟨← r.fields.openTable path name, path ++ [name]⟩, rest)

def scanSeriesHeader (r : Reading) : Scan Reading := fun s => do
  let ((path, name), rest) ← scanKey s
  let rest ← after? ']' (← after? ']' rest)
  return (⟨← r.fields.openNext path name, path ++ [name]⟩, rest)

/-- What a line says, up to the blanks before its end. -/
def scanStatement (r : Reading) : Scan Reading := fun s =>
  match s with
  | '[' :: '[' :: rest => scanSeriesHeader r rest
  | '[' :: rest => scanTableHeader r rest
  | _ => do
    let ((key, v), rest) ← scanAssignment skipBlanks (scanValue depthLimit) s
    return (⟨← r.fields.assignIn r.place key.1 key.2 v, r.place⟩, rest)

def scanLine (r : Reading) : Scan Reading := fun s =>
  match afterLine s with
  | some rest => some (r, rest)
  | none => do
    let (r, rest) ← scanStatement r (skipBlanks s)
    return (r, ← afterLine rest)

def textEnd (_ : Reading) (s : List Char) : Option (List Char) := if s.isEmpty then some s else none

def withoutMark : List Char → List Char
  | '\uFEFF' :: rest => rest
  | s => s

end Toml

namespace Document

open Text (Scan)

/-- The document that a TOML text holds. -/
def ofToml? (text : String) : Option Document :=
  (Scan.foldUntil Toml.textEnd Toml.scanLine ⟨[], []⟩ (Toml.withoutMark text.toList)).map
    fun (r, _) => .obj (Toml.documents r.fields)

end Document

end ComponentGlue
