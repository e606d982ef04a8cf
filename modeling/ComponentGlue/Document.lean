set_option autoImplicit false
set_option relaxedAutoImplicit false

namespace ComponentGlue

inductive Document where
  | null
  | bool (b : Bool)
  | int (i : Int)
  /-- A number with a fraction or an exponent, as it was written. -/
  | real (text : String)
  | str (s : String)
  | arr (items : List Document)
  | obj (fields : List (String × Document))

namespace Document

instance : Inhabited Document := ⟨.null⟩

def ofOption {α : Type} (f : α → Document) : Option α → Document
  | none => .null
  | some a => f a

def ofNat (n : Nat) : Document := .int n

def ofStrings (l : List String) : Document := .arr (l.map .str)

def pair (a b : Document) : Document := .arr [a, b]

def tagged (kind : String) (fields : List (String × Document)) : Document :=
  .obj (("kind", .str kind) :: fields)

def field? (name : String) : Document → Option Document
  | .obj fields => (fields.find? (fun e => e.1 == name)).map Prod.snd
  | _ => none

end Document

abbrev Decode (α : Type) := Document → Option α

namespace Decode

variable {α β : Type}

def document : Decode Document := some

def str : Decode String
  | .str s => some s
  | _ => none

def bool : Decode Bool
  | .bool b => some b
  | _ => none

def fitsSigned (i : Int) : Bool := -9223372036854775808 ≤ i && i ≤ 9223372036854775807

def int : Decode Int
  | .int i => if fitsSigned i then some i else none
  | _ => none

def list (item : Decode α) : Decode (List α)
  | .arr items => items.mapM item
  | _ => none

def strings : Decode (List String) := list str

def pair (first : Decode α) (second : Decode β) : Decode (α × β)
  | .arr [a, b] => do return (← first a, ← second b)
  | _ => none

def nullable (item : Decode α) : Decode (Option α)
  | .null => some none
  | d => (item d).map some

def isNull : Document → Bool
  | .null => true
  | _ => false

def isEmptyObject : Document → Bool
  | .obj [] => true
  | _ => false

/-- A string that names one of several alternatives, alone or as the only field of an object. The
field's value says nothing, which is for `isNothing` to tell. -/
def named (isNothing : Document → Bool) (ofText? : String → Option α) : Decode α
  | .str s => ofText? s
  | .obj [(s, d)] => if isNothing d then ofText? s else none
  | _ => none

end Decode

namespace Document

variable {α : Type}

def required (d : Document) (name : String) (item : Decode α) : Option α :=
  (d.field? name).bind item

/-- A field that may be absent or null. -/
def optional (d : Document) (name : String) (item : Decode α) : Option (Option α) :=
  match d.field? name with
  | none => some none
  | some value => Decode.nullable item value

def optionalOr (d : Document) (name : String) (default : α) (item : Decode α) : Option α :=
  (d.optional name item).map (·.getD default)

/-- A field with a default that may be absent. -/
def withDefault (d : Document) (name : String) (default : α) (item : Decode α) : Option α :=
  match d.field? name with
  | none => some default
  | some value => item value

/-- An array taken for an object whose fields are given by position; fields at the end may be left
out. -/
def positional (names : List String) : Document → Document
  | .arr items => .obj (names.zip items)
  | d => d

/-- As `positional`, with no more items than there are names. -/
def positionalExact (names : List String) : Document → Document
  | .arr items => if items.length ≤ names.length then .obj (names.zip items) else .null
  | d => d

end Document

end ComponentGlue
