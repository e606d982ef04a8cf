import ComponentGlue.Table
import ComponentGlue.Text

set_option autoImplicit false
set_option relaxedAutoImplicit false

namespace ComponentGlue

/-- A kind of marker, such as `binds-view`. -/
structure Marker where
  name : String
  deriving DecidableEq, Inhabited

namespace Marker

def text (m : Marker) : String := "@" ++ m.name

instance : ToString Marker := ⟨text⟩

end Marker

inductive ResourceType where
  | layout
  | id
  | string
  | color
  | dimen
  | bool
  | integer
  | anim
  | drawable
  | menu
  deriving DecidableEq, Inhabited

namespace ResourceType

def all : List ResourceType :=
  [.layout, .id, .string, .color, .dimen, .bool, .integer, .anim, .drawable, .menu]

/-- The name of the type's section in a symbol table. -/
def text : ResourceType → String
  | .layout => "layout"
  | .id => "id"
  | .string => "string"
  | .color => "color"
  | .dimen => "dimen"
  | .bool => "bool"
  | .integer => "integer"
  | .anim => "anim"
  | .drawable => "drawable"
  | .menu => "menu"

def ofText? (s : String) : Option ResourceType := all.find? (fun t => t.text == s)

instance : ToString ResourceType := ⟨text⟩

end ResourceType

/-- Whether the compilation unit or the platform defines a resource. -/
inductive ResourceScope where
  | project
  | platform
  deriving DecidableEq

namespace ResourceScope

def text : ResourceScope → String
  | .project => "project"
  | .platform => "platform"

def symbolClass : ResourceScope → String
  | .project => "R"
  | .platform => "android.R"

instance : ToString ResourceScope := ⟨text⟩

end ResourceScope

/-- An entry of a symbol table as the host wrote it, of a type that may be unknown. -/
structure SymbolEntry where
  typeName : String
  name : String
  id : Int
  deriving DecidableEq

/-- What a resource is looked up by. -/
structure ResourceKey where
  type : ResourceType
  name : String
  deriving DecidableEq

namespace ResourceKey

def text (k : ResourceKey) : String := s!"R.{k.type}.{k.name}"

instance : ToString ResourceKey := ⟨text⟩

end ResourceKey

/-- A resolved resource: where it is defined and the number it has there. -/
structure ResourceRef where
  scope : ResourceScope
  type : ResourceType
  name : String
  id : Int
  deriving DecidableEq

namespace ResourceRef

def key (r : ResourceRef) : ResourceKey := ⟨r.type, r.name⟩

def symbolPath (r : ResourceRef) : String := s!"{r.scope.symbolClass}.{r.type}.{r.name}"

end ResourceRef

inductive ElementKind where
  | classType
  | interfaceType
  | method
  | field
  deriving DecidableEq, Inhabited

namespace ElementKind

def all : List ElementKind := [.classType, .interfaceType, .method, .field]

def text : ElementKind → String
  | .classType => "class"
  | .interfaceType => "interface"
  | .method => "method"
  | .field => "field"

def ofText? (s : String) : Option ElementKind := all.find? (fun k => k.text == s)

def isType : ElementKind → Bool
  | .classType | .interfaceType => true
  | .method | .field => false

instance : ToString ElementKind := ⟨text⟩

end ElementKind

inductive Modifier where
  | publicAccess
  | protectedAccess
  | privateAccess
  | static
  | final
  | abstract
  deriving DecidableEq

namespace Modifier

def all : List Modifier := [.publicAccess, .protectedAccess, .privateAccess, .static, .final, .abstract]

def text : Modifier → String
  | .publicAccess => "public"
  | .protectedAccess => "protected"
  | .privateAccess => "private"
  | .static => "static"
  | .final => "final"
  | .abstract => "abstract"

def ofText? (s : String) : Option Modifier := all.find? (fun m => m.text == s)

end Modifier

/-- A parameter of a host method. -/
structure Param where
  name : String
  type : String
  deriving DecidableEq

/-- A method that a host type declares; no return type means `void`. -/
structure MethodSig where
  name : String
  params : List Param
  returns : Option String
  deriving DecidableEq

/-- One host declaration. The owner of a type is its package, the owner of a member its enclosing
type. -/
structure Element where
  kind : ElementKind
  name : String
  owner : String
  /-- The type of a field or the return type of a method. -/
  type : Option String
  params : List Param
  modifiers : List Modifier
  throws : List String
  supertypes : List String
  methods : List MethodSig
  deriving DecidableEq

namespace Element

/-- The name that identifies the element among all host declarations. -/
def qualifiedName (e : Element) : String :=
  if e.kind.isType then
    if e.owner.isEmpty then e.name else e.owner ++ "." ++ e.name
  else e.owner ++ "#" ++ e.name

/-- The qualified name of the type a member is declared in. -/
def enclosingType? (e : Element) : Option String :=
  if e.kind.isType || e.owner.isEmpty then none else some e.owner

def hasModifier (e : Element) (m : Modifier) : Bool := e.modifiers.contains m

def returnsVoid (e : Element) : Bool := e.type = none || e.type = some "void"

def paramTypes (e : Element) : List String := e.params.map Param.type

def text (e : Element) : String := e.kind.text ++ " " ++ e.qualifiedName

instance : ToString Element := ⟨text⟩

end Element

inductive Argument where
  | bool (b : Bool)
  | int (i : Int)
  | str (s : String)
  | list (items : List Argument)

namespace Argument

instance : Inhabited Argument := ⟨.bool false⟩

def str? : Argument → Option String
  | .str s => some s
  | _ => none

def int? : Argument → Option Int
  | .int i => some i
  | _ => none

def bool? : Argument → Option Bool
  | .bool b => some b
  | _ => none

def strings? : Argument → Option (List String)
  | .str s => some [s]
  | .list items => items.mapM str?
  | _ => none

mutual
def text : Argument → String
  | .bool b => if b then "true" else "false"
  | .int i => toString i
  | .str s => "\"" ++ s ++ "\""
  | .list items => "[" ++ textAll items ++ "]"

def textAll : List Argument → String
  | [] => ""
  | [a] => a.text
  | a :: b :: rest => a.text ++ ", " ++ textAll (b :: rest)
end

instance : ToString Argument := ⟨text⟩

end Argument

/-- An element and marker arguments as the host hands them over for one marker kind. -/
structure RawDeclaration where
  element : Element
  args : Table String Argument

/-- One element, one of its markers and that marker's arguments. -/
structure Declaration where
  marker : Marker
  element : Element
  args : Table String Argument

namespace RawDeclaration

def marked (r : RawDeclaration) (marker : Marker) : Declaration := ⟨marker, r.element, r.args⟩

end RawDeclaration

namespace Declaration

def qualifiedName (d : Declaration) : String := d.element.qualifiedName

def arg? (d : Declaration) (name : String) : Option Argument := d.args.get? name

def argStr? (d : Declaration) (name : String) : Option String := (d.arg? name).bind Argument.str?

def argInt? (d : Declaration) (name : String) : Option Int := (d.arg? name).bind Argument.int?

def argStrings? (d : Declaration) (name : String) : Option (List String) :=
  (d.arg? name).bind Argument.strings?

def text (d : Declaration) : String := s!"{d.marker} on {d.element}"

instance : ToString Declaration := ⟨text⟩

end Declaration

/-- Declarations by marker kind, in the order in which kinds and declarations were found. -/
structure DeclarationModel where
  groups : Table Marker (List Declaration)

namespace DeclarationModel

def empty : DeclarationModel := ⟨.empty⟩

instance : Inhabited DeclarationModel := ⟨empty⟩

def declarations (m : DeclarationModel) (kind : Marker) : List Declaration :=
  (m.groups.get? kind).getD []

def kinds (m : DeclarationModel) : List Marker := m.groups.keys

def isAnnotated (m : DeclarationModel) (qualified : String) (kind : Marker) : Bool :=
  (m.declarations kind).any fun d => d.qualifiedName == qualified

def all (m : DeclarationModel) : List Declaration := m.groups.values.flatten

def first? (m : DeclarationModel) : Option Declaration := m.all.head?

def size (m : DeclarationModel) : Nat := m.all.length

def add (m : DeclarationModel) (d : Declaration) : DeclarationModel :=
  ⟨m.groups.insert d.marker (m.declarations d.marker ++ [d])⟩

def ofList (ds : List Declaration) : DeclarationModel := ds.foldl add empty

/-- Append the declarations whose qualified name is not in the list yet. -/
def appendNew (found : List Declaration) : List Declaration → List Declaration
  | [] => found
  | d :: ds =>
    if found.any fun e => e.qualifiedName == d.qualifiedName then appendNew found ds
    else appendNew (found ++ [d]) ds

/-- Take in the host's declarations of one kind; a kind without declarations is kept too. -/
def addBatch (m : DeclarationModel) (kind : Marker) (raw : List RawDeclaration) :
    DeclarationModel :=
  ⟨m.groups.insert kind (appendNew (m.declarations kind) (raw.map (·.marked kind)))⟩

/-- The model of the host's batches. -/
def extract (batches : List (Marker × List RawDeclaration)) : DeclarationModel :=
  batches.foldl (fun m b => m.addBatch b.1 b.2) empty

end DeclarationModel

end ComponentGlue
