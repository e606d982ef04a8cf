import ComponentGlue.Code.TypeRef
import ComponentGlue.Host.Declaration
import ComponentGlue.Table
import ComponentGlue.Text

set_option autoImplicit false
set_option relaxedAutoImplicit false

namespace ComponentGlue

/-- Access to a generated type or member; `package` access has no modifier. -/
inductive Visibility where
  | publicAccess
  | protectedAccess
  | packageAccess
  | privateAccess
  deriving DecidableEq, Inhabited

namespace Visibility

def all : List Visibility := [.publicAccess, .protectedAccess, .packageAccess, .privateAccess]

def text : Visibility → String
  | .publicAccess => "public"
  | .protectedAccess => "protected"
  | .packageAccess => "package"
  | .privateAccess => "private"

def ofText? (s : String) : Option Visibility := all.find? (fun v => v.text == s)

end Visibility

inductive Literal where
  | str (s : String)
  | int (i : Int)
  | bool (b : Bool)
  deriving DecidableEq

/-- A parameter of a generated method or constructor. -/
structure Parameter where
  name : String
  type : TypeRef
  isFinal : Bool

namespace Parameter

def plain (name : String) (type : TypeRef) : Parameter := ⟨name, type, false⟩

end Parameter

mutual

inductive Statement where
  | run (e : Expr)
  | assign (target value : Expr)
  | declare (type : TypeRef) (name : String) (value : Expr)
  | ret (value : Option Expr)
  | branch (condition : Expr) (body : List Statement)
  | tryFinally (body cleanup : List Statement)
  | labelled (label : String) (body : List Statement)

inductive Expr where
  | this
  | super
  | null
  | ident (name : String)
  | literal (value : Literal)
  | field (target : Expr) (name : String)
  | staticField (owner : TypeRef) (name : String)
  /-- A call without target is a call on the enclosing object. -/
  | call (target : Option Expr) (method : String) (args : List Expr)
  | new (type : TypeRef) (args : List Expr)
  | cast (type : TypeRef) (e : Expr)
  | classLiteral (type : TypeRef)
  | concat (parts : List Expr)
  | notNull (e : Expr)
  | equals (left right : Expr)
  | resource (ref : ResourceRef)
  | anonymous (implements : TypeRef) (methods : List Method)

/-- A method of a generated type or of an anonymous class. -/
structure Method where
  name : String
  doc : Option String
  visibility : Visibility
  isOverride : Bool
  isStatic : Bool
  params : List Parameter
  returns : TypeRef
  throws : List TypeRef
  body : List Statement

end

namespace Expr

def str (s : String) : Expr := .literal (.str s)

def int (i : Int) : Expr := .literal (.int i)

def bool (b : Bool) : Expr := .literal (.bool b)

def thisField (name : String) : Expr := .field .this name

def callHere (method : String) (args : List Expr) : Expr := .call none method args

def callOn (target : Expr) (method : String) (args : List Expr) : Expr :=
  .call (some target) method args

mutual
/-- The resources that an expression refers to, from left to right with repeats; the bodies of
anonymous classes are left out. -/
def resources : Expr → List ResourceRef
  | .resource ref => [ref]
  | .field target _ => target.resources
  | .call target _ args => resourcesTarget target ++ resourcesAll args
  | .new _ args => resourcesAll args
  | .cast _ e => e.resources
  | .notNull e => e.resources
  | .concat parts => resourcesAll parts
  | .equals left right => left.resources ++ right.resources
  | .this => []
  | .super => []
  | .null => []
  | .ident _ => []
  | .literal _ => []
  | .staticField _ _ => []
  | .classLiteral _ => []
  | .anonymous _ _ => []

def resourcesTarget : Option Expr → List ResourceRef
  | none => []
  | some e => e.resources

def resourcesAll : List Expr → List ResourceRef
  | [] => []
  | e :: es => e.resources ++ resourcesAll es
end

end Expr

namespace Statement

def emptyBlock (label : String) : Statement := .labelled label []

mutual
/-- The number of statements, nested ones included. -/
def count : Statement → Nat
  | .run _ => 1
  | .assign _ _ => 1
  | .declare _ _ _ => 1
  | .ret _ => 1
  | .branch _ body => 1 + countAll body
  | .tryFinally body cleanup => 1 + (countAll body + countAll cleanup)
  | .labelled _ body => countAll body

def countAll : List Statement → Nat
  | [] => 0
  | s :: rest => s.count + countAll rest
end

end Statement

namespace Method

/-- A public `void` method without parameters and with an empty body. -/
def new (name : String) : Method where
  name := name
  doc := none
  visibility := .publicAccess
  isOverride := false
  isStatic := false
  params := []
  returns := .void
  throws := []
  body := []

def statementCount (m : Method) : Nat := Statement.countAll m.body

/-- Change the first labelled block of this label among statements. -/
def updateBlock? (label : String) (f : List Statement → List Statement) :
    List Statement → Option (List Statement)
  | [] => none
  | .labelled l body :: rest =>
    if l = label then some (.labelled l (f body) :: rest)
    else (updateBlock? label f rest).map (.labelled l body :: ·)
  | s :: rest => (updateBlock? label f rest).map (s :: ·)

def blockIn? (label : String) : List Statement → Option (List Statement)
  | [] => none
  | .labelled l body :: rest => if l = label then some body else blockIn? label rest
  | _ :: rest => blockIn? label rest

def block? (m : Method) (label : String) : Option (List Statement) := blockIn? label m.body

def mapBlock? (m : Method) (label : String) (f : List Statement → List Statement) :
    Option Method :=
  (updateBlock? label f m.body).map fun body => { m with body }

end Method

structure Field where
  name : String
  type : TypeRef
  visibility : Visibility
  isFinal : Bool
  isStatic : Bool
  init : Option Expr

namespace Field

/-- A private instance field without initial value. -/
def new (name : String) (type : TypeRef) : Field where
  name := name
  type := type
  visibility := .privateAccess
  isFinal := false
  isStatic := false
  init := none

end Field

structure Constructor where
  visibility : Visibility
  params : List Parameter
  body : List Statement

structure GeneratedType where
  name : String
  /-- The host type it was derived from. -/
  origin : String
  extends? : Option TypeRef
  implements : List TypeRef
  isFinal : Bool
  fields : List Field
  constructors : List Constructor
  methods : List Method

namespace GeneratedType

/-- A type without supertypes and members. -/
def new (name origin : String) : GeneratedType where
  name := name
  origin := origin
  extends? := none
  implements := []
  isFinal := false
  fields := []
  constructors := []
  methods := []

def hasField (t : GeneratedType) (name : String) : Bool := t.fields.any (fun f => f.name == name)

def addField (t : GeneratedType) (f : Field) : GeneratedType :=
  if t.hasField f.name then t else { t with fields := t.fields ++ [f] }

def addMethod (t : GeneratedType) (m : Method) : GeneratedType :=
  { t with methods := t.methods ++ [m] }

def method? (t : GeneratedType) (name : String) : Option Method :=
  t.methods.find? (fun m => m.name == name)

def updateMethod (name : String) (f : Method → Method) : List Method → List Method
  | [] => []
  | m :: rest => if m.name == name then f m :: rest else m :: updateMethod name f rest

def mapMethod (t : GeneratedType) (name : String) (f : Method → Method) : GeneratedType :=
  { t with methods := updateMethod name f t.methods }

/-- Add a method unless there is one of that name. -/
def ensureMethod (t : GeneratedType) (name : String) (m : Method) : GeneratedType :=
  if (t.method? name).isSome then t else t.addMethod m

def block? (t : GeneratedType) (method label : String) : Option (List Statement) :=
  (t.method? method).bind (·.block? label)

def mapBlock? (t : GeneratedType) (method label : String) (f : List Statement → List Statement) :
    Option GeneratedType :=
  ((t.method? method).bind (·.mapBlock? label f)).map fun m => t.mapMethod method fun _ => m

def memberCount (t : GeneratedType) : Nat :=
  t.fields.length + t.constructors.length + t.methods.length

end GeneratedType

/-- Everything one run generates. -/
structure GenerationModel where
  types : Table String GeneratedType

namespace GenerationModel

def empty : GenerationModel := ⟨.empty⟩

instance : Inhabited GenerationModel := ⟨empty⟩

def insert (m : GenerationModel) (t : GeneratedType) : GenerationModel := ⟨m.types.insert t.name t⟩

def ensure (m : GenerationModel) (name : String) (t : GeneratedType) : GenerationModel :=
  if m.types.contains name then m else ⟨m.types.insert name t⟩

def get? (m : GenerationModel) (name : String) : Option GeneratedType := m.types.get? name

def modify (m : GenerationModel) (name : String) (f : GeneratedType → GeneratedType) :
    GenerationModel :=
  ⟨m.types.modify name f⟩

def typeList (m : GenerationModel) : List GeneratedType := m.types.values

def artifactCount (m : GenerationModel) : Nat := m.types.size

end GenerationModel

end ComponentGlue
