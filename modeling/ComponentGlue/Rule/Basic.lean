import ComponentGlue.Code.TypeRef
import ComponentGlue.Generation
import ComponentGlue.Validation

/-!
Rules: what a marker demands of a declaration and what it generates from one. The resources that the
output refers to are named up front, so that they can be compared with those that the check looked up.
-/

set_option autoImplicit false
set_option relaxedAutoImplicit false

namespace ComponentGlue

/-- The check and the output of one marker kind. -/
structure Rule where
  marker : Marker
  demand : String
  /-- Whether nothing can be checked without the resource catalog. -/
  requiresCatalog : Bool
  check : Subject → Checked Unit
  output : String
  /-- The resources that the output refers to, in order. -/
  resources : Declaration → List ResourceKey
  emit : Project → Declaration → List ResourceRef → Assemble Unit

namespace Rule

def validator (r : Rule) : Validator where
  kind := r.marker
  description := r.demand
  requiresCatalog := r.requiresCatalog
  check := fun s => (r.check s).verdict

def processor (r : Rule) : Processor where
  kind := r.marker
  description := r.output
  process := fun setting d => do
    let refs ← Assemble.ofExcept (setting.resources (r.resources d))
    r.emit setting.project d refs

end Rule

namespace Declaration

def argOrName (d : Declaration) (name : String) : String := (d.argStr? name).getD d.element.name

def fieldType (d : Declaration) : Assemble TypeRef :=
  Assemble.orFault (.noDeclaredType d.element) (d.element.type.map TypeRef.parse)

def assignField (d : Declaration) (value : Expr) : Statement :=
  .assign (.thisField d.element.name) value

end Declaration

namespace Element

def returnType (e : Element) : TypeRef :=
  match e.type with
  | some type => .parse type
  | none => .void

def overrideVisibility (e : Element) : Visibility :=
  if e.hasModifier .publicAccess then .publicAccess
  else if e.hasModifier .protectedAccess then .protectedAccess
  else .packageAccess

/-- An override of a host method: the same signature, final parameters and an empty body. -/
def overriding (e : Element) : Method :=
  { Method.new e.name with
    visibility := e.overrideVisibility
    isOverride := true
    returns := e.returnType
    params := e.params.map fun p => ⟨p.name, .parse p.type, true⟩
    throws := e.throws.map .parse }

def forwardArgs (e : Element) : List Expr := e.params.map fun p => .ident p.name

end Element

def outerRef (generated keyword : String) : Expr := .field (.ident (simpleName generated)) keyword

end ComponentGlue
