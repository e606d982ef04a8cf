import ComponentGlue.Marker
import ComponentGlue.Rule.Basic

set_option autoImplicit false
set_option relaxedAutoImplicit false

namespace ComponentGlue

namespace BoundView

def check (s : Subject) : Checked Unit := do
  if ← s.componentMember .field then
    let _ ← s.without .static
    let _ ← s.fieldType
    if let some id ← s.strOr "id" s.element.name then
      let _ ← s.resource .id id

def resources (d : Declaration) : List ResourceKey := [⟨.id, d.argOrName "id"⟩]

def bind (d : Declaration) (type : TypeRef) (view : ResourceRef) : Statement :=
  d.assignField (.cast type (.callHere "findViewById" [.resource view]))

def emit (_ : Project) (d : Declaration) (views : List ResourceRef) : Assemble Unit := do
  let type ← d.fieldType
  Assemble.modifyCreation d.element.owner .bindViews (· ++ views.map (bind d type))

def rule : Rule where
  marker := .bindsView
  demand := "View fields must be assignable from the subclass and name a known id"
  requiresCatalog := true
  check := check
  output := "Assigns the field from findViewById in the bind-views section"
  resources := resources
  emit := emit

end BoundView

namespace HtmlText

def textViews : List String :=
  ["android.widget.TextView", "android.widget.EditText", "android.widget.Button",
    "android.widget.CheckBox"]

def check (s : Subject) : Checked Unit := do
  if ← s.componentMember .field then
    let _ ← s.alsoMarked .bindsView
    if let some type ← s.fieldType then
      let views := Text.joinWith ", " textViews
      let _ ← Checked.require (typeMatchesAny type textViews)
        s!"{Marker.fromHtml} field must be a text view ({views}), found {type}"
    if let some name ← s.strOr "name" s.element.name then
      let _ ← s.resource .string name

def resources (d : Declaration) : List ResourceKey := [⟨.string, d.argOrName "name"⟩]

def setText (d : Declaration) (html : ResourceRef) : Statement :=
  .run (.callOn (.thisField d.element.name) "setText"
    [.callOn (.ident "android.text.Html") "fromHtml" [.callHere "getString" [.resource html]]])

def emit (_ : Project) (d : Declaration) (texts : List ResourceRef) : Assemble Unit :=
  Assemble.modifyCreation d.element.owner .bindViews (· ++ texts.map (setText d))

def rule : Rule where
  marker := .fromHtml
  demand := "HTML text fields must be bound text views and name a known string"
  requiresCatalog := true
  check := check
  output := "Sets the bound view's text from an HTML string resource in the bind-views section"
  resources := resources
  emit := emit

end HtmlText

namespace ResourceKind

def check (k : ResourceKind) (s : Subject) : Checked Unit := do
  if ← s.componentMember .field then
    if let some type ← s.fieldType then
      let accepted := Text.joinWith ", " k.acceptedTypes
      let _ ← Checked.require (k.accepts type)
        s!"{k.marker} field must be one of {accepted}, found {type}"
    if let some name ← s.strOr "name" s.element.name then
      let _ ← s.resource k.resourceType name

def resources (k : ResourceKind) (d : Declaration) : List ResourceKey :=
  [⟨k.resourceType, d.argOrName "name"⟩]

/-- The loaded resource. Animations come from the animation utilities, all else from the component's
resources. -/
def value (k : ResourceKind) (d : Declaration) (ref : ResourceRef) : Expr :=
  let accessor := k.accessor (d.element.type.getD "")
  match k with
  | .anim =>
    .callOn (.ident "android.view.animation.AnimationUtils") accessor [.this, .resource ref]
  | _ => .callOn (.callHere "getResources" []) accessor [.resource ref]

def emit (k : ResourceKind) (_ : Project) (d : Declaration) (refs : List ResourceRef) :
    Assemble Unit :=
  Assemble.modifyCreation d.element.owner .inject
    (· ++ refs.map fun ref => d.assignField (k.value d ref))

def rule (k : ResourceKind) : Rule where
  marker := k.marker
  demand := "Resource fields must have a compatible type and name a known resource"
  requiresCatalog := true
  check := k.check
  output := "Assigns the field from the matching Resources accessor in the inject section"
  resources := k.resources
  emit := k.emit

end ResourceKind

namespace Extra

def injectExtras : String := "injectExtras"

def extras : String := "extras_"

def check (s : Subject) : Checked Unit := do
  if ← s.componentMember .field then
    let _ ← s.fieldType
    if (← s.strOr "key" s.element.name) = some "" then
      Checked.error s!"{Marker.extra} key must not be empty"

/-- The method that reads the extras, with an empty guard. -/
def injectMethod : Method :=
  { Method.new injectExtras with
    visibility := .privateAccess
    body :=
      [.declare (.named "android.os.Bundle") extras
          (.callOn (.callHere "getIntent" []) "getExtras" []),
        .branch (.notNull (.ident extras)) []] }

def addToGuard? (s : Statement) : List Statement → Option (List Statement)
  | [] => none
  | [.branch condition body] => some [.branch condition (body ++ [s])]
  | [_] => none
  | t :: rest => (addToGuard? s rest).map (t :: ·)

def readExtra (d : Declaration) (key : String) (type : TypeRef) : Statement :=
  .branch (.callOn (.ident extras) "containsKey" [.str key])
    [d.assignField (.cast type (.callOn (.ident extras) "get" [.str key]))]

def ensureInjectMethod (owner : String) : Assemble Unit := do
  let type ← Assemble.componentType owner
  if (type.method? injectExtras).isNone then
    Assemble.modifyComponent owner (·.addMethod injectMethod)
    Assemble.appendCreation owner .inject (.run (.callHere injectExtras []))

def appendToGuard (owner : String) (s : Statement) : Assemble Unit := do
  let type ← Assemble.componentType owner
  let body ← Assemble.orFault (.lostExtrasGuard type.name injectExtras)
    ((type.method? injectExtras).bind fun m => addToGuard? s m.body)
  Assemble.modifyComponent owner (·.mapMethod injectExtras fun m => { m with body })

def emit (_ : Project) (d : Declaration) (_ : List ResourceRef) : Assemble Unit := do
  let type ← d.fieldType
  ensureInjectMethod d.element.owner
  appendToGuard d.element.owner (readExtra d (d.argOrName "key") type)

def rule : Rule where
  marker := .extra
  demand := "Extra fields must be assignable and use a non-empty key"
  requiresCatalog := false
  check := check
  output := "Assigns the field from the intent extras when the key is present"
  resources := fun _ => []
  emit := emit

end Extra

namespace SystemService

def check (s : Subject) : Checked Unit := do
  if ← s.componentMember .field then
    if let some type ← s.fieldType then
      let _ ← Checked.require (s.context.project.services.constantFor? type).isSome
        s!"{type} is not a known system service"

def value (qualified constant : String) : Expr :=
  .cast (.named qualified)
    (.callHere "getSystemService" [.staticField (.named "android.content.Context") constant])

def emit (project : Project) (d : Declaration) (_ : List ResourceRef) : Assemble Unit := do
  let type := d.element.type.getD ""
  let constant ← Assemble.orFault (.unknownService type) (project.services.constantFor? type)
  let qualified := (project.services.qualified? type).getD type
  Assemble.appendCreation d.element.owner .inject (d.assignField (value qualified constant))

def rule : Rule where
  marker := .systemService
  demand := "System service fields must have a known service type"
  requiresCatalog := false
  check := check
  output := "Assigns the field from getSystemService in the inject section"
  resources := fun _ => []
  emit := emit

end SystemService

namespace ApplicationField

def check (s : Subject) : Checked Unit := do
  if ← s.componentMember .field then
    match s.context.project.application with
    | none => Checked.error s!"{Marker.application} requires [project].application in tagsmith.toml"
    | some application =>
      if let some type ← s.fieldType then
        let _ ← Checked.require (typeMatches type application)
          s!"{Marker.application} field must have type {application}, found {type}"

def emit (project : Project) (d : Declaration) (_ : List ResourceRef) : Assemble Unit := do
  let application ← Assemble.orFault .noApplication project.application
  Assemble.appendCreation d.element.owner .inject
    (d.assignField (.cast (.named application) (.callHere "getApplication" [])))

def rule : Rule where
  marker := .application
  demand := "Application fields must match the declared application class"
  requiresCatalog := false
  check := check
  output := "Assigns the field from getApplication in the inject section"
  resources := fun _ => []
  emit := emit

end ApplicationField

end ComponentGlue
