import ComponentGlue.Marker
import ComponentGlue.Rule.Basic

set_option autoImplicit false
set_option relaxedAutoImplicit false

namespace ComponentGlue

namespace Component

def check (s : Subject) : Checked Unit := do
  if ← s.elementKind [.classType] then
    let _ ← s.without .final
    let _ ← s.without .privateAccess
    let _ ← s.without .abstract
    let qualified := s.declaration.qualifiedName
    let _ ← Checked.require (s.context.project.isRegistered qualified)
      s!"{qualified} is not registered in [project].components"
    if let some layout ← s.optionalStr "layout" then
      let _ ← s.resource .layout layout

def resources (d : Declaration) : List ResourceKey :=
  (d.argStr? "layout").toList.map fun layout => ⟨.layout, layout⟩

def creationBody (layouts : List ResourceRef) : List Statement :=
  [.emptyBlock CreationBlock.beforeCreate.label, .emptyBlock CreationBlock.inject.label,
    .run (.callOn .super onCreate [.ident "savedInstanceState"])] ++
  layouts.map (fun layout => .run (.callHere "setContentView" [.resource layout])) ++
  [.emptyBlock CreationBlock.bindViews.label, .emptyBlock CreationBlock.bindListeners.label,
    .emptyBlock CreationBlock.afterViews.label]

def creationMethod (layouts : List ResourceRef) : Method :=
  { Method.new onCreate with
    isOverride := true
    params := [.plain "savedInstanceState" (.named "android.os.Bundle")]
    body := creationBody layouts }

def subclass (generated origin : String) (layouts : List ResourceRef) : GeneratedType :=
  { GeneratedType.new generated origin with
    extends? := some (.named origin)
    methods := [creationMethod layouts] }

def emit (project : Project) (d : Declaration) (layouts : List ResourceRef) : Assemble Unit := do
  let origin := d.qualifiedName
  let generated := project.generatedName origin
  Assemble.insertType (subclass generated origin layouts)
  Assemble.modify (·.registerComponent origin generated)

def rule : Rule where
  marker := .enhancedComponent
  demand := "Component classes must be subclassable and registered"
  requiresCatalog := false
  check := check
  output := "Generates a subclass with an onCreate holding ordered injection sections"
  resources := resources
  emit := emit

end Component

namespace PreferenceHelper

def valueTypes : List String := ["int", "long", "float", "boolean", "java.lang.String"]

def checkGetter (m : MethodSig) : Checked Unit := do
  let _ ← Checked.require m.params.isEmpty s!"preference {m.name} must not take parameters"
  let type := m.returns.getD "void"
  let _ ← Checked.require (typeMatchesAny type valueTypes)
    s!"preference {m.name} must return int, long, float, boolean or String, found {type}"

def check (s : Subject) : Checked Unit := do
  if ← s.elementKind [.interfaceType] then
    Checked.each s.element.methods checkGetter

def preferences : String := "preferences_"

/-- The call that reads a value of this type, and the value it has by default. -/
def getter? (type : String) : Option (String × Expr) :=
  if typeMatches type "int" then some ("getInt", .int 0)
  else if typeMatches type "long" then some ("getLong", .int 0)
  else if typeMatches type "float" then some ("getFloat", .int 0)
  else if typeMatches type "boolean" then some ("getBoolean", .bool false)
  else if typeMatches type "java.lang.String" then some ("getString", .null)
  else none

/-- The implementation of one getter. -/
def accessor (m : MethodSig) : Except Fault Method :=
  let type := m.returns.getD "void"
  match getter? type with
  | none => .error (.unsupportedPreference m.name type)
  | some (getter, default) =>
    .ok { Method.new m.name with
      isOverride := true
      returns := .parse type
      body := [.ret (some (.callOn (.thisField preferences) getter [.str m.name, default]))] }

def accessors : List MethodSig → Except Fault (List Method)
  | [] => .ok []
  | m :: ms =>
    match accessor m with
    | .error f => .error f
    | .ok method => (accessors ms).map (method :: ·)

def constructor (origin : String) : Constructor where
  visibility := .publicAccess
  params := [.plain "context" (.named "android.content.Context")]
  body := [.assign (.thisField preferences)
    (.callOn (.ident "context") "getSharedPreferences" [.str (simpleName origin), .int 0])]

/-- The generated helper class. -/
def helper (generated origin : String) (methods : List Method) : GeneratedType :=
  { GeneratedType.new generated origin with
    implements := [.named origin]
    isFinal := true
    fields :=
      [{ Field.new preferences (.named "android.content.SharedPreferences") with isFinal := true }]
    constructors := [constructor origin]
    methods := methods }

def emit (project : Project) (d : Declaration) (_ : List ResourceRef) : Assemble Unit := do
  let origin := d.qualifiedName
  let methods ← Assemble.ofExcept (accessors d.element.methods)
  Assemble.insertType (helper (project.generatedName origin) origin methods)

def rule : Rule where
  marker := .sharedPref
  demand := "Preference interfaces may only declare typed getters"
  requiresCatalog := false
  check := check
  output := "Generates a helper implementing each getter from SharedPreferences"
  resources := fun _ => []
  emit := emit

end PreferenceHelper

namespace PreferenceField

def helperOrigin? (context : ValidationContext) (type : String) : Option String :=
  ((context.extracted.declarations .sharedPref).map Declaration.qualifiedName).find? fun origin =>
    typeMatches type (context.project.generatedName origin)

def check (s : Subject) : Checked Unit := do
  if ← s.componentMember .field then
    if let some type ← s.fieldType then
      match helperOrigin? s.context type with
      | some origin => Subject.dependsOn origin .sharedPref
      | none =>
        Checked.error <|
          s!"{Marker.pref} field type {type} is not a helper generated for a " ++
            s!"{Marker.sharedPref} interface"

def emit (_ : Project) (d : Declaration) (_ : List ResourceRef) : Assemble Unit := do
  let type ← d.fieldType
  Assemble.appendCreation d.element.owner .inject (d.assignField (.new type [.this]))

def rule : Rule where
  marker := .pref
  demand := "Preference fields must hold the helper generated for a @shared-pref interface"
  requiresCatalog := false
  check := check
  output := "Assigns a new preference helper bound to the component in the inject section"
  resources := fun _ => []
  emit := emit

end PreferenceField

namespace RestClient

def isRequest (extracted : DeclarationModel) (member : String) : Bool :=
  HttpMethod.all.any fun http => extracted.isAnnotated member http.marker

def check (s : Subject) : Checked Unit := do
  if ← s.elementKind [.interfaceType] then
    let _ ← s.optionalStr "root_url"
    let markers := Text.joinWith ", " (HttpMethod.all.map fun http => http.marker.text)
    Checked.each s.element.methods fun m => do
      let member := s.declaration.qualifiedName ++ "#" ++ m.name
      let _ ← Checked.require (isRequest s.context.extracted member)
        s!"{member} must carry one of {markers}"

def restTemplate : String := "restTemplate"

def rootUrl : String := "rootUrl"

/-- The generated client class without its requests. -/
def client (generated interface url : String) : GeneratedType :=
  let template : TypeRef := .named "org.springframework.web.client.RestTemplate"
  { GeneratedType.new generated interface with
    implements := [.named interface]
    isFinal := true
    fields :=
      [{ Field.new restTemplate template with init := some (.new template []) },
        { Field.new rootUrl .string with init := some (.str url) }] }

def emit (project : Project) (d : Declaration) (_ : List ResourceRef) : Assemble Unit := do
  let interface := d.qualifiedName
  let generated := project.generatedName interface
  Assemble.insertType (client generated interface ((d.argStr? "root_url").getD ""))
  Assemble.modify (·.registerRestClient interface generated)

def rule : Rule where
  marker := .rest
  demand := "REST interfaces may only declare request methods"
  requiresCatalog := false
  check := check
  output := "Generates a client class holding the rest template and root url"
  resources := fun _ => []
  emit := emit

end RestClient

namespace HttpMethod

def unboundParams (element : Element) (placeholders : List String) : List Param :=
  element.params.filter fun p => !placeholders.contains p.name

/-- The result type is one that the request can have. -/
def checkResponse (http : HttpMethod) (s : Subject) : Checked Unit := do
  match http.responseTypes with
  | [] => pure ()
  | qualified :: others =>
    let type := s.element.type.getD "void"
    let _ ← Checked.require (typeMatchesAny type (qualified :: others))
      s!"{http.marker} method must return {qualified}, found {type}"

/-- Every placeholder is a parameter, and every other parameter is a body the request can have. -/
def checkUrl (http : HttpMethod) (s : Subject) (url : String) : Checked Unit := do
  let placeholders := urlPlaceholders url
  Checked.each placeholders fun name => do
    let _ ← Checked.require (s.element.params.any fun p => p.name == name)
      s!"url placeholder \x7b{name}\x7d does not match any parameter"
  let unbound := (unboundParams s.element placeholders).map Param.name
  if http.takesBody then
    let found := Text.joinWith ", " unbound
    let _ ← Checked.require (unbound.length ≤ 1)
      s!"{http.marker} method can take at most one request body parameter, found {found}"
  else if let some name := unbound.head? then
    Checked.error s!"{http.marker} method parameter {name} does not appear in the url"
  if !(Text.afterPrefix? ['/'] url.toList).isSome then
    Checked.warning s!"{http.marker} url '{url}' does not start with '/'"

def check (http : HttpMethod) (s : Subject) : Checked Unit := do
  if ← s.elementKind [.method] then
    let _ ← s.enclosedBy .rest
    if http.requiresVoid then
      let _ ← s.returnsVoid
    http.checkResponse s
    if (s.declaration.arg? "url").isNone then
      Checked.error s!"{http.marker} requires a url"
    else if let some url ← s.optionalStr "url" then
      if url.isEmpty then Checked.error s!"{http.marker} url must not be empty"
      else http.checkUrl s url

def urlVariables : String := "urlVariables"

def variableMap : TypeRef := .generic "java.util.HashMap" [.string, .named "java.lang.Object"]

def bindVariables : List String → List Statement
  | [] => []
  | placeholders =>
    .declare variableMap urlVariables (.new variableMap []) ::
      placeholders.map fun name =>
        .run (.callOn (.ident urlVariables) "put" [.str name, .ident name])

/-- The call on the rest template and its arguments before the url variables. -/
def request (http : HttpMethod) (url body : Expr) (response : TypeRef) : String × List Expr :=
  match http with
  | .get => ("getForObject", [url, .classLiteral response])
  | .post => ("postForObject", [url, body, .classLiteral response])
  | .put => ("put", [url, body])
  | .delete => ("delete", [url])
  | .head => ("headForHeaders", [url])
  | .options => ("optionsForAllow", [url])

def bodyArg (element : Element) (placeholders : List String) : Expr :=
  match (unboundParams element placeholders).head? with
  | some p => .ident p.name
  | none => .null

/-- The generated request method. -/
def requestMethod (http : HttpMethod) (element : Element) (url : String) : Method :=
  let placeholders := urlPlaceholders url
  let fullUrl : Expr := .concat [.thisField RestClient.rootUrl, .str url]
  let returns := element.returnType
  let response := if returns.isVoid then .named "java.lang.Void" else returns
  let placeholderArgs : List Expr := if placeholders.isEmpty then [] else [.ident urlVariables]
  let (method, args) := http.request fullUrl (bodyArg element placeholders) response
  let call : Expr := .callOn (.thisField RestClient.restTemplate) method (args ++ placeholderArgs)
  { element.overriding with
    body := bindVariables placeholders ++ [if returns.isVoid then .run call else .ret (some call)] }

def emit (http : HttpMethod) (_ : Project) (d : Declaration) (_ : List ResourceRef) :
    Assemble Unit :=
  Assemble.modifyRestClient d.element.owner
    (·.addMethod (http.requestMethod d.element ((d.argStr? "url").getD "")))

def rule (http : HttpMethod) : Rule where
  marker := http.marker
  demand := "Request methods must bind every url placeholder to a parameter"
  requiresCatalog := false
  check := http.check
  output := "Implements the request method on the generated REST client"
  resources := fun _ => []
  emit := http.emit

end HttpMethod

end ComponentGlue
