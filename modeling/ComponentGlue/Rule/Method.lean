import ComponentGlue.Marker
import ComponentGlue.Rule.Basic

set_option autoImplicit false
set_option relaxedAutoImplicit false

namespace ComponentGlue

namespace OptionsMenu

def onCreateOptionsMenu : String := "onCreateOptionsMenu"

def check (s : Subject) : Checked Unit := do
  if ← s.elementKind [.classType] then
    let _ ← s.alsoMarked .enhancedComponent
    if (s.declaration.arg? "menu").isNone then
      Checked.error s!"{Marker.optionsMenu} requires a menu"
    else if let some menu ← s.optionalStr "menu" then
      let _ ← s.resource .menu menu

def resources (d : Declaration) : List ResourceKey := [⟨.menu, (d.argStr? "menu").getD ""⟩]

/-- Inflate the menus and let the superclass add its own items. -/
def inflateMethod (menus : List ResourceRef) : Method :=
  { Method.new onCreateOptionsMenu with
    isOverride := true
    returns := .boolean
    params := [.plain "menu" (.named "android.view.Menu")]
    body :=
      menus.map (fun menu => .run (.callOn (.callHere "getMenuInflater" []) "inflate"
        [.resource menu, .ident "menu"])) ++
      [.ret (some (.callOn .super onCreateOptionsMenu [.ident "menu"]))] }

def emit (_ : Project) (d : Declaration) (menus : List ResourceRef) : Assemble Unit :=
  Assemble.modifyComponent d.qualifiedName (·.addMethod (inflateMethod menus))

def rule : Rule where
  marker := .optionsMenu
  demand := "Options menus belong to a component and name a known menu resource"
  requiresCatalog := true
  check := check
  output := "Overrides onCreateOptionsMenu to inflate the menu resource"
  resources := resources
  emit := emit

end OptionsMenu

namespace OptionsItem

def onOptionsItemSelected : String := "onOptionsItemSelected"

def menuItem : String := "android.view.MenuItem"

def defaultId (method : String) : String := withoutSuffix "Selected" method

def shapeFits : List String → Bool
  | [] => true
  | [type] => typeMatches type menuItem
  | _ => false

def check (s : Subject) : Checked Unit := do
  if ← s.componentMember .method then
    let found := Text.joinWith ", " s.element.paramTypes
    let _ ← Checked.require (shapeFits s.element.paramTypes)
      s!"{Marker.optionsItem} method parameters must be () or ({menuItem}), found ({found})"
    let type := s.element.type.getD ""
    let _ ← Checked.require (s.element.returnsVoid || typeMatches type "boolean")
      s!"{Marker.optionsItem} method must return void or boolean, found {type}"
    let ids ← s.stringsOr "ids" [defaultId s.element.name]
    s.resources .id (ids.getD [])

def resources (d : Declaration) : List ResourceKey :=
  ((d.argStrings? "ids").getD [defaultId d.element.name]).map fun id => ⟨.id, id⟩

def dispatchMethod : Method :=
  { Method.new onOptionsItemSelected with
    isOverride := true
    returns := .boolean
    params := [.plain "item" (.named menuItem)]
    body := [.ret (some (.callOn .super onOptionsItemSelected [.ident "item"]))] }

def handle (element : Element) : List Statement :=
  let call : Expr :=
    .callHere element.name (if element.params.isEmpty then [] else [.ident "item"])
  if element.returnsVoid then [.run call, .ret (some (.bool true))] else [.ret (some call)]

def dispatchBranch (element : Element) (ref : ResourceRef) : Statement :=
  .branch (.equals (.callOn (.ident "item") "getItemId" []) (.resource ref)) (handle element)

def insertBeforeLast (body : List Statement) (s : Statement) : List Statement :=
  body.dropLast ++ s :: body.getLast?.toList

def addBranches (element : Element) (refs : List ResourceRef) (body : List Statement) :
    List Statement :=
  (refs.map (dispatchBranch element)).foldl insertBeforeLast body

def emit (_ : Project) (d : Declaration) (refs : List ResourceRef) : Assemble Unit :=
  Assemble.modifyComponent d.element.owner fun type =>
    (type.ensureMethod onOptionsItemSelected dispatchMethod).mapMethod onOptionsItemSelected
      fun m => { m with body := addBranches d.element refs m.body }

def rule : Rule where
  marker := .optionsItem
  demand := "Menu item handlers take at most the selected item and name known item ids"
  requiresCatalog := true
  check := check
  output := "Adds an item id branch to onOptionsItemSelected for each handler"
  resources := resources
  emit := emit

end OptionsItem

namespace ListenerKind

def checkShape (k : ListenerKind) (s : Subject) : Checked Unit := do
  let types := s.element.paramTypes
  let shapeText (shape : List HandlerSlot) : String :=
    "(" ++ Text.joinWith ", " (shape.map HandlerSlot.text) ++ ")"
  let allowed := Text.joinWith " or " (k.handlerShapes.map shapeText)
  let found := Text.joinWith ", " types
  let _ ← Checked.require (k.handlerShapes.any fun shape => shapeFits shape types)
    s!"{k.marker} method parameters must be one of {allowed}, found ({found})"

def checkReturn (k : ListenerKind) (s : Subject) : Checked Unit := do
  let type := s.element.type.getD ""
  let expected := if k.returnsBoolean then "void or boolean" else "void"
  let _ ← Checked.require
    (s.element.returnsVoid || (k.returnsBoolean && typeMatches type "boolean"))
    s!"{k.marker} method must return {expected}, found {type}"

def check (k : ListenerKind) (s : Subject) : Checked Unit := do
  if ← s.componentMember .method then
    k.checkShape s
    k.checkReturn s
    let ids ← s.stringsOr "ids" [k.defaultId s.element.name]
    s.resources .id (ids.getD [])

def resources (k : ListenerKind) (d : Declaration) : List ResourceKey :=
  ((d.argStrings? "ids").getD [k.defaultId d.element.name]).map fun id => ⟨.id, id⟩

def view : TypeRef := .named "android.view.View"

def adapterView : TypeRef := .generic "android.widget.AdapterView" [.named "?"]

def itemParams : List Parameter :=
  [.plain "parent" adapterView, .plain "view" view, .plain "position" (.primitive .int),
    .plain "id" (.primitive .long)]

def itemArg (type : String) : Expr :=
  if typeMatches type "int" then .ident "position"
  else
    .cast (.parse type)
      (.callOn (.callOn (.ident "parent") "getAdapter" []) "getItem" [.ident "position"])

def handlerArg (k : ListenerKind) (type : String) : Expr :=
  match k with
  | .itemClick | .itemLongClick => itemArg type
  | .click | .longClick | .touch | .itemSelected =>
    if typeMatches type "android.view.View" then .ident "view" else .ident "event"

def callbackParams : ListenerKind → List Parameter
  | .itemClick | .itemLongClick | .itemSelected => itemParams
  | .touch => [.plain "view" view, .plain "event" (.named "android.view.MotionEvent")]
  | .click | .longClick => [.plain "view" view]

def callHandler (element : Element) (generated : String) (args : List Expr) : Expr :=
  .callOn (outerRef generated "this") element.name args

/-- The two callbacks of a selection: one with the selected item, one without selection. -/
def selectionCallbacks (k : ListenerKind) (element : Element) (generated : String) :
    List Method :=
  let item : List String := (element.paramTypes.drop 1).take 1
  let absent (type : String) : Expr := if typeMatches type "int" then .int (-1) else .null
  [{ Method.new k.callback with
      isOverride := true
      params := itemParams
      body := [.run (callHandler element generated (.bool true :: item.map itemArg))] },
    { Method.new "onNothingSelected" with
      isOverride := true
      params := [.plain "parent" adapterView]
      body := [.run (callHandler element generated (.bool false :: item.map absent))] }]

/-- The callback of a listener without selection. A boolean callback answers with the handler's
result, or with true for a `void` handler. -/
def plainCallback (k : ListenerKind) (element : Element) (generated : String) : Method :=
  let call := callHandler element generated (element.paramTypes.map k.handlerArg)
  { Method.new k.callback with
    isOverride := true
    params := k.callbackParams
    returns := if k.returnsBoolean then .boolean else .void
    body :=
      if !k.returnsBoolean then [.run call]
      else if element.returnsVoid then [.run call, .ret (some (.bool true))]
      else [.ret (some call)] }

def callbacks (k : ListenerKind) (element : Element) (generated : String) : List Method :=
  match k with
  | .itemSelected => k.selectionCallbacks element generated
  | .click | .longClick | .touch | .itemClick | .itemLongClick =>
    [k.plainCallback element generated]

def targetType (k : ListenerKind) : TypeRef := if k.onAdapterView then adapterView else view

def register (k : ListenerKind) (callbacks : List Method) (name : String) (ref : ResourceRef) :
    List Statement :=
  let found : Expr := .callHere "findViewById" [.resource ref]
  [.declare k.targetType name (if k.onAdapterView then .cast k.targetType found else found),
    .branch (.notNull (.ident name))
      [.run (.callOn (.ident name) k.setter [.anonymous (.named k.interface) callbacks])]]

def registerAll (k : ListenerKind) (callbacks : List Method) (refs : List ResourceRef)
    (block : List Statement) : List Statement :=
  refs.foldl (fun block ref => block ++ k.register callbacks s!"view{block.length}" ref) block

def emit (k : ListenerKind) (_ : Project) (d : Declaration) (refs : List ResourceRef) :
    Assemble Unit := do
  let type ← Assemble.componentType d.element.owner
  Assemble.modifyCreation d.element.owner .bindListeners
    (k.registerAll (k.callbacks d.element type.name) refs)

def rule (k : ListenerKind) : Rule where
  marker := k.marker
  demand := "Listener methods must match the callback signature and name known view ids"
  requiresCatalog := true
  check := k.check
  output := "Registers an anonymous listener on each view in the bind-listeners section"
  resources := k.resources
  emit := k.emit

end ListenerKind

namespace ThreadKind

def check (k : ThreadKind) (s : Subject) : Checked Unit := do
  if ← s.componentMember .method then
    let _ ← s.without .static
    let _ ← s.without .abstract
    let _ ← s.without .final
    let _ ← s.returnsVoid
    let _ ← s.noThrows
    let _ ← s.notCombinedWith k.opposite.marker
    let _ ← s.notCombinedWith .transactional
    if let some delay ← s.optionalInt "delay" then
      let _ ← Checked.require (0 ≤ delay)
        s!"{k.marker} delay must not be negative, found {delay}"

def handler : String := "handler_"

def handlerField : Field :=
  { Field.new handler (.named "android.os.Handler") with
    isFinal := true
    init := some (.new (.named "android.os.Handler")
      [.callOn (.ident "android.os.Looper") "getMainLooper" []]) }

def runnable (element : Element) (generated : String) : Expr :=
  .anonymous (.named "java.lang.Runnable")
    [{ Method.new "run" with
      isOverride := true
      body := [.run (.callOn (outerRef generated "super") element.name element.forwardArgs)] }]

/-- Hand a runnable to the thread; a positive delay postpones it on the main thread. -/
def dispatch (k : ThreadKind) (delay : Option Int) (work : Expr) : Expr :=
  match k with
  | .background => .callOn (.ident "tagsmith.api.BackgroundExecutor") "execute" [work]
  | .ui =>
    match delay with
    | none => .callOn (.thisField handler) "post" [work]
    | some ms =>
      if 0 < ms then .callOn (.thisField handler) "postDelayed" [work, .int ms]
      else .callOn (.thisField handler) "post" [work]

def addFields (k : ThreadKind) (type : GeneratedType) : GeneratedType :=
  match k with
  | .ui => type.addField handlerField
  | .background => type

def emit (k : ThreadKind) (_ : Project) (d : Declaration) (_ : List ResourceRef) :
    Assemble Unit :=
  Assemble.modifyComponent d.element.owner fun type =>
    let work := runnable d.element type.name
    (k.addFields type).addMethod
      { d.element.overriding with body := [.run (k.dispatch (d.argInt? "delay") work)] }

def rule (k : ThreadKind) : Rule where
  marker := k.marker
  demand := "Threaded methods must be overridable void methods without checked exceptions"
  requiresCatalog := false
  check := k.check
  output := "Overrides the method to run super inside a Runnable on the target thread"
  resources := fun _ => []
  emit := k.emit

end ThreadKind

namespace Transaction

def database : String := "android.database.sqlite.SQLiteDatabase"

def check (s : Subject) : Checked Unit := do
  if ← s.componentMember .method then
    let _ ← s.without .static
    let _ ← s.without .final
    Checked.each ThreadKind.all fun k => do let _ ← s.notCombinedWith k.marker
    let _ ← Checked.require (s.element.paramTypes.head?.any fun type => typeMatches type database)
      s!"{Marker.transactional} method must take a {database} as its first parameter"

def result : String := "result_"

def work (element : Element) (db : Expr) : List Statement :=
  let call : Expr := .callOn .super element.name element.forwardArgs
  let successful : Statement := .run (.callOn db "setTransactionSuccessful" [])
  if element.returnType.isVoid then [.run call, successful]
  else [.declare element.returnType result call, successful, .ret (some (.ident result))]

def override (element : Element) (db : Expr) : Method :=
  { element.overriding with
    body :=
      [.run (.callOn db "beginTransaction" []),
        .tryFinally (work element db) [.run (.callOn db "endTransaction" [])]] }

def emit (_ : Project) (d : Declaration) (_ : List ResourceRef) : Assemble Unit := do
  let db ← Assemble.orFault (.noDatabaseParameter d.element) d.element.params.head?
  Assemble.modifyComponent d.element.owner (·.addMethod (override d.element (.ident db.name)))

def rule : Rule where
  marker := .transactional
  demand := "Transactional methods must be overridable and take the database first"
  requiresCatalog := false
  check := check
  output := "Overrides the method to call super between begin and end transaction"
  resources := fun _ => []
  emit := emit

end Transaction

namespace LifecycleHook

def check (s : Subject) : Checked Unit := do
  if ← s.componentMember .method then
    let _ ← s.noParams
    let _ ← s.returnsVoid

def block : LifecycleHook → CreationBlock
  | .beforeCreate => .beforeCreate
  | .afterViews => .afterViews

def emit (h : LifecycleHook) (_ : Project) (d : Declaration) (_ : List ResourceRef) :
    Assemble Unit :=
  Assemble.appendCreation d.element.owner h.block (.run (.callHere d.element.name []))

def rule (h : LifecycleHook) : Rule where
  marker := h.marker
  demand := "Lifecycle hooks must be void methods without parameters"
  requiresCatalog := false
  check := check
  output := "Calls the method from the matching onCreate section"
  resources := fun _ => []
  emit := h.emit

end LifecycleHook

end ComponentGlue
