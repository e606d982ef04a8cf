import ComponentGlue.Host.Declaration
import ComponentGlue.Text

set_option autoImplicit false
set_option relaxedAutoImplicit false

namespace ComponentGlue

namespace Marker

def enhancedComponent : Marker := ⟨"enhanced-component"⟩

def sharedPref : Marker := ⟨"shared-pref"⟩

def bindsView : Marker := ⟨"binds-view"⟩

def extra : Marker := ⟨"extra"⟩

def systemService : Marker := ⟨"system-service"⟩

def application : Marker := ⟨"application"⟩

def transactional : Marker := ⟨"transactional"⟩

def rest : Marker := ⟨"rest"⟩

def fromHtml : Marker := ⟨"from-html"⟩

def pref : Marker := ⟨"pref"⟩

def optionsMenu : Marker := ⟨"options-menu"⟩

def optionsItem : Marker := ⟨"options-item"⟩

end Marker

/-- A host type text names a qualified type in full or by its simple name. -/
def typeMatches (actual qualified : String) : Bool :=
  actual == qualified || actual == simpleName qualified

def typeMatchesAny (actual : String) (accepted : List String) : Bool :=
  accepted.any (typeMatches actual)

inductive ResourceKind where
  | string
  | color
  | dimen
  | bool
  | integer
  | anim
  | drawable
  deriving DecidableEq

namespace ResourceKind

def all : List ResourceKind := [.string, .color, .dimen, .bool, .integer, .anim, .drawable]

def resourceType : ResourceKind → ResourceType
  | .string => .string
  | .color => .color
  | .dimen => .dimen
  | .bool => .bool
  | .integer => .integer
  | .anim => .anim
  | .drawable => .drawable

def marker (k : ResourceKind) : Marker := ⟨k.resourceType.text ++ "-res"⟩

/-- Field types the resource can be loaded into. -/
def acceptedTypes : ResourceKind → List String
  | .string => ["java.lang.String", "java.lang.CharSequence"]
  | .color | .integer => ["int", "java.lang.Integer"]
  | .dimen => ["float", "int", "java.lang.Float", "java.lang.Integer"]
  | .bool => ["boolean", "java.lang.Boolean"]
  | .anim => ["android.view.animation.Animation"]
  | .drawable => ["android.graphics.drawable.Drawable"]

def accepts (k : ResourceKind) (fieldType : String) : Bool :=
  typeMatchesAny fieldType k.acceptedTypes

/-- The accessor that reads the resource for a field of this type. -/
def accessor (k : ResourceKind) (fieldType : String) : String :=
  match k with
  | .string => if typeMatches fieldType "java.lang.CharSequence" then "getText" else "getString"
  | .color => "getColor"
  | .dimen =>
    if typeMatchesAny fieldType ["float", "java.lang.Float"] then "getDimension"
    else "getDimensionPixelSize"
  | .bool => "getBoolean"
  | .integer => "getInteger"
  | .anim => "loadAnimation"
  | .drawable => "getDrawable"

end ResourceKind

inductive ThreadKind where
  | ui
  | background
  deriving DecidableEq

namespace ThreadKind

def all : List ThreadKind := [.ui, .background]

def marker : ThreadKind → Marker
  | .ui => ⟨"runs-on-ui-thread"⟩
  | .background => ⟨"runs-in-background"⟩

def opposite : ThreadKind → ThreadKind
  | .ui => .background
  | .background => .ui

end ThreadKind

inductive LifecycleHook where
  | beforeCreate
  | afterViews
  deriving DecidableEq

namespace LifecycleHook

def all : List LifecycleHook := [.beforeCreate, .afterViews]

def marker : LifecycleHook → Marker
  | .beforeCreate => ⟨"before-create"⟩
  | .afterViews => ⟨"after-views"⟩

end LifecycleHook

def withoutSuffix (suffix method : String) : String :=
  match Text.beforeSuffix? suffix.toList method.toList with
  | some (c :: rest) => String.ofList (c :: rest)
  | _ => method

/-- What a handler parameter may be declared as. -/
inductive HandlerSlot where
  | type (qualified : String)
  /-- Any type; the slot receives the adapter's item. -/
  | item
  deriving DecidableEq

namespace HandlerSlot

def fits (actual : String) : HandlerSlot → Bool
  | .type qualified => typeMatches actual qualified
  | .item => true

def text : HandlerSlot → String
  | .type qualified => qualified
  | .item => "item"

def pattern : HandlerSlot → String
  | .type qualified => qualified
  | .item => "*"

end HandlerSlot

inductive ListenerKind where
  | click
  | longClick
  | touch
  | itemClick
  | itemLongClick
  | itemSelected
  deriving DecidableEq

namespace ListenerKind

def all : List ListenerKind :=
  [.click, .longClick, .touch, .itemClick, .itemLongClick, .itemSelected]

def marker : ListenerKind → Marker
  | .click => ⟨"on-click"⟩
  | .longClick => ⟨"on-long-click"⟩
  | .touch => ⟨"on-touch"⟩
  | .itemClick => ⟨"on-item-click"⟩
  | .itemLongClick => ⟨"on-item-long-click"⟩
  | .itemSelected => ⟨"on-item-selected"⟩

/-- The end of a handler's name that is not part of the default view id. -/
def methodSuffix : ListenerKind → String
  | .click => "Clicked"
  | .longClick => "LongClicked"
  | .touch => "Touched"
  | .itemClick => "ItemClicked"
  | .itemLongClick => "ItemLongClicked"
  | .itemSelected => "ItemSelected"

def onAdapterView : ListenerKind → Bool
  | .itemClick | .itemLongClick | .itemSelected => true
  | .click | .longClick | .touch => false

def defaultId (k : ListenerKind) (method : String) : String := withoutSuffix k.methodSuffix method

def interface : ListenerKind → String
  | .click => "android.view.View.OnClickListener"
  | .longClick => "android.view.View.OnLongClickListener"
  | .touch => "android.view.View.OnTouchListener"
  | .itemClick => "android.widget.AdapterView.OnItemClickListener"
  | .itemLongClick => "android.widget.AdapterView.OnItemLongClickListener"
  | .itemSelected => "android.widget.AdapterView.OnItemSelectedListener"

def setter : ListenerKind → String
  | .click => "setOnClickListener"
  | .longClick => "setOnLongClickListener"
  | .touch => "setOnTouchListener"
  | .itemClick => "setOnItemClickListener"
  | .itemLongClick => "setOnItemLongClickListener"
  | .itemSelected => "setOnItemSelectedListener"

def callback : ListenerKind → String
  | .click => "onClick"
  | .longClick => "onLongClick"
  | .touch => "onTouch"
  | .itemClick => "onItemClick"
  | .itemLongClick => "onItemLongClick"
  | .itemSelected => "onItemSelected"

def returnsBoolean : ListenerKind → Bool
  | .longClick | .touch | .itemLongClick => true
  | .click | .itemClick | .itemSelected => false

/-- The parameter lists a handler may declare. -/
def handlerShapes : ListenerKind → List (List HandlerSlot)
  | .click | .longClick => [[], [.type "android.view.View"]]
  | .touch =>
    [[.type "android.view.MotionEvent"],
      [.type "android.view.MotionEvent", .type "android.view.View"]]
  | .itemClick | .itemLongClick => [[], [.item]]
  | .itemSelected => [[.type "boolean"], [.type "boolean", .item]]

def shapeFits : List HandlerSlot → List String → Bool
  | [], [] => true
  | slot :: slots, type :: types => slot.fits type && shapeFits slots types
  | _, _ => false

end ListenerKind

inductive HttpMethod where
  | get
  | post
  | put
  | delete
  | head
  | options
  deriving DecidableEq

namespace HttpMethod

def all : List HttpMethod := [.get, .post, .put, .delete, .head, .options]

def marker : HttpMethod → Marker
  | .get => ⟨"get"⟩
  | .post => ⟨"post"⟩
  | .put => ⟨"put"⟩
  | .delete => ⟨"delete"⟩
  | .head => ⟨"head"⟩
  | .options => ⟨"options"⟩

/-- The only return types the request may declare, the qualified one first; none when any type
will do. -/
def responseTypes : HttpMethod → List String
  | .head => ["org.springframework.http.HttpHeaders", "HttpHeaders"]
  | .options => ["java.util.Set<org.springframework.http.HttpMethod>", "Set<HttpMethod>"]
  | .get | .post | .put | .delete => []

def takesBody : HttpMethod → Bool
  | .post | .put => true
  | .get | .delete | .head | .options => false

def requiresVoid : HttpMethod → Bool
  | .put | .delete => true
  | .get | .post | .head | .options => false

end HttpMethod

/-- Where a scan of a url template stands: outside braces, or inside with the text read so far, the
latest character first. -/
inductive UrlScan where
  | outside
  | inside (read : List Char)

/-- The names between braces, in order. An opening brace inside braces belongs to the name, and a
name that is never closed is none. -/
def scanPlaceholders : UrlScan → List Char → List (List Char)
  | _, [] => []
  | .outside, c :: url =>
    if c = '\x7b' then scanPlaceholders (.inside []) url else scanPlaceholders .outside url
  | .inside read, c :: url =>
    if c = '\x7d' then read.reverse :: scanPlaceholders .outside url
    else scanPlaceholders (.inside (c :: read)) url

/-- The placeholder names of a url template. -/
def urlPlaceholders (url : String) : List String :=
  (scanPlaceholders .outside url.toList).map String.ofList

end ComponentGlue
