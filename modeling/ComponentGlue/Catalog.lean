import ComponentGlue.Host.Declaration
import ComponentGlue.Table

set_option autoImplicit false
set_option relaxedAutoImplicit false

namespace ComponentGlue

/-- Why a symbol table is malformed. -/
inductive SymbolFlaw where
  | emptyName (type : ResourceType)
  | negativeId (id : Int) (key : ResourceKey)
  | conflict (key : ResourceKey) (first second : Int)
  | stated (reason : String)
  deriving DecidableEq

namespace SymbolFlaw

def text : SymbolFlaw → String
  | .emptyName type => s!"empty {type} name"
  | .negativeId id key => s!"negative id {id} for {key.type}.{key.name}"
  | .conflict key first second =>
    s!"{key.type}.{key.name} declared with ids {first} and {second}"
  | .stated reason => reason

end SymbolFlaw

/-- Why a scope has no usable symbol table. -/
inductive SymbolSourceError where
  | missing (scope : ResourceScope)
  | malformed (scope : ResourceScope) (flaw : SymbolFlaw)
  deriving DecidableEq

namespace SymbolSourceError

def text : SymbolSourceError → String
  | .missing scope => s!"{scope} symbol table not found"
  | .malformed scope flaw => s!"{scope} symbol table is malformed: {flaw.text}"

end SymbolSourceError

abbrev SymbolSource := Except SymbolSourceError (List SymbolEntry)

/-- The symbols of one scope. -/
structure CatalogLayer where
  scope : ResourceScope
  symbols : Table ResourceKey Int

namespace CatalogLayer

def get? (l : CatalogLayer) (key : ResourceKey) : Option Int := l.symbols.get? key

def size (l : CatalogLayer) : Nat := l.symbols.size

/-- Take one raw entry into the symbols read so far. -/
def addEntry (symbols : Table ResourceKey Int) (e : SymbolEntry) :
    Except SymbolFlaw (Table ResourceKey Int) :=
  match ResourceType.ofText? e.typeName with
  | none => .ok symbols
  | some type =>
    if e.name.isEmpty then .error (.emptyName type)
    else if e.id < 0 then .error (.negativeId e.id ⟨type, e.name⟩)
    else
      match symbols.get? ⟨type, e.name⟩ with
      | none => .ok (symbols.insert ⟨type, e.name⟩ e.id)
      | some id =>
        if id = e.id then .ok symbols else .error (.conflict ⟨type, e.name⟩ id e.id)

def ofEntries (scope : ResourceScope) (entries : List SymbolEntry) :
    Except SymbolFlaw CatalogLayer :=
  (entries.foldlM addEntry .empty).map fun symbols => ⟨scope, symbols⟩

def ofSource (scope : ResourceScope) : SymbolSource → Except SymbolSourceError CatalogLayer
  | .error e => .error e
  | .ok entries =>
    match ofEntries scope entries with
    | .ok layer => .ok layer
    | .error flaw => .error (.malformed scope flaw)

end CatalogLayer

/-- No layer declares the resource. -/
structure LookupError where
  key : ResourceKey
  deriving DecidableEq

namespace LookupError

def text (e : LookupError) : String :=
  s!"resource {e.key} not found in project or platform resources"

end LookupError

/-- Why there is no catalog at all. -/
inductive CatalogError where
  | unavailable (source : SymbolSourceError)
  deriving DecidableEq

namespace CatalogError

def text : CatalogError → String
  | .unavailable _ => "resource catalog unavailable"

def source : CatalogError → SymbolSourceError
  | .unavailable e => e

end CatalogError

structure Catalog where
  project : CatalogLayer
  platform : Option CatalogLayer

namespace Catalog

def layers (c : Catalog) : List CatalogLayer := c.project :: c.platform.toList

def lookupIn? (key : ResourceKey) (layer : CatalogLayer) : Option ResourceRef :=
  (layer.get? key).map fun id => ⟨layer.scope, key.type, key.name, id⟩

/-- The first layer's answer. -/
def lookup (c : Catalog) (key : ResourceKey) : Except LookupError ResourceRef :=
  match c.layers.findSome? (lookupIn? key) with
  | some ref => .ok ref
  | none => .error ⟨key⟩

theorem key_of_lookup {c : Catalog} {key : ResourceKey} {ref : ResourceRef}
    (h : c.lookup key = .ok ref) : ref.key = key := by
  simp only [lookup] at h
  split at h
  · next r hr =>
    cases h
    obtain ⟨l, -, hl⟩ := List.exists_of_findSome?_eq_some hr
    obtain ⟨id, -, rfl⟩ := Option.map_eq_some_iff.1 hl
    rfl
  · simp at h

/-- Build the catalog. The project's table is required; an unusable platform table only leaves its
layer out. -/
def resolve (project platform : SymbolSource) : Except CatalogError Catalog :=
  match CatalogLayer.ofSource .project project with
  | .error e => .error (.unavailable e)
  | .ok layer => .ok ⟨layer, (CatalogLayer.ofSource .platform platform).toOption⟩

end Catalog

end ComponentGlue
