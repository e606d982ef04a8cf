import ComponentGlue.Code.GeneratedType
import ComponentGlue.Document
import ComponentGlue.Host.Declaration
import ComponentGlue.Run.Diagnostic

set_option autoImplicit false
set_option relaxedAutoImplicit false

namespace ComponentGlue

namespace Param

def toDocument (p : Param) : Document := .obj [("name", .str p.name), ("type", .str p.type)]

def decode : Decode Param := fun d => do
  let d := d.positionalExact ["name", "type"]
  return ⟨← d.required "name" .str, ← d.required "type" .str⟩

end Param

namespace MethodSig

def toDocument (m : MethodSig) : Document :=
  .obj [("name", .str m.name), ("params", .arr (m.params.map Param.toDocument)),
    ("returns", .ofOption .str m.returns)]

def decode : Decode MethodSig := fun d => do
  let d := d.positionalExact ["name", "params", "returns"]
  return {
    name := ← d.required "name" .str
    params := ← d.withDefault "params" [] (.list Param.decode)
    returns := ← d.optional "returns" .str }

end MethodSig

namespace Element

def toDocument (e : Element) : Document :=
  .obj [("kind", .str e.kind.text), ("name", .str e.name), ("owner", .str e.owner),
    ("type", .ofOption .str e.type), ("params", .arr (e.params.map Param.toDocument)),
    ("modifiers", .ofStrings (e.modifiers.map Modifier.text)), ("throws", .ofStrings e.throws),
    ("supertypes", .ofStrings e.supertypes),
    ("methods", .arr (e.methods.map MethodSig.toDocument))]

def fieldNames : List String :=
  ["kind", "name", "owner", "type", "params", "modifiers", "throws", "supertypes", "methods"]

/-- An element; `isNothing` tells the value of a field that only names an alternative. -/
def decodeWith (isNothing : Document → Bool) : Decode Element := fun d => do
  let d := d.positionalExact fieldNames
  return {
    kind := ← d.required "kind" (.named isNothing ElementKind.ofText?)
    name := ← d.required "name" .str
    owner := ← d.withDefault "owner" "" .str
    type := ← d.optional "type" .str
    params := ← d.withDefault "params" [] (.list Param.decode)
    modifiers := ← d.withDefault "modifiers" [] (.list (.named isNothing Modifier.ofText?))
    throws := ← d.withDefault "throws" [] .strings
    supertypes := ← d.withDefault "supertypes" [] .strings
    methods := ← d.withDefault "methods" [] (.list MethodSig.decode) }

def decode : Decode Element := decodeWith Decode.isNull

end Element

namespace Argument

mutual
def toDocument : Argument → Document
  | .bool b => .bool b
  | .int i => .int i
  | .str s => .str s
  | .list items => .arr (toDocuments items)

def toDocuments : List Argument → List Document
  | [] => []
  | a :: rest => a.toDocument :: toDocuments rest
end

mutual
def decode : Decode Argument
  | .bool b => some (.bool b)
  | .int i => if Decode.fitsSigned i then some (.int i) else none
  | .str s => some (.str s)
  | .arr items => (decodeAll items).map .list
  | .null => none
  | .real _ => none
  | .obj _ => none

def decodeAll : List Document → Option (List Argument)
  | [] => some []
  | d :: rest => do return (← decode d) :: (← decodeAll rest)
end

def pairs (args : Table String Argument) : Document :=
  .arr (args.entries.map fun e => .pair (.str e.1) e.2.toDocument)

def decodePairs : Decode (Table String Argument) := fun d =>
  (Decode.list (.pair .str decode) d).map Table.ofList

end Argument

def Marker.decode : Decode Marker := fun d => (Decode.str d).map Marker.mk

def RawDeclaration.decode : Decode RawDeclaration
  | .obj fields => do
    let d := Document.obj fields
    return ⟨← Element.decode d, ← d.withDefault "args" .empty Argument.decodePairs⟩
  | _ => none

def Declaration.decode : Decode Declaration := fun d => do
  let r ← RawDeclaration.decode d
  return r.marked (← d.required "marker" Marker.decode)

section Encoding

open Document (ofOption)

mutual
def TypeRef.toDocument : TypeRef → Document
  | .primitive p => .tagged "primitive" [("name", .str p.keyword)]
  | .named name => .tagged "named" [("name", .str name)]
  | .generic base args =>
    .tagged "generic" [("base", .str base), ("args", .arr (TypeRef.toDocumentAll args))]
  | .array element => .tagged "array" [("element", element.toDocument)]

def TypeRef.toDocumentAll : List TypeRef → List Document
  | [] => []
  | t :: ts => t.toDocument :: TypeRef.toDocumentAll ts
end

def ResourceRef.toDocument (r : ResourceRef) : Document :=
  .obj [("scope", .str r.scope.text), ("ty", .str r.type.text), ("name", .str r.name),
    ("id", .int r.id)]

def Literal.toDocument : Literal → Document
  | .str s => .tagged "str" [("value", .str s)]
  | .int i => .tagged "int" [("value", .int i)]
  | .bool b => .tagged "bool" [("value", .bool b)]

def Parameter.toDocument (p : Parameter) : Document :=
  .obj [("name", .str p.name), ("ty", p.type.toDocument), ("is_final", .bool p.isFinal)]

mutual
def Statement.toDocument : Statement → Document
  | .run e => .tagged "expr" [("expr", e.toDocument)]
  | .assign target value => .tagged "assign" [("target", target.toDocument), ("value", value.toDocument)]
  | .declare type name value =>
    .tagged "local" [("ty", type.toDocument), ("name", .str name), ("value", value.toDocument)]
  | .ret value => .tagged "return" [("value", Expr.toDocumentOption value)]
  | .branch condition body =>
    .tagged "if" [("condition", condition.toDocument), ("then", .arr (Statement.toDocumentAll body))]
  | .tryFinally body cleanup =>
    .tagged "try_finally"
      [("body", .arr (Statement.toDocumentAll body)), ("finally", .arr (Statement.toDocumentAll cleanup))]
  | .labelled label body =>
    .tagged "section" [("label", .str label), ("body", .arr (Statement.toDocumentAll body))]

def Statement.toDocumentAll : List Statement → List Document
  | [] => []
  | s :: rest => s.toDocument :: Statement.toDocumentAll rest

def Expr.toDocument : Expr → Document
  | .this => .tagged "this" []
  | .super => .tagged "super" []
  | .null => .tagged "null" []
  | .ident name => .tagged "ident" [("name", .str name)]
  | .literal value => .tagged "literal" [("value", value.toDocument)]
  | .field target name => .tagged "field" [("target", target.toDocument), ("name", .str name)]
  | .staticField owner name =>
    .tagged "static_field" [("owner", owner.toDocument), ("name", .str name)]
  | .call target method args =>
    .tagged "call" [("target", Expr.toDocumentOption target), ("method", .str method),
      ("args", .arr (Expr.toDocumentAll args))]
  | .new type args => .tagged "new" [("ty", type.toDocument), ("args", .arr (Expr.toDocumentAll args))]
  | .cast type e => .tagged "cast" [("ty", type.toDocument), ("expr", e.toDocument)]
  | .classLiteral type => .tagged "class_literal" [("ty", type.toDocument)]
  | .concat parts => .tagged "concat" [("parts", .arr (Expr.toDocumentAll parts))]
  | .notNull e => .tagged "not_null" [("expr", e.toDocument)]
  | .equals left right => .tagged "equals" [("left", left.toDocument), ("right", right.toDocument)]
  | .resource ref => .tagged "resource" [("resource", ref.toDocument)]
  | .anonymous implements methods =>
    .tagged "anonymous"
      [("class", .obj [("implements", implements.toDocument),
        ("methods", .arr (Method.toDocumentAll methods))])]

def Expr.toDocumentOption : Option Expr → Document
  | none => .null
  | some e => e.toDocument

def Expr.toDocumentAll : List Expr → List Document
  | [] => []
  | e :: es => e.toDocument :: Expr.toDocumentAll es

def Method.toDocument : Method → Document
  | ⟨name, doc, visibility, isOverride, isStatic, params, returns, throws, body⟩ =>
    .obj <|
      [("name", .str name)] ++
      (match doc with
        | none => []
        | some text => [("doc", .str text)]) ++
      [("visibility", .str visibility.text), ("is_override", .bool isOverride),
        ("is_static", .bool isStatic), ("params", .arr (params.map Parameter.toDocument)),
        ("return_type", returns.toDocument)] ++
      (if throws.isEmpty then [] else [("throws", .arr (TypeRef.toDocumentAll throws))]) ++
      [("body", .arr (Statement.toDocumentAll body))]

def Method.toDocumentAll : List Method → List Document
  | [] => []
  | m :: ms => m.toDocument :: Method.toDocumentAll ms
end

def Field.toDocument (f : Field) : Document :=
  .obj <|
    [("name", .str f.name), ("ty", f.type.toDocument), ("visibility", .str f.visibility.text),
      ("is_final", .bool f.isFinal), ("is_static", .bool f.isStatic)] ++
    (match f.init with
      | none => []
      | some value => [("init", value.toDocument)])

def Constructor.toDocument (c : Constructor) : Document :=
  .obj [("visibility", .str c.visibility.text), ("params", .arr (c.params.map Parameter.toDocument)),
    ("body", .arr (Statement.toDocumentAll c.body))]

def GeneratedType.toDocument (t : GeneratedType) : Document :=
  .obj <|
    [("name", .str t.name), ("origin", .str t.origin)] ++
    (match t.extends? with
      | none => []
      | some type => [("extends", type.toDocument)]) ++
    (if t.implements.isEmpty then [] else [("implements", .arr (TypeRef.toDocumentAll t.implements))]) ++
    [("is_final", .bool t.isFinal), ("fields", .arr (t.fields.map Field.toDocument)),
      ("constructors", .arr (t.constructors.map Constructor.toDocument)),
      ("methods", .arr (t.methods.map Method.toDocument))]

end Encoding

def DeclarationRef.toDocument (r : DeclarationRef) : Document :=
  .ofStrings [r.marker.name, r.kind.text, r.element]

def Diagnostic.toDocument (d : Diagnostic) : Document :=
  .arr [.str d.severity.text, .str d.phase, .str d.message,
    .ofOption DeclarationRef.toDocument d.location]

def DeclarationModel.toDocument (m : DeclarationModel) (f : Declaration → Document) : Document :=
  .arr (m.groups.entries.map fun e => .pair (.str e.1.name) (.arr (e.2.map f)))

end ComponentGlue
