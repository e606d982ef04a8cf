import ComponentGlue.Rule.Basic

set_option autoImplicit false
set_option relaxedAutoImplicit false

namespace ComponentGlue

mutual
/-- The expressions in a statement, each one before those inside it. -/
def Statement.parts : Statement → List Expr
  | .run e => e :: e.parts
  | .assign target value => target :: target.parts ++ value :: value.parts
  | .declare _ _ value => value :: value.parts
  | .ret value => Expr.partsOption value
  | .branch condition body => condition :: condition.parts ++ Statement.partsAll body
  | .tryFinally body cleanup => Statement.partsAll body ++ Statement.partsAll cleanup
  | .labelled _ body => Statement.partsAll body

def Statement.partsAll : List Statement → List Expr
  | [] => []
  | s :: rest => s.parts ++ Statement.partsAll rest

/-- The expressions strictly inside an expression. -/
def Expr.parts : Expr → List Expr
  | .this | .super | .null | .ident _ | .literal _ | .staticField _ _ | .classLiteral _
  | .resource _ => []
  | .field target _ => target :: target.parts
  | .call target _ args => Expr.partsOption target ++ Expr.partsAll args
  | .new _ args => Expr.partsAll args
  | .cast _ e => e :: e.parts
  | .concat parts => Expr.partsAll parts
  | .notNull e => e :: e.parts
  | .equals left right => left :: left.parts ++ right :: right.parts
  | .anonymous _ methods => Method.partsAll methods

def Expr.partsOption : Option Expr → List Expr
  | none => []
  | some e => e :: e.parts

def Expr.partsAll : List Expr → List Expr
  | [] => []
  | e :: es => e :: e.parts ++ Expr.partsAll es

def Method.parts : Method → List Expr
  | ⟨_, _, _, _, _, _, _, _, body⟩ => Statement.partsAll body

def Method.partsAll : List Method → List Expr
  | [] => []
  | m :: ms => m.parts ++ Method.partsAll ms
end

mutual
/-- The statements nested in a statement; those of anonymous classes are run by others. -/
def Statement.nested : Statement → List Statement
  | .branch _ body => Statement.nestedAll body
  | .tryFinally body cleanup => Statement.nestedAll body ++ Statement.nestedAll cleanup
  | .labelled _ body => Statement.nestedAll body
  | .run _ | .assign _ _ | .declare _ _ _ | .ret _ => []

/-- Statements together with those nested in them. -/
def Statement.nestedAll : List Statement → List Statement
  | [] => []
  | s :: rest => s :: s.nested ++ Statement.nestedAll rest
end

theorem Method.parts_eq (m : Method) : m.parts = Statement.partsAll m.body := by
  cases m
  rfl

theorem Expr.partsAll_eq_flatMap (es : List Expr) :
    Expr.partsAll es = es.flatMap fun e => e :: e.parts := by
  induction es with
  | nil => rfl
  | cons e es ih => rw [Expr.partsAll, ih, List.flatMap_cons]

theorem Statement.partsAll_eq_flatMap (body : List Statement) :
    Statement.partsAll body = body.flatMap Statement.parts := by
  induction body with
  | nil => rfl
  | cons s body ih => rw [Statement.partsAll, ih, List.flatMap_cons]

theorem Method.partsAll_eq_flatMap (ms : List Method) :
    Method.partsAll ms = ms.flatMap Method.parts := by
  induction ms with
  | nil => rfl
  | cons m ms ih => rw [Method.partsAll, ih, List.flatMap_cons]

theorem Statement.partsAll_append (front rest : List Statement) :
    Statement.partsAll (front ++ rest) = Statement.partsAll front ++ Statement.partsAll rest := by
  simp only [Statement.partsAll_eq_flatMap, List.flatMap_append]

namespace Expr

def ident? : Expr → Option String
  | .ident name => some name
  | _ => none

def identifiers (e : Expr) : List String := (e :: e.parts).filterMap ident?

/-- The arguments of a call of a method of the generated type, made from inside an anonymous class. -/
def outerArgs? (generated method : String) : Expr → Option (List Expr)
  | .call (some (.field (.ident type) "this")) name args =>
    if type = simpleName generated ∧ name = method then some args else none
  | _ => none

def CallsNothing (generated method : String) (e : Expr) : Prop :=
  ∀ part ∈ e :: e.parts, part.outerArgs? generated method = none

theorem filterMap_outerArgs?_callOn {generated method : String} {args : List Expr}
    (hargs : ∀ arg ∈ args, arg.CallsNothing generated method) :
    (callOn (outerRef generated "this") method args ::
      (callOn (outerRef generated "this") method args).parts).filterMap
        (outerArgs? generated method) = [args] := by
  have hcall : (callOn (outerRef generated "this") method args).outerArgs? generated method =
      some args := if_pos ⟨rfl, rfl⟩
  have hnone : (partsAll args).filterMap (outerArgs? generated method) = [] := by
    rw [partsAll_eq_flatMap, List.filterMap_eq_nil_iff]
    intro part hpart
    obtain ⟨arg, harg, hpart⟩ := List.mem_flatMap.1 hpart
    exact hargs arg harg part hpart
  rw [List.filterMap_cons_some hcall]
  exact congrArg (args :: ·) hnone

end Expr

namespace Statement

theorem nestedAll_append (front rest : List Statement) :
    nestedAll (front ++ rest) = nestedAll front ++ nestedAll rest := by
  induction front with
  | nil => rfl
  | cons s front ih => rw [List.cons_append, nestedAll, nestedAll, ih, List.append_assoc]

theorem nestedAll_eq_self {body : List Statement} (h : ∀ s ∈ body, s.nested = []) :
    nestedAll body = body := by
  induction body with
  | nil => rfl
  | cons s rest ih =>
    obtain ⟨hs, hrest⟩ := List.forall_mem_cons.1 h
    rw [nestedAll, hs, ih hrest, List.singleton_append]

/-- The local that a statement declares, if it declares one. -/
def local? : Statement → Option String
  | .declare _ name _ => some name
  | _ => none

/-- The value that a statement returns, if it returns. -/
def answer? : Statement → Option (Option Expr)
  | .ret value => some value
  | _ => none

end Statement

namespace Method

def outerCalls (m : Method) (generated method : String) : List (List Expr) :=
  m.parts.filterMap (Expr.outerArgs? generated method)

def answers (m : Method) : List (Option Expr) :=
  (Statement.nestedAll m.body).filterMap Statement.answer?

end Method

namespace Expr

/-- The methods of an anonymous class. -/
def methods : Expr → List Method
  | .anonymous _ methods => methods
  | _ => []

def inner (e : Expr) : List Method := (e :: e.parts).flatMap methods

theorem inner_callOn (target : Expr) (method : String) (args : List Expr) :
    (callOn target method args).inner = target.inner ++ args.flatMap inner := by
  have hparts : (callOn target method args).parts =
      (target :: target.parts) ++ args.flatMap fun e => e :: e.parts :=
    congrArg (_ ++ ·) (partsAll_eq_flatMap args)
  have hnone : (callOn target method args).methods = [] := rfl
  rw [inner, List.flatMap_cons, hnone, List.nil_append, hparts, List.flatMap_append,
    List.flatMap_assoc]
  rfl

theorem inner_callOn_eq_nil {target : Expr} {method : String} {args : List Expr}
    (htarget : target.inner = []) (hargs : ∀ arg ∈ args, arg.inner = []) :
    (callOn target method args).inner = [] := by
  rw [inner_callOn, htarget, List.nil_append]
  exact List.flatMap_eq_nil_iff.2 hargs

end Expr

namespace Statement

def locals (s : Statement) : List String := (s :: s.nested).filterMap local?

def inner (s : Statement) : List Method := s.parts.flatMap Expr.methods

/-- The statement declares no local and creates no anonymous class. -/
structure Simple (s : Statement) : Prop where
  locals : s.locals = []
  inner : s.inner = []

theorem simple_run {e : Expr} (h : e.inner = []) : (run e).Simple := ⟨rfl, h⟩

theorem simple_ret {e : Expr} (h : e.inner = []) : (ret (some e)).Simple := ⟨rfl, h⟩

theorem filterMap_local?_nestedAll (body : List Statement) :
    (nestedAll body).filterMap local? = body.flatMap locals := by
  induction body with
  | nil => rfl
  | cons s rest ih =>
    rw [nestedAll, List.filterMap_append, ih, List.flatMap_cons]
    rfl

theorem flatMap_methods_partsAll (body : List Statement) :
    (partsAll body).flatMap Expr.methods = body.flatMap inner := by
  rw [partsAll_eq_flatMap, List.flatMap_assoc]
  rfl

theorem locals_branch (condition : Expr) (body : List Statement) :
    (branch condition body).locals = body.flatMap locals :=
  filterMap_local?_nestedAll body

theorem inner_branch (condition : Expr) (body : List Statement) :
    (branch condition body).inner = condition.inner ++ body.flatMap inner := by
  rw [← flatMap_methods_partsAll]
  exact List.flatMap_append

theorem locals_labelled (label : String) (body : List Statement) :
    (labelled label body).locals = body.flatMap locals :=
  filterMap_local?_nestedAll body

theorem inner_labelled (label : String) (body : List Statement) :
    (labelled label body).inner = body.flatMap inner :=
  flatMap_methods_partsAll body

theorem inner_tryFinally (body cleanup : List Statement) :
    (tryFinally body cleanup).inner = body.flatMap inner ++ cleanup.flatMap inner := by
  rw [← flatMap_methods_partsAll, ← flatMap_methods_partsAll]
  exact List.flatMap_append

end Statement

namespace Method

def locals (m : Method) : List String := (Statement.nestedAll m.body).filterMap Statement.local?

def inner (m : Method) : List Method := m.parts.flatMap Expr.methods

theorem locals_eq_flatMap (m : Method) : m.locals = m.body.flatMap Statement.locals :=
  Statement.filterMap_local?_nestedAll m.body

theorem inner_eq_flatMap (m : Method) : m.inner = m.body.flatMap Statement.inner := by
  rw [inner, parts_eq]
  exact Statement.flatMap_methods_partsAll m.body

theorem inner_anonymous (type : TypeRef) (ms : List Method) :
    (Expr.anonymous type ms).inner = ms ++ ms.flatMap inner := by
  have hinner : (partsAll ms).flatMap Expr.methods = ms.flatMap inner := by
    rw [partsAll_eq_flatMap, List.flatMap_assoc]
    rfl
  rw [← hinner]
  rfl

def AllScopes (Q : List String → List String → Prop) (m : Method) : Prop :=
  ∀ m' ∈ m :: m.inner, Q m'.locals (m'.params.map Parameter.name)

variable {Q : List String → List String → Prop} {m m' : Method}

theorem allScopes_iff_of_inner_eq_nil (h : m.inner = []) :
    m.AllScopes Q ↔ Q m.locals (m.params.map Parameter.name) := by
  rw [AllScopes, h]
  exact List.forall_mem_singleton

theorem allScopes_of_locals_eq_nil (hnil : ∀ params, Q [] params)
    (h : ∀ m' ∈ m :: m.inner, m'.locals = []) : m.AllScopes Q :=
  fun m' hm' => h m' hm' ▸ hnil _

theorem locals_of_simple (h : ∀ s ∈ m.body, s.Simple) : m.locals = [] := by
  rw [locals_eq_flatMap]
  exact List.flatMap_eq_nil_iff.2 fun s hs => (h s hs).locals

theorem inner_of_simple (h : ∀ s ∈ m.body, s.Simple) : m.inner = [] := by
  rw [inner_eq_flatMap]
  exact List.flatMap_eq_nil_iff.2 fun s hs => (h s hs).inner

theorem allScopes_of_simple (hnil : ∀ params, Q [] params) (h : ∀ s ∈ m.body, s.Simple) :
    m.AllScopes Q := by
  rw [allScopes_iff_of_inner_eq_nil (inner_of_simple h), locals_of_simple h]
  exact hnil _

def SameScopes (body body' : List Statement) : Prop :=
  body'.flatMap Statement.locals = body.flatMap Statement.locals ∧
    body'.flatMap Statement.inner = body.flatMap Statement.inner

theorem SameScopes.allScopes_iff {body : List Statement} (h : SameScopes m.body body) :
    AllScopes Q { m with body := body } ↔ m.AllScopes Q := by
  have hlocals : ({ m with body := body } : Method).locals = m.locals := by
    rw [locals_eq_flatMap, locals_eq_flatMap, h.1]
  have hinner : ({ m with body := body } : Method).inner = m.inner := by
    rw [inner_eq_flatMap, inner_eq_flatMap, h.2]
  unfold AllScopes
  rw [hinner, List.forall_mem_cons, List.forall_mem_cons, hlocals]

theorem sameScopes_insert {s : Statement} (h : s.Simple) (front rest : List Statement) :
    SameScopes (front ++ rest) (front ++ s :: rest) := by
  simp only [SameScopes, List.flatMap_append, List.flatMap_cons, h.locals, h.inner, List.nil_append,
    and_self]

end Method

end ComponentGlue
