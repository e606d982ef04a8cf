import Mathlib.Logic.Basic
import ComponentGlue.Proofs.Code.References
import ComponentGlue.Proofs.Code.Scope

/-!
The resources that an expression lists. The list is read from left to right and does not enter the methods
of anonymous classes, so it has every resource in the expression exactly when no method of such a class
refers to one.
-/

set_option autoImplicit false
set_option relaxedAutoImplicit false

namespace ComponentGlue

def Expr.ClosedParts (es : List Expr) : Prop := ∀ e ∈ es, e.parts ⊆ es

namespace Expr.ClosedParts

variable {es es' : List Expr}

theorem nil : ClosedParts [] := fun _ he => absurd he List.not_mem_nil

theorem append (h : ClosedParts es) (h' : ClosedParts es') : ClosedParts (es ++ es') := by
  intro e he
  rcases List.mem_append.1 he with he | he
  · exact List.subset_append_of_subset_left _ (h e he)
  · exact List.subset_append_of_subset_right _ (h' e he)

theorem whole {e : Expr} (h : ClosedParts e.parts) : ClosedParts (e :: e.parts) := by
  intro part hpart
  rcases List.mem_cons.1 hpart with rfl | hpart
  · exact List.subset_cons_self _ _
  · exact List.subset_cons_of_subset _ (h part hpart)

end Expr.ClosedParts

open ComponentGlue.Expr (ClosedParts)

mutual
theorem Statement.closedParts : (s : Statement) → ClosedParts s.parts
  | .run e => e.closedParts.whole
  | .assign target value => target.closedParts.whole.append value.closedParts.whole
  | .declare _ _ value => value.closedParts.whole
  | .ret value => Expr.closedPartsOption value
  | .branch condition body => condition.closedParts.whole.append (Statement.closedPartsAll body)
  | .tryFinally body cleanup =>
    (Statement.closedPartsAll body).append (Statement.closedPartsAll cleanup)
  | .labelled _ body => Statement.closedPartsAll body

theorem Statement.closedPartsAll : (body : List Statement) → ClosedParts (Statement.partsAll body)
  | [] => .nil
  | s :: rest => s.closedParts.append (Statement.closedPartsAll rest)

theorem Expr.closedParts : (e : Expr) → ClosedParts e.parts
  | .this | .super | .null | .ident _ | .literal _ | .staticField _ _ | .classLiteral _
  | .resource _ => .nil
  | .field target _ => target.closedParts.whole
  | .call target _ args => (Expr.closedPartsOption target).append (Expr.closedPartsAll args)
  | .new _ args => Expr.closedPartsAll args
  | .cast _ e => e.closedParts.whole
  | .concat parts => Expr.closedPartsAll parts
  | .notNull e => e.closedParts.whole
  | .equals left right => left.closedParts.whole.append right.closedParts.whole
  | .anonymous _ methods => Method.closedPartsAll methods

theorem Expr.closedPartsOption : (e : Option Expr) → ClosedParts (Expr.partsOption e)
  | none => .nil
  | some e => e.closedParts.whole

theorem Expr.closedPartsAll : (es : List Expr) → ClosedParts (Expr.partsAll es)
  | [] => .nil
  | e :: es => e.closedParts.whole.append (Expr.closedPartsAll es)

theorem Method.closedParts : (m : Method) → ClosedParts m.parts
  | ⟨_, _, _, _, _, _, _, _, body⟩ => Statement.closedPartsAll body

theorem Method.closedPartsAll : (ms : List Method) → ClosedParts (Method.partsAll ms)
  | [] => .nil
  | m :: ms => m.closedParts.append (Method.closedPartsAll ms)
end

namespace Method

theorem parts_subset_partsAll {m : Method} {ms : List Method} (h : m ∈ ms) :
    m.parts ⊆ partsAll ms := by
  intro part hpart
  rw [partsAll_eq_flatMap]
  exact List.mem_flatMap.2 ⟨m, h, hpart⟩

theorem parts_subset_of_mem_methods {es : List Expr} (hclosed : ClosedParts es) {m : Method}
    (h : m ∈ es.flatMap Expr.methods) : m.parts ⊆ es := by
  obtain ⟨e, he, hm⟩ := List.mem_flatMap.1 h
  cases e with
  | anonymous _ ms => exact List.Subset.trans (parts_subset_partsAll hm) (hclosed _ he)
  | _ => cases hm

end Method

/-- The resource that an expression is, if it is one. -/
def Expr.resource? : Expr → Option ResourceRef
  | .resource ref => some ref
  | _ => none

theorem filterMap_append_of_eq {α β : Type} {f : α → Option β} {l l' : List α} {m m' : List β}
    (h : l.filterMap f = m) (h' : l'.filterMap f = m') : (l ++ l').filterMap f = m ++ m' := by
  rw [List.filterMap_append, h, h']

mutual
theorem Statement.filterMap_parts :
    (s : Statement) → s.parts.filterMap Expr.resource? = s.references
  | .run e => e.filterMap_parts
  | .assign target value => filterMap_append_of_eq target.filterMap_parts value.filterMap_parts
  | .declare _ _ value => value.filterMap_parts
  | .ret value => Expr.filterMap_partsOption value
  | .branch condition body =>
    filterMap_append_of_eq condition.filterMap_parts (Statement.filterMap_partsAll body)
  | .tryFinally body cleanup =>
    filterMap_append_of_eq (Statement.filterMap_partsAll body) (Statement.filterMap_partsAll cleanup)
  | .labelled _ body => Statement.filterMap_partsAll body

theorem Statement.filterMap_partsAll : (body : List Statement) →
    (Statement.partsAll body).filterMap Expr.resource? = Statement.referencesAll body
  | [] => rfl
  | s :: rest => filterMap_append_of_eq s.filterMap_parts (Statement.filterMap_partsAll rest)

theorem Expr.filterMap_parts : (e : Expr) → (e :: e.parts).filterMap Expr.resource? = e.references
  | .this | .super | .null | .ident _ | .literal _ | .staticField _ _ | .classLiteral _
  | .resource _ => rfl
  | .field target _ => target.filterMap_parts
  | .call target _ args =>
    filterMap_append_of_eq (Expr.filterMap_partsOption target) (Expr.filterMap_partsAll args)
  | .new _ args => Expr.filterMap_partsAll args
  | .cast _ e => e.filterMap_parts
  | .concat parts => Expr.filterMap_partsAll parts
  | .notNull e => e.filterMap_parts
  | .equals left right => filterMap_append_of_eq left.filterMap_parts right.filterMap_parts
  | .anonymous _ methods => Method.filterMap_partsAll methods

theorem Expr.filterMap_partsOption : (e : Option Expr) →
    (Expr.partsOption e).filterMap Expr.resource? = Expr.referencesOption e
  | none => rfl
  | some e => e.filterMap_parts

theorem Expr.filterMap_partsAll : (es : List Expr) →
    (Expr.partsAll es).filterMap Expr.resource? = Expr.referencesAll es
  | [] => rfl
  | e :: es => filterMap_append_of_eq e.filterMap_parts (Expr.filterMap_partsAll es)

theorem Method.filterMap_parts : (m : Method) → m.parts.filterMap Expr.resource? = m.references
  | ⟨_, _, _, _, _, _, _, _, body⟩ => Statement.filterMap_partsAll body

theorem Method.filterMap_partsAll : (ms : List Method) →
    (Method.partsAll ms).filterMap Expr.resource? = Method.referencesAll ms
  | [] => rfl
  | m :: ms => filterMap_append_of_eq m.filterMap_parts (Method.filterMap_partsAll ms)
end

namespace Expr

mutual
/-- The expression with the methods of its anonymous classes left out. -/
def bare : Expr → Expr
  | .field target name => .field target.bare name
  | .call target method args => .call (bareOption target) method (bareAll args)
  | .new type args => .new type (bareAll args)
  | .cast type e => .cast type e.bare
  | .concat parts => .concat (bareAll parts)
  | .notNull e => .notNull e.bare
  | .equals left right => .equals left.bare right.bare
  | .anonymous implements _ => .anonymous implements []
  | .this => .this
  | .super => .super
  | .null => .null
  | .ident name => .ident name
  | .literal value => .literal value
  | .staticField owner name => .staticField owner name
  | .classLiteral type => .classLiteral type
  | .resource ref => .resource ref

def bareOption : Option Expr → Option Expr
  | none => none
  | some e => some e.bare

def bareAll : List Expr → List Expr
  | [] => []
  | e :: es => e.bare :: bareAll es
end

mutual
theorem resources_eq_references_bare : (e : Expr) → e.resources = e.bare.references
  | .this | .super | .null | .ident _ | .literal _ | .staticField _ _ | .classLiteral _
  | .resource _ | .anonymous _ _ => rfl
  | .field target _ => target.resources_eq_references_bare
  | .call target _ args =>
    congrArg₂ _ (resourcesTarget_eq_references_bare target) (resourcesAll_eq_references_bare args)
  | .new _ args => resourcesAll_eq_references_bare args
  | .cast _ e => e.resources_eq_references_bare
  | .concat parts => resourcesAll_eq_references_bare parts
  | .notNull e => e.resources_eq_references_bare
  | .equals left right =>
    congrArg₂ _ left.resources_eq_references_bare right.resources_eq_references_bare

theorem resourcesTarget_eq_references_bare :
    (e : Option Expr) → resourcesTarget e = referencesOption (bareOption e)
  | none => rfl
  | some e => e.resources_eq_references_bare

theorem resourcesAll_eq_references_bare :
    (es : List Expr) → resourcesAll es = referencesAll (bareAll es)
  | [] => rfl
  | e :: es => congrArg₂ _ e.resources_eq_references_bare (resourcesAll_eq_references_bare es)
end

/-- What is listed are some of all references, in their order, and all of them if and only if no hidden
method makes one. -/
structure AllBut (hidden : List Method) (listed all : List ResourceRef) : Prop where
  sublist : listed.Sublist all
  eq_iff : listed = all ↔ ∀ m ∈ hidden, m.references = []

namespace AllBut

theorem all (refs : List ResourceRef) : AllBut [] refs refs := ⟨.refl refs, by simp⟩

theorem append {hidden hidden' : List Method} {listed listed' all all' : List ResourceRef}
    (h : AllBut hidden listed all) (h' : AllBut hidden' listed' all') :
    AllBut (hidden ++ hidden') (listed ++ listed') (all ++ all') := by
  refine ⟨h.sublist.append h'.sublist, ?_⟩
  rw [List.forall_mem_append, ← h.eq_iff, ← h'.eq_iff]
  constructor
  · intro heq
    -- No part of the list is longer than what it is a part of, so both have the full length.
    have hlength := congrArg List.length heq
    have hle := h.sublist.length_le
    have hle' := h'.sublist.length_le
    rw [List.length_append, List.length_append] at hlength
    exact List.append_inj heq (by omega)
  · rintro ⟨rfl, rfl⟩
    rfl

theorem anonymous (ms : List Method) :
    AllBut (ms ++ (Method.partsAll ms).flatMap methods) [] (Method.referencesAll ms) := by
  refine ⟨List.nil_sublist _, ?_⟩
  rw [eq_comm]
  constructor
  · intro hnone m hm
    have hsubset : m.parts ⊆ Method.partsAll ms := by
      rcases List.mem_append.1 hm with hm | hm
      · exact Method.parts_subset_partsAll hm
      · exact Method.parts_subset_of_mem_methods (Method.closedPartsAll ms) hm
    rw [← Method.filterMap_partsAll, List.filterMap_eq_nil_iff] at hnone
    rw [← Method.filterMap_parts, List.filterMap_eq_nil_iff]
    exact fun part hpart => hnone part (hsubset hpart)
  · intro hquiet
    rw [Method.referencesAll_eq_flatMap, List.flatMap_eq_nil_iff]
    exact fun m hm => hquiet m (List.mem_append_left _ hm)

end AllBut

mutual
theorem resources_allBut : (e : Expr) → AllBut e.inner e.resources e.references
  | .this | .super | .null | .ident _ | .literal _ | .staticField _ _ | .classLiteral _ => .all []
  | .resource ref => .all [ref]
  | .field target _ => target.resources_allBut
  | .call target method args => by
    have hinner : (call target method args).inner =
        (partsOption target).flatMap methods ++ (partsAll args).flatMap methods :=
      List.flatMap_append
    rw [hinner]
    exact (resourcesTarget_allBut target).append (resourcesAll_allBut args)
  | .new _ args => resourcesAll_allBut args
  | .cast _ e => e.resources_allBut
  | .concat parts => resourcesAll_allBut parts
  | .notNull e => e.resources_allBut
  | .equals left right => by
    have hinner : (equals left right).inner = left.inner ++ right.inner := List.flatMap_append
    rw [hinner]
    exact left.resources_allBut.append right.resources_allBut
  | .anonymous _ ms => .anonymous ms

theorem resourcesTarget_allBut : (e : Option Expr) →
    AllBut ((partsOption e).flatMap methods) (resourcesTarget e) (referencesOption e)
  | none => .all []
  | some e => e.resources_allBut

theorem resourcesAll_allBut : (es : List Expr) →
    AllBut ((partsAll es).flatMap methods) (resourcesAll es) (referencesAll es)
  | [] => .all []
  | e :: es => by
    have hinner : (partsAll (e :: es)).flatMap methods = e.inner ++ (partsAll es).flatMap methods :=
      List.flatMap_append
    rw [hinner]
    exact e.resources_allBut.append (resourcesAll_allBut es)
end

/-- The resources of an expression are those outside its anonymous classes, from left to right with
repeats. They are all resources among the parts of the expression if and only if no method of an anonymous
class in it refers to one. -/
theorem resources_eq_occurrences_iff (e : Expr) :
    e.resources = (e.bare :: e.bare.parts).filterMap resource? ∧
    e.resources.Sublist ((e :: e.parts).filterMap resource?) ∧
    (e.resources = (e :: e.parts).filterMap resource? ↔
      ∀ m ∈ e.inner, m.parts.filterMap resource? = []) := by
  have hall := e.resources_allBut
  rw [filterMap_parts, filterMap_parts]
  refine ⟨e.resources_eq_references_bare, hall.sublist, hall.eq_iff.trans ?_⟩
  exact forall₂_congr fun m _ => by rw [m.filterMap_parts]

private def showLayout : Expr :=
  .anonymous (.named "java.lang.Runnable")
    [{ Method.new "run" with
      body := [.run (.callHere "setContentView" [.resource ⟨.project, .layout, "main", 7⟩])] }]

/-- The content view of a runnable is a resource in the expression, but not listed. -/
theorem resources_ne_occurrences_showLayout : showLayout.resources = [] ∧
    (showLayout :: showLayout.parts).filterMap resource? = [⟨.project, .layout, "main", 7⟩] :=
  ⟨rfl, rfl⟩

end Expr

end ComponentGlue
