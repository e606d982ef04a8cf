import ComponentGlue.Generation
import ComponentGlue.Validation

set_option autoImplicit false
set_option relaxedAutoImplicit false

namespace ComponentGlue

theorem mem_appendDistinct {α : Type} [DecidableEq α] {found l : List α} {a : α} :
    a ∈ appendDistinct found l ↔ a ∈ found ∨ a ∈ l := by
  induction l generalizing found with
  | nil => simp [appendDistinct]
  | cons b rest ih =>
    rw [appendDistinct]
    split
    · next hb =>
      rw [ih, List.mem_cons]
      constructor
      · rintro (h | h)
        · exact Or.inl h
        · exact Or.inr (Or.inr h)
      · rintro (h | rfl | h)
        · exact Or.inl h
        · exact Or.inl hb
        · exact Or.inr h
    · rw [ih, List.mem_append, List.mem_singleton, List.mem_cons, or_assoc]

namespace Findings

@[simp] theorem rejects_append (fs gs : Findings) :
    Findings.rejects (fs ++ gs) = (Findings.rejects fs || Findings.rejects gs) := by
  simp [rejects, List.any_append]

end Findings

namespace Checked

variable {α β : Type}

/-- The check accepts exactly when `p` holds, and then answers with `a` and has found `fs`. -/
structure Yields (c : Checked α) (p : Prop) (a : α) (fs : Findings) : Prop where
  accepts_iff : c.findings.rejects = false ↔ p
  eq_of_holds : p → c = ⟨a, fs⟩

namespace Yields

theorem congr {c : Checked α} {p q : Prop} {a : α} {fs gs : Findings} (h : c.Yields p a fs)
    (hpq : p ↔ q) (hfs : q → fs = gs) : c.Yields q a gs :=
  ⟨h.accepts_iff.trans hpq, fun hq => hfs hq ▸ h.eq_of_holds (hpq.2 hq)⟩

theorem of_iff {c : Checked α} {p q : Prop} {a : α} {fs : Findings} (h : c.Yields p a fs)
    (hpq : p ↔ q) : c.Yields q a fs :=
  h.congr hpq fun _ => rfl

theorem findings_eq {c : Checked α} {p : Prop} {a : α} {fs : Findings} (h : c.Yields p a fs)
    (hp : p) : c.findings = fs := by
  rw [h.eq_of_holds hp]

theorem value_eq {c : Checked α} {p : Prop} {a : α} {fs : Findings} (h : c.Yields p a fs)
    (hp : p) : c.value = a := by
  rw [h.eq_of_holds hp]

theorem bind {x : Checked α} {f : α → Checked β} {p q : Prop} {a : α} {b : β}
    {fs gs : Findings} (hx : x.Yields p a fs) (hf : p → (f a).Yields q b gs) :
    (x >>= f).Yields (p ∧ q) b (fs ++ gs) := by
  constructor
  · rw [findings_bind, Findings.rejects_append, Bool.or_eq_false_iff, hx.accepts_iff]
    constructor
    · rintro ⟨hp, hq⟩
      rw [hx.value_eq hp] at hq
      exact ⟨hp, (hf hp).accepts_iff.1 hq⟩
    · rintro ⟨hp, hq⟩
      rw [hx.value_eq hp]
      exact ⟨hp, (hf hp).accepts_iff.2 hq⟩
  · rintro ⟨hp, hq⟩
    have hfa := (hf hp).eq_of_holds hq
    rw [hx.eq_of_holds hp]
    show (⟨(f a).value, fs ++ (f a).findings⟩ : Checked β) = ⟨b, fs ++ gs⟩
    rw [hfa]

end Yields

theorem yields_pure (a : α) : (pure a : Checked α).Yields True a [] :=
  ⟨by simp [Findings.rejects], fun _ => rfl⟩

theorem yields_find {f : Finding} (h : f.isError = false) : (find f).Yields True () [f] :=
  ⟨by simp [find, Findings.rejects, h], fun _ => rfl⟩

theorem yields_warning (message : String) :
    (warning message).Yields True () [.warning message] :=
  yields_find rfl

theorem yields_of_rejects {c : Checked α} (h : c.findings.rejects = true) (a : α)
    (fs : Findings) : c.Yields False a fs :=
  ⟨by simp [h], False.elim⟩

theorem yields_error (message : String) (fs : Findings) :
    (error message).Yields False () fs :=
  yields_of_rejects rfl () fs

theorem yields_error_bind (message : String) (f : Unit → Checked α) (a : α) (fs : Findings) :
    (error message >>= f).Yields False a fs :=
  yields_of_rejects rfl a fs

theorem yields_require (condition : Bool) (message : String) :
    (require condition message).Yields (condition = true) true [] := by
  cases condition with
  | false => exact (yields_error_bind message (fun _ => pure false) true []).of_iff (by simp)
  | true => exact (yields_pure true).of_iff (by simp)

theorem yields_test (condition : Bool) (message : String) :
    (do let _ ← require condition message : Checked Unit).Yields (condition = true) () [] :=
  Yields.of_iff (Yields.bind (yields_require condition message) fun _ => yields_pure ())
    (by simp)

theorem yields_each {items : List α} {check : α → Checked Unit} {p : α → Prop}
    {g : α → Findings} (h : ∀ a ∈ items, (check a).Yields (p a) () (g a)) :
    (each items check).Yields (∀ a ∈ items, p a) () (items.flatMap g) := by
  induction items with
  | nil => exact (yields_pure ()).of_iff (by simp)
  | cons a rest ih =>
    have hhead := h a List.mem_cons_self
    have htail := ih fun b hb => h b (List.mem_cons_of_mem a hb)
    exact (hhead.bind fun _ => htail).congr (by simp) (by simp)

def OnlyErrors (c : Checked α) : Prop := ∀ f ∈ c.findings, f.isError = true

theorem onlyErrors_pure (a : α) : (pure a : Checked α).OnlyErrors :=
  fun _ hf => absurd hf List.not_mem_nil

theorem OnlyErrors.bind {x : Checked α} {f : α → Checked β} (hx : x.OnlyErrors)
    (hf : ∀ a, (f a).OnlyErrors) : (x >>= f).OnlyErrors := by
  intro g hg
  rcases List.mem_append.1 hg with hg | hg
  · exact hx g hg
  · exact hf x.value g hg

theorem onlyErrors_require (condition : Bool) (message : String) :
    (require condition message).OnlyErrors := by
  cases condition with
  | false => exact fun g hg => List.mem_singleton.1 hg ▸ rfl
  | true => exact onlyErrors_pure true

theorem onlyErrors_each {items : List α} {check : α → Checked Unit}
    (h : ∀ a, (check a).OnlyErrors) : (each items check).OnlyErrors := by
  induction items with
  | nil => exact onlyErrors_pure ()
  | cons a rest ih => exact (h a).bind fun _ => ih

end Checked

namespace Declaration

def Reads {α : Type} (d : Declaration) (name : String) (read? : Argument → Option α) : Prop :=
  ∀ value, d.arg? name = some value → (read? value).isSome = true

end Declaration

namespace Element

theorem enclosingType?_getD {e : Element} (h : e.kind.isType = false) :
    e.enclosingType?.getD "" = e.owner := by
  unfold enclosingType?
  by_cases howner : e.owner.isEmpty = true
  · simp [String.isEmpty_iff.1 howner]
  · simp [h, howner]

end Element

namespace Subject

open Checked

def setting (s : Subject) : Setting := ⟨s.context.catalog, s.context.project⟩

def Resolves (s : Subject) (key : ResourceKey) : Prop := ∃ ref, s.setting.resource key = .ok ref

theorem yields_elementKind (s : Subject) (kinds : List ElementKind) :
    (s.elementKind kinds).Yields (s.declaration.element.kind ∈ kinds) true [] :=
  (yields_require _ _).of_iff List.contains_iff_mem

theorem yields_without (s : Subject) (modifier : Modifier) :
    (s.without modifier).Yields (s.declaration.element.hasModifier modifier = false) true [] :=
  (yields_require _ _).of_iff (by simp [element])

theorem yields_returnsVoid (s : Subject) :
    s.returnsVoid.Yields (s.declaration.element.returnsVoid = true) true [] :=
  yields_require _ _

theorem yields_noParams (s : Subject) :
    s.noParams.Yields (s.declaration.element.params = []) true [] :=
  (yields_require _ _).of_iff List.isEmpty_iff

theorem yields_noThrows (s : Subject) :
    s.noThrows.Yields (s.declaration.element.throws = []) true [] :=
  (yields_require _ _).of_iff List.isEmpty_iff

theorem yields_dependsOn (element : String) (marker : Marker) :
    (dependsOn element marker).Yields True () [.needs ⟨element, marker⟩] :=
  yields_find rfl

theorem yields_enclosedBy (s : Subject) (kind : Marker) :
    (s.enclosedBy kind).Yields
      (s.context.extracted.isAnnotated (s.declaration.element.enclosingType?.getD "") kind = true)
      true [.needs ⟨s.declaration.element.enclosingType?.getD "", kind⟩] := by
  by_cases h : s.context.extracted.isAnnotated
      (s.declaration.element.enclosingType?.getD "") kind = true
  · have hcheck : s.enclosedBy kind = (do
        dependsOn (s.declaration.element.enclosingType?.getD "") kind
        return true) := if_pos h
    rw [hcheck]
    exact ((yields_dependsOn _ kind).bind fun _ => yields_pure true).of_iff (by simp [h])
  · have hcheck : s.enclosedBy kind = require false
        s!"{s.marker} can only be used in a type marked {kind}" := if_neg h
    rw [hcheck]
    exact (yields_error_bind _ (fun _ => pure false) true _).of_iff (by simp [h])

theorem yields_alsoMarked (s : Subject) (kind : Marker) :
    (s.alsoMarked kind).Yields
      (s.context.extracted.isAnnotated s.declaration.qualifiedName kind = true)
      true [.needs ⟨s.declaration.qualifiedName, kind⟩] := by
  by_cases h : s.context.extracted.isAnnotated s.declaration.qualifiedName kind = true
  · have hcheck : s.alsoMarked kind = (do
        dependsOn s.declaration.qualifiedName kind
        return true) := if_pos h
    rw [hcheck]
    exact ((yields_dependsOn _ kind).bind fun _ => yields_pure true).of_iff (by simp [h])
  · have hcheck : s.alsoMarked kind = require false
        s!"{s.marker} requires the {s.element.kind} to also be marked {kind}" := if_neg h
    rw [hcheck]
    exact (yields_error_bind _ (fun _ => pure false) true _).of_iff (by simp [h])

theorem yields_notCombinedWith (s : Subject) (other : Marker) :
    (s.notCombinedWith other).Yields
      (s.context.extracted.isAnnotated s.declaration.qualifiedName other = false) true [] :=
  (yields_require _ _).of_iff (by simp)

theorem yields_optionalArg {α : Type} (s : Subject) (name expected : String)
    (read? : Argument → Option α) :
    (s.optionalArg name expected read?).Yields (s.declaration.Reads name read?)
      ((s.declaration.arg? name).bind read?) [] := by
  unfold optionalArg Declaration.Reads
  cases harg : s.declaration.arg? name with
  | none => exact (yields_pure none).of_iff (by simp)
  | some value =>
    simp only [Option.bind_some, Option.some.injEq, forall_eq']
    cases read? value with
    | none => exact (yields_error_bind _ (fun _ => pure none) none []).of_iff (by simp)
    | some a => exact (yields_pure (some a)).of_iff (by simp)

theorem onlyErrors_optionalArg {α : Type} (s : Subject) (name expected : String)
    (read? : Argument → Option α) : (s.optionalArg name expected read?).OnlyErrors := by
  unfold optionalArg
  cases s.declaration.arg? name with
  | none => exact onlyErrors_pure none
  | some value =>
    simp only
    cases read? value with
    | none => exact fun g hg => List.mem_singleton.1 hg ▸ rfl
    | some a => exact onlyErrors_pure (some a)

theorem yields_strOr (s : Subject) (name default : String) :
    (s.strOr name default).Yields (s.declaration.Reads name Argument.str?)
      (some ((s.declaration.argStr? name).getD default)) [] := by
  have hread := s.yields_optionalArg name "a string" Argument.str?
  unfold strOr optionalStr Declaration.argStr?
  cases harg : s.declaration.arg? name with
  | none => exact (yields_pure _).of_iff (by simp [Declaration.Reads, harg])
  | some value =>
    refine ⟨hread.accepts_iff, fun h => ?_⟩
    obtain ⟨text, htext⟩ := Option.isSome_iff_exists.1 (h value harg)
    simp [hread.eq_of_holds h, harg, htext]

theorem yields_stringsOr (s : Subject) (name : String) (default : List String) :
    (s.stringsOr name default).Yields (s.declaration.Reads name Argument.strings?)
      (some ((s.declaration.argStrings? name).getD default)) [] := by
  have hread := s.yields_optionalArg name "a string or a list of strings" Argument.strings?
  unfold stringsOr optionalStrings Declaration.argStrings?
  cases harg : s.declaration.arg? name with
  | none => exact (yields_pure _).of_iff (by simp [Declaration.Reads, harg])
  | some value =>
    refine ⟨hread.accepts_iff, fun h => ?_⟩
    obtain ⟨texts, htexts⟩ := Option.isSome_iff_exists.1 (h value harg)
    simp [hread.eq_of_holds h, harg, htexts]

theorem yields_fieldType (s : Subject) :
    s.fieldType.Yields (s.declaration.element.type.isSome = true) s.declaration.element.type [] := by
  unfold fieldType element
  cases s.declaration.element.type with
  | none => exact (yields_error_bind _ (fun _ => pure none) none []).of_iff (by simp)
  | some type => exact (yields_pure (some type)).of_iff (by simp)

theorem yields_resource (s : Subject) (type : ResourceType) (name : String) :
    (s.resource type name).Yields (s.Resolves ⟨type, name⟩)
      (s.setting.resource ⟨type, name⟩).toOption [.lookedUp ⟨type, name⟩] := by
  have hfind : (find (.lookedUp ⟨type, name⟩)).Yields True () [.lookedUp ⟨type, name⟩] :=
    yields_find rfl
  unfold resource Resolves Setting.resource setting
  cases s.context.catalog with
  | none =>
    exact (hfind.bind fun _ => yields_error_bind _ (fun _ => pure none) _ []).of_iff (by simp)
  | some catalog =>
    cases hlookup : catalog.lookup ⟨type, name⟩ with
    | error e =>
      simp only [hlookup]
      exact (hfind.bind fun _ => yields_error_bind _ (fun _ => pure none) _ []).of_iff (by simp)
    | ok ref =>
      simp only [hlookup]
      exact (hfind.bind fun _ => yields_pure (some ref)).of_iff (by simp)

theorem yields_resources (s : Subject) (type : ResourceType) (names : List String) :
    (s.resources type names).Yields (∀ name ∈ names, s.Resolves ⟨type, name⟩) ()
      (names.map fun name => .lookedUp ⟨type, name⟩) := by
  have heach : ∀ name ∈ names, (do let _ ← s.resource type name : Checked Unit).Yields
      (s.Resolves ⟨type, name⟩) () [.lookedUp ⟨type, name⟩] := by
    intro name _
    exact ((s.yields_resource type name).bind fun _ => yields_pure ()).of_iff (by simp)
  exact (yields_each heach).congr Iff.rfl fun _ => List.map_eq_flatMap.symm

theorem yields_componentMember (s : Subject) {kind : ElementKind} (hkind : kind.isType = false) :
    (s.componentMember kind).Yields
      (s.declaration.element.kind = kind ∧
        s.context.extracted.isAnnotated s.declaration.element.owner .enhancedComponent = true ∧
        s.declaration.element.hasModifier .privateAccess = false)
      true [.needs ⟨s.declaration.element.owner, .enhancedComponent⟩] := by
  by_cases h : s.declaration.element.kind = kind
  · have henclosed := s.yields_enclosedBy .enhancedComponent
    rw [Element.enclosingType?_getD (by rw [h, hkind])] at henclosed
    have hmember : (do
        let enclosed ← s.enclosedBy .enhancedComponent
        let reachable ← s.without .privateAccess
        return reachable && enclosed : Checked Bool).Yields _ true _ :=
      henclosed.bind fun _ => (s.yields_without .privateAccess).bind fun _ => yields_pure true
    refine Yields.of_iff (Yields.bind (s.yields_elementKind [kind]) fun _ => hmember) ?_
    simp [h]
  · refine ⟨?_, fun hp => absurd hp.1 h⟩
    have hrejects : ¬ (s.elementKind [kind]).findings.rejects = false := by
      rw [(s.yields_elementKind [kind]).accepts_iff]
      simpa using h
    constructor
    · intro haccepts
      unfold componentMember at haccepts
      rw [findings_bind, Findings.rejects_append, Bool.or_eq_false_iff] at haccepts
      exact absurd haccepts.1 hrejects
    · intro hp
      exact absurd hp.1 h

end Subject

end ComponentGlue
