import Mathlib.Data.List.Basic
import Mathlib.Tactic.Tauto
import ComponentGlue.Proofs.Validation.Outcome
import ComponentGlue.Rule.Standard

set_option autoImplicit false
set_option relaxedAutoImplicit false

namespace ComponentGlue

section Requirement

open Checked (Yields yields_pure yields_require yields_error)

/-- What a rule requires of a declaration besides known resources. -/
structure Requirement where
  own : Prop
  /-- Markers that must be found on elements, which thereby become owners. -/
  needs : List Owner
  excludes : List Owner
  warnings : List String

/-- The requirement is met and the resources are known. -/
structure Requirement.Met (r : Requirement) (keys : List ResourceKey) (s : Subject) : Prop where
  own : r.own
  needs : ∀ o ∈ r.needs, s.context.extracted.isAnnotated o.element o.marker = true
  excludes : ∀ o ∈ r.excludes, s.context.extracted.isAnnotated o.element o.marker = false
  resources : ∀ key ∈ keys, s.Resolves key

theorem Requirement.met_iff {r : Requirement} {keys : List ResourceKey} {s : Subject} :
    r.Met keys s ↔ r.own ∧
      (∀ o ∈ r.needs, s.context.extracted.isAnnotated o.element o.marker = true) ∧
      (∀ o ∈ r.excludes, s.context.extracted.isAnnotated o.element o.marker = false) ∧
      ∀ key ∈ keys, s.Resolves key :=
  ⟨fun h => ⟨h.own, h.needs, h.excludes, h.resources⟩, fun h => ⟨h.1, h.2.1, h.2.2.1, h.2.2.2⟩⟩

def Requirement.findings (r : Requirement) (keys : List ResourceKey) : Findings :=
  r.needs.map .needs ++ keys.map .lookedUp ++ r.warnings.map .warning

namespace Requirement

theorem mem_owners_findings {r : Requirement} {keys : List ResourceKey} {owner : Owner} :
    owner ∈ (r.findings keys).owners ↔ owner ∈ r.needs := by
  have howners : (r.findings keys).filterMap Finding.owner? = r.needs := by
    simp [findings, List.filterMap_append, List.filterMap_map, Function.comp_def, Finding.owner?]
  rw [Findings.owners, howners, mem_appendDistinct]
  simp

theorem lookups_findings (r : Requirement) (keys : List ResourceKey) :
    (r.findings keys).lookups = keys := by
  simp [Findings.lookups, findings, List.filterMap_append, List.filterMap_map, Function.comp_def,
    Finding.key?, List.filterMap_none]

theorem diagnostics_findings (r : Requirement) (keys : List ResourceKey) (d : Declaration) :
    (r.findings keys).diagnostics d =
      r.warnings.map fun message => (Diagnostic.warning validationPhase message).about d := by
  simp [Findings.diagnostics, findings, List.filterMap_append, List.filterMap_map,
    Function.comp_def, Finding.diagnostic?, List.filterMap_none]

end Requirement

def Rule.Demands (r : Rule) (required : Subject → Requirement) : Prop :=
  ∀ s, (r.check s).Yields ((required s).Met (r.resources s.declaration) s) ()
    ((required s).findings (r.resources s.declaration))

namespace Subject

def component (s : Subject) : Owner := ⟨s.declaration.element.owner, .enhancedComponent⟩

def Reachable (s : Subject) (kind : ElementKind) : Prop :=
  s.declaration.element.kind = kind ∧ s.declaration.element.hasModifier .privateAccess = false

theorem Reachable.isType_eq_false {s : Subject} {kind : ElementKind} (h : s.Reachable kind)
    (hkind : kind.isType = false) : s.declaration.element.kind.isType = false :=
  h.1 ▸ hkind

def Typed (s : Subject) (p : String → Prop) : Prop :=
  ∃ type, s.declaration.element.type = some type ∧ p type

theorem yields_elementCheck (s : Subject) (kind : ElementKind) {body : Checked Unit} {q : Prop}
    {fs : Findings} (hbody : s.declaration.element.kind = kind → body.Yields q () fs) :
    (do if ← s.elementKind [kind] then body : Checked Unit).Yields
      (s.declaration.element.kind = kind ∧ q) () fs :=
  Yields.of_iff
    (Yields.bind (s.yields_elementKind [kind]) fun h => hbody (List.mem_singleton.1 h)) (by simp)

theorem yields_memberCheck (s : Subject) {kind : ElementKind} (hkind : kind.isType = false)
    {body : Checked Unit} {q : Prop} {fs : Findings} (hbody : body.Yields q () fs) :
    (do if ← s.componentMember kind then body : Checked Unit).Yields
      (s.Reachable kind ∧
        s.context.extracted.isAnnotated s.component.element s.component.marker = true ∧ q) ()
      (.needs s.component :: fs) :=
  Yields.of_iff (Yields.bind (s.yields_componentMember hkind) fun _ => hbody)
    (by simp only [Reachable, component]; tauto)

theorem yields_memberRule (s : Subject) {kind : ElementKind} (hkind : kind.isType = false)
    {body : Checked Unit} {q : Prop} {more excluded : List Owner} {keys : List ResourceKey}
    (hbody : body.Yields (q ∧
      (∀ o ∈ more, s.context.extracted.isAnnotated o.element o.marker = true) ∧
      (∀ o ∈ excluded, s.context.extracted.isAnnotated o.element o.marker = false) ∧
      ∀ key ∈ keys, s.Resolves key) () (more.map .needs ++ keys.map .lookedUp)) :
    (do if ← s.componentMember kind then body : Checked Unit).Yields
      (Requirement.Met ⟨s.Reachable kind ∧ q, s.component :: more, excluded, []⟩ keys s) ()
      (Requirement.findings ⟨s.Reachable kind ∧ q, s.component :: more, excluded, []⟩ keys) := by
  refine (s.yields_memberCheck hkind hbody).congr ?_ fun _ => ?_
  · rw [Requirement.met_iff, List.forall_mem_cons]
    tauto
  · simp [Requirement.findings]

theorem yields_ofType (s : Subject) {body : String → Checked Unit} {q : Prop} {fs : Findings}
    (h : ∀ type, s.declaration.element.type = some type → (body type).Yields q () fs) :
    (do if let some type ← s.fieldType then body type : Checked Unit).Yields
      (s.declaration.element.type.isSome = true ∧ q) () fs := by
  refine Yields.bind s.yields_fieldType fun hsome => ?_
  obtain ⟨type, htype⟩ := Option.isSome_iff_exists.1 hsome
  rw [htype]
  exact h type htype

theorem yields_typeCheck (s : Subject) {test : String → Checked Unit} {p : String → Prop}
    (h : ∀ type, (test type).Yields (p type) () []) :
    (do if let some type ← s.fieldType then test type : Checked Unit).Yields (s.Typed p) () [] := by
  have htyped : s.Typed p → s.declaration.element.type.isSome = true := by
    rintro ⟨type, htype, -⟩
    exact Option.isSome_iff_exists.2 ⟨type, htype⟩
  refine (s.yields_ofType (q := s.Typed p) fun type htype => (h type).of_iff ?_).of_iff
    (and_iff_right_of_imp htyped)
  simp [Typed, htype]

theorem yields_typeRequire (s : Subject) (condition : String → Bool) (message : String → String)
    {rest : Checked Unit} {q : Prop} {fs : Findings} (hrest : rest.Yields q () fs) :
    (do
      if let some type ← s.fieldType then
        let _ ← Checked.require (condition type) (message type)
      rest : Checked Unit).Yields (s.Typed (fun type => condition type = true) ∧ q) () fs := by
  refine Yields.of_iff (q := s.Typed (fun type => condition type = true) ∧ q) (Yields.bind
    (q := (∀ type, s.declaration.element.type = some type → condition type = true) ∧ q)
    s.yields_fieldType fun hsome => ?_) ?_
  · obtain ⟨type, htype⟩ := Option.isSome_iff_exists.1 hsome
    rw [htype]
    exact Yields.of_iff (Yields.bind (yields_require _ _) fun _ => hrest) (by simp)
  · rw [← and_assoc]
    refine and_congr_left fun _ => ?_
    rw [Typed, Option.isSome_iff_exists]
    grind

theorem yields_requiredStr (s : Subject) (name missing : String) {body : String → Checked Unit}
    {q : String → Prop} {g : String → Findings} (h : ∀ text, (body text).Yields (q text) () (g text)) :
    (do
      if (s.declaration.arg? name).isNone then Checked.error missing
      else if let some text ← s.optionalStr name then body text : Checked Unit).Yields
      (∃ text, s.declaration.argStr? name = some text ∧ q text) ()
      ((s.declaration.argStr? name).toList.flatMap g) := by
  have hread := s.yields_optionalArg name "a string" Argument.str?
  unfold Declaration.argStr?
  cases harg : s.declaration.arg? name with
  | none => exact (yields_error _ _).of_iff (by simp)
  | some value =>
    rw [harg] at hread
    refine Yields.of_iff (Yields.bind (q := ∀ text, value.str? = some text → q text) hread
      fun hreads => ?_) ?_
    · obtain ⟨text, htext⟩ := Option.isSome_iff_exists.1 (hreads value harg)
      simp only [Option.bind_some, htext]
      exact (h text).congr (by simp) fun _ => by simp
    · simp only [Declaration.Reads, harg, Option.bind_some, Option.isSome_iff_exists]
      grind

theorem yields_optionalResource (s : Subject) (type : ResourceType) (name : String) :
    (do if let some found ← s.optionalStr name then
          let _ ← s.resource type found : Checked Unit).Yields
      (s.declaration.Reads name Argument.str? ∧
        ∀ key ∈ (s.declaration.argStr? name).toList.map fun n => ⟨type, n⟩, s.Resolves key) ()
      (((s.declaration.argStr? name).toList.map fun n => ⟨type, n⟩).map .lookedUp) := by
  unfold Declaration.argStr?
  refine Yields.bind (s.yields_optionalArg name "a string" Argument.str?) fun _ => ?_
  cases (s.declaration.arg? name).bind Argument.str? with
  | none => exact (yields_pure ()).of_iff (by simp)
  | some found =>
    exact Yields.of_iff (Yields.bind (s.yields_resource type found) fun _ => yields_pure ())
      (by simp)

theorem yields_namedResource (s : Subject) (type : ResourceType) (name : String) :
    (do if let some found ← s.strOr name s.element.name then
          let _ ← s.resource type found : Checked Unit).Yields
      (s.declaration.Reads name Argument.str? ∧
        s.Resolves ⟨type, s.declaration.argOrName name⟩) ()
      [.lookedUp ⟨type, s.declaration.argOrName name⟩] :=
  Yields.of_iff (Yields.bind (s.yields_strOr name s.element.name) fun _ =>
    (s.yields_resource type (s.declaration.argOrName name)).bind fun _ => yields_pure ()) (by simp)

theorem yields_namedResources (s : Subject) (type : ResourceType) (name : String)
    (default : List String) :
    (do let names ← s.stringsOr name default
        s.resources type (names.getD []) : Checked Unit).Yields
      (s.declaration.Reads name Argument.strings? ∧
        ∀ key ∈ ((s.declaration.argStrings? name).getD default).map fun n => ⟨type, n⟩,
          s.Resolves key) ()
      ((((s.declaration.argStrings? name).getD default).map fun n => ⟨type, n⟩).map .lookedUp) :=
  Yields.congr (Yields.bind (s.yields_stringsOr name default) fun _ =>
    s.yields_resources type ((s.declaration.argStrings? name).getD default))
    (by simp) (fun _ => by simp)

end Subject

end Requirement

section TypeDemand

open Checked (Yields yields_pure yields_require yields_test yields_each)

namespace Component

def requirement (s : Subject) : Requirement where
  own := s.declaration.element.kind = .classType ∧
    s.declaration.element.hasModifier .final = false ∧
    s.declaration.element.hasModifier .privateAccess = false ∧
    s.declaration.element.hasModifier .abstract = false ∧
    s.context.project.isRegistered s.declaration.qualifiedName = true ∧
    s.declaration.Reads "layout" Argument.str?
  needs := []
  excludes := []
  warnings := []

theorem demands : rule.Demands requirement := by
  intro s
  refine Yields.congr (s.yields_elementCheck .classType fun _ =>
    (Yields.bind (s.yields_without .final) fun _ =>
      Yields.bind (s.yields_without .privateAccess) fun _ =>
      Yields.bind (s.yields_without .abstract) fun _ =>
      Yields.bind (yields_require _ _) fun _ =>
      s.yields_optionalResource .layout "layout")) ?_ fun _ => ?_
  · rw [Requirement.met_iff]
    simp [requirement, rule, resources, and_assoc]
  · simp [Requirement.findings, requirement, rule, resources]

end Component

namespace PreferenceHelper

def Getter (m : MethodSig) : Prop :=
  m.params = [] ∧ typeMatchesAny (m.returns.getD "void") valueTypes = true

def requirement (s : Subject) : Requirement where
  own := s.declaration.element.kind = .interfaceType ∧ ∀ m ∈ s.declaration.element.methods, Getter m
  needs := []
  excludes := []
  warnings := []

theorem yields_checkGetter (m : MethodSig) : (checkGetter m).Yields (Getter m) () [] :=
  Yields.of_iff (Yields.bind (yields_require _ _) fun _ => yields_test _ _) (by simp [Getter])

theorem demands : rule.Demands requirement := by
  intro s
  refine Yields.congr (s.yields_elementCheck .interfaceType fun _ =>
    (yields_each fun m _ => yields_checkGetter m)) ?_ fun _ => ?_
  · rw [Requirement.met_iff]
    simp [requirement, rule, Subject.element]
  · simp [Requirement.findings, requirement, rule]

end PreferenceHelper

namespace RestClient

def requirement (s : Subject) : Requirement where
  own := s.declaration.element.kind = .interfaceType ∧
    s.declaration.Reads "root_url" Argument.str? ∧
    ∀ m ∈ s.declaration.element.methods,
      isRequest s.context.extracted (s.declaration.qualifiedName ++ "#" ++ m.name) = true
  needs := []
  excludes := []
  warnings := []

theorem demands : rule.Demands requirement := by
  intro s
  refine Yields.congr (s.yields_elementCheck .interfaceType fun _ =>
    (Yields.bind (s.yields_optionalArg "root_url" "a string" Argument.str?) fun _ =>
      yields_each fun _ _ => yields_test _ _)) ?_ fun _ => ?_
  · rw [Requirement.met_iff]
    simp [requirement, rule, Subject.element]
  · simp [Requirement.findings, requirement, rule]

end RestClient

namespace OptionsMenu

def requirement (s : Subject) : Requirement where
  own := s.declaration.element.kind = .classType ∧ (s.declaration.argStr? "menu").isSome = true
  needs := [⟨s.declaration.qualifiedName, .enhancedComponent⟩]
  excludes := []
  warnings := []

theorem demands : rule.Demands requirement := by
  intro s
  refine Yields.congr (s.yields_elementCheck .classType fun _ =>
    (Yields.bind (s.yields_alsoMarked .enhancedComponent) fun _ =>
      s.yields_requiredStr "menu" _ fun menu =>
      Yields.bind (s.yields_resource .menu menu) fun _ => yields_pure ())) ?_ fun hmet => ?_
  · rw [Requirement.met_iff]
    cases hmenu : s.declaration.argStr? "menu" with
    | none => simp [requirement, hmenu]
    | some menu =>
      simp [requirement, rule, resources, hmenu]
  · obtain ⟨menu, hmenu⟩ := Option.isSome_iff_exists.1 hmet.own.2
    simp [Requirement.findings, requirement, rule, resources, hmenu]

end OptionsMenu

end TypeDemand

open Checked (Yields yields_pure yields_require yields_test yields_error)

namespace BoundView

def requirement (s : Subject) : Requirement where
  own := s.Reachable .field ∧ s.declaration.element.hasModifier .static = false ∧
    s.Typed (fun _ => True) ∧ s.declaration.Reads "id" Argument.str?
  needs := [s.component]
  excludes := []
  warnings := []

theorem demands : rule.Demands requirement := by
  intro s
  refine s.yields_memberRule rfl (Yields.of_iff
    (Yields.bind (s.yields_without .static) fun _ =>
      Yields.bind s.yields_fieldType fun _ =>
      s.yields_namedResource .id "id") ?_)
  simp [rule, resources, Subject.Typed, Option.isSome_iff_exists, and_assoc]

end BoundView

namespace HtmlText

def requirement (s : Subject) : Requirement where
  own := s.Reachable .field ∧ s.Typed (fun type => typeMatchesAny type textViews = true) ∧
    s.declaration.Reads "name" Argument.str?
  needs := [s.component, ⟨s.declaration.qualifiedName, .bindsView⟩]
  excludes := []
  warnings := []

theorem demands : rule.Demands requirement := by
  intro s
  refine s.yields_memberRule rfl (Yields.of_iff
    (Yields.bind (s.yields_alsoMarked .bindsView) fun _ =>
      s.yields_typeRequire _ _ (s.yields_namedResource .string "name")) ?_)
  simp [rule, resources, and_assoc, and_left_comm]

end HtmlText

namespace PreferenceField

def origin? (s : Subject) : Option String :=
  s.declaration.element.type.bind (helperOrigin? s.context)

def requirement (s : Subject) : Requirement where
  own := s.Reachable .field ∧ (origin? s).isSome = true
  needs := s.component :: (origin? s).toList.map fun origin => ⟨origin, .sharedPref⟩
  excludes := []
  warnings := []

theorem isAnnotated_of_helperOrigin? {context : ValidationContext} {type origin : String}
    (h : helperOrigin? context type = some origin) :
    context.extracted.isAnnotated origin .sharedPref = true := by
  obtain ⟨d, hd, hname⟩ := List.mem_map.1 (List.mem_of_find?_eq_some h)
  exact List.any_eq_true.2 ⟨d, hd, beq_iff_eq.2 hname⟩

theorem yields_helper (s : Subject) {type : String}
    (htype : s.declaration.element.type = some type) :
    Yields (match helperOrigin? s.context type with
      | some origin => Subject.dependsOn origin .sharedPref
      | none => Checked.error <|
        s!"{Marker.pref} field type {type} is not a helper generated for a " ++
          s!"{Marker.sharedPref} interface")
      ((origin? s).isSome = true) ()
      (((origin? s).toList.map fun origin => ⟨origin, .sharedPref⟩).map .needs) := by
  simp only [origin?, htype, Option.bind_some]
  cases helperOrigin? s.context type with
  | none => exact (yields_error _ _).of_iff (by simp)
  | some origin => exact (Subject.yields_dependsOn origin .sharedPref).of_iff (by simp)

theorem demands : rule.Demands requirement := by
  intro s
  have hneeds : ∀ o ∈ (origin? s).toList.map fun origin => (⟨origin, .sharedPref⟩ : Owner),
      s.context.extracted.isAnnotated o.element o.marker = true := by
    intro o ho
    obtain ⟨origin, horigin, rfl⟩ := List.mem_map.1 ho
    obtain ⟨type, -, htype⟩ := Option.bind_eq_some_iff.1 (Option.mem_toList.1 horigin)
    exact isAnnotated_of_helperOrigin? htype
  have htyped : (origin? s).isSome = true → s.declaration.element.type.isSome = true := by
    intro h
    obtain ⟨origin, horigin⟩ := Option.isSome_iff_exists.1 h
    obtain ⟨type, htype, -⟩ := Option.bind_eq_some_iff.1 horigin
    exact Option.isSome_iff_exists.2 ⟨type, htype⟩
  refine s.yields_memberRule rfl ((s.yields_ofType fun type => yields_helper s).congr
    ?_ fun _ => (List.append_nil _).symm)
  constructor
  · rintro ⟨-, horigin⟩
    exact ⟨horigin, hneeds, fun _ ho => absurd ho List.not_mem_nil,
      fun _ hkey => absurd hkey List.not_mem_nil⟩
  · rintro ⟨horigin, -⟩
    exact ⟨htyped horigin, horigin⟩

end PreferenceField

namespace ResourceKind

def requirement (k : ResourceKind) (s : Subject) : Requirement where
  own := s.Reachable .field ∧ s.Typed (fun type => k.accepts type = true) ∧
    s.declaration.Reads "name" Argument.str?
  needs := [s.component]
  excludes := []
  warnings := []

theorem demands (k : ResourceKind) : k.rule.Demands k.requirement := by
  intro s
  refine s.yields_memberRule rfl (Yields.of_iff
    (s.yields_typeRequire _ _ (s.yields_namedResource k.resourceType "name")) ?_)
  simp [rule, resources, and_assoc]

end ResourceKind

namespace Extra

def requirement (s : Subject) : Requirement where
  own := s.Reachable .field ∧ s.Typed (fun _ => True) ∧ s.declaration.Reads "key" Argument.str? ∧
    s.declaration.argOrName "key" ≠ ""
  needs := [s.component]
  excludes := []
  warnings := []

theorem demands : rule.Demands requirement := by
  intro s
  have hkey : Yields (if some (s.declaration.argOrName "key") = some "" then
      Checked.error s!"{Marker.extra} key must not be empty" else pure ())
      (s.declaration.argOrName "key" ≠ "") () [] := by
    by_cases hempty : s.declaration.argOrName "key" = ""
    · rw [if_pos (congrArg some hempty)]
      exact (yields_error _ _).of_iff (by simp [hempty])
    · rw [if_neg fun h => hempty (Option.some.inj h)]
      exact (yields_pure ()).of_iff (by simp [hempty])
  refine s.yields_memberRule rfl (Yields.of_iff
    (Yields.bind s.yields_fieldType fun _ =>
      Yields.bind (s.yields_strOr "key" s.element.name) fun _ => hkey) ?_)
  simp [rule, Subject.Typed, Option.isSome_iff_exists]

end Extra

namespace SystemService

def requirement (s : Subject) : Requirement where
  own := s.Reachable .field ∧
    s.Typed fun type => (s.context.project.services.constantFor? type).isSome = true
  needs := [s.component]
  excludes := []
  warnings := []

theorem demands : rule.Demands requirement := by
  intro s
  refine s.yields_memberRule rfl (Yields.of_iff (s.yields_typeCheck fun type =>
    yields_test (s.context.project.services.constantFor? type).isSome _) ?_)
  simp [rule]

end SystemService

namespace ApplicationField

def requirement (s : Subject) : Requirement where
  own := s.Reachable .field ∧ ∃ application, s.context.project.application = some application ∧
    s.Typed fun type => typeMatches type application = true
  needs := [s.component]
  excludes := []
  warnings := []

theorem yields_application (s : Subject) :
    Yields (match s.context.project.application with
      | none => Checked.error
        s!"{Marker.application} requires [project].application in tagsmith.toml"
      | some application => (do
        if let some type ← s.fieldType then
          let _ ← Checked.require (typeMatches type application)
            s!"{Marker.application} field must have type {application}, found {type}" :
          Checked Unit))
      (∃ application, s.context.project.application = some application ∧
        s.Typed fun type => typeMatches type application = true) () [] := by
  cases s.context.project.application with
  | none => exact (yields_error _ _).of_iff (by simp)
  | some application =>
    exact (s.yields_typeCheck fun type => yields_test (typeMatches type application) _).of_iff
      (by simp)

theorem demands : rule.Demands requirement := by
  intro s
  refine s.yields_memberRule rfl ((yields_application s).of_iff ?_)
  simp [rule]

end ApplicationField

end ComponentGlue
