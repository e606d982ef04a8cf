import Mathlib.Data.List.Nodup
import ComponentGlue.Proofs.Rule.Requirement

set_option autoImplicit false
set_option relaxedAutoImplicit false

namespace ComponentGlue

section MethodDemand

open Checked (Yields yields_pure yields_require yields_test yields_error yields_each)

namespace OptionsItem

def requirement (s : Subject) : Requirement where
  own := s.Reachable .method ∧ shapeFits s.declaration.element.paramTypes = true ∧
    (s.declaration.element.returnsVoid = true ∨
      typeMatches (s.declaration.element.type.getD "") "boolean" = true) ∧
    s.declaration.Reads "ids" Argument.strings?
  needs := [s.component]
  excludes := []
  warnings := []

theorem demands : rule.Demands requirement := by
  intro s
  refine s.yields_memberRule rfl (Yields.of_iff
    (Yields.bind (yields_require _ _) fun _ =>
      Yields.bind (yields_require _ _) fun _ =>
      s.yields_namedResources .id "ids" [defaultId s.element.name]) ?_)
  simp [rule, resources, Subject.element, and_assoc]

end OptionsItem

namespace ListenerKind

def requirement (k : ListenerKind) (s : Subject) : Requirement where
  own := s.Reachable .method ∧
    (∃ shape ∈ k.handlerShapes, shapeFits shape s.declaration.element.paramTypes = true) ∧
    (s.declaration.element.returnsVoid = true ∨ k.returnsBoolean = true ∧
      typeMatches (s.declaration.element.type.getD "") "boolean" = true) ∧
    s.declaration.Reads "ids" Argument.strings?
  needs := [s.component]
  excludes := []
  warnings := []

theorem demands (k : ListenerKind) : k.rule.Demands k.requirement := by
  intro s
  have hshape : (k.checkShape s).Yields
      (∃ shape ∈ k.handlerShapes, shapeFits shape s.declaration.element.paramTypes = true)
      () [] :=
    (yields_test _ _).of_iff (by simp [Subject.element])
  have hreturn : (k.checkReturn s).Yields
      (s.declaration.element.returnsVoid = true ∨ k.returnsBoolean = true ∧
        typeMatches (s.declaration.element.type.getD "") "boolean" = true) () [] :=
    (yields_test _ _).of_iff (by simp [Subject.element])
  refine s.yields_memberRule rfl (Yields.of_iff
    (Yields.bind hshape fun _ => Yields.bind hreturn fun _ =>
      s.yields_namedResources .id "ids" [k.defaultId s.element.name]) ?_)
  simp [rule, resources, Subject.element, and_assoc]

end ListenerKind

namespace ThreadKind

def requirement (k : ThreadKind) (s : Subject) : Requirement where
  own := s.Reachable .method ∧ s.declaration.element.hasModifier .static = false ∧
    s.declaration.element.hasModifier .abstract = false ∧
    s.declaration.element.hasModifier .final = false ∧
    s.declaration.element.returnsVoid = true ∧ s.declaration.element.throws = [] ∧
    s.declaration.Reads "delay" Argument.int? ∧
    ∀ delay, s.declaration.argInt? "delay" = some delay → 0 ≤ delay
  needs := [s.component]
  excludes := [⟨s.declaration.qualifiedName, k.opposite.marker⟩,
    ⟨s.declaration.qualifiedName, .transactional⟩]
  warnings := []

theorem yields_delay (k : ThreadKind) (s : Subject) :
    Yields (match s.declaration.argInt? "delay" with
      | some delay => (do
          let _ ← Checked.require (0 ≤ delay)
            s!"{k.marker} delay must not be negative, found {delay}" : Checked Unit)
      | _ => pure ()) (∀ delay, s.declaration.argInt? "delay" = some delay → 0 ≤ delay) () [] := by
  cases s.declaration.argInt? "delay" with
  | none => exact (yields_pure ()).of_iff (by simp)
  | some delay => exact (yields_test _ _).of_iff (by simp)

theorem demands (k : ThreadKind) : k.rule.Demands k.requirement := by
  intro s
  refine s.yields_memberRule rfl (Yields.of_iff
    (Yields.bind (s.yields_without .static) fun _ =>
      Yields.bind (s.yields_without .abstract) fun _ =>
      Yields.bind (s.yields_without .final) fun _ =>
      Yields.bind s.yields_returnsVoid fun _ =>
      Yields.bind s.yields_noThrows fun _ =>
      Yields.bind (s.yields_notCombinedWith k.opposite.marker) fun _ =>
      Yields.bind (s.yields_notCombinedWith .transactional) fun _ =>
      Yields.bind (s.yields_optionalArg "delay" "an integer" Argument.int?) fun _ =>
      k.yields_delay s) ?_)
  simp [rule, and_assoc, and_left_comm, and_comm]

end ThreadKind

namespace LifecycleHook

def requirement (s : Subject) : Requirement where
  own := s.Reachable .method ∧ s.declaration.element.params = [] ∧
    s.declaration.element.returnsVoid = true
  needs := [s.component]
  excludes := []
  warnings := []

theorem demands (h : LifecycleHook) : h.rule.Demands requirement := by
  intro s
  refine s.yields_memberRule rfl (Yields.of_iff
    (Yields.bind s.yields_noParams fun _ =>
      Yields.bind s.yields_returnsVoid fun _ => yields_pure ()) ?_)
  simp [rule]

end LifecycleHook

namespace Transaction

def requirement (s : Subject) : Requirement where
  own := s.Reachable .method ∧ s.declaration.element.hasModifier .static = false ∧
    s.declaration.element.hasModifier .final = false ∧
    ∃ type, s.declaration.element.paramTypes.head? = some type ∧
      typeMatches type database = true
  needs := [s.component]
  excludes := ThreadKind.all.map fun k => ⟨s.declaration.qualifiedName, k.marker⟩
  warnings := []

theorem demands : rule.Demands requirement := by
  intro s
  have hthread : ∀ k ∈ ThreadKind.all,
      (do let _ ← s.notCombinedWith k.marker : Checked Unit).Yields
      (s.context.extracted.isAnnotated s.declaration.qualifiedName k.marker = false) () [] :=
    fun k _ => Yields.of_iff
      (Yields.bind (s.yields_notCombinedWith k.marker) fun _ => yields_pure ()) (by simp)
  refine s.yields_memberRule rfl (Yields.of_iff
    (Yields.bind (s.yields_without .static) fun _ =>
      Yields.bind (s.yields_without .final) fun _ =>
      Yields.bind (yields_each hthread) fun _ => yields_test _ _) ?_)
  simp [rule, Subject.element, Option.any_eq_true, and_assoc, and_left_comm, and_comm]

end Transaction

namespace HttpMethod

def Binds (http : HttpMethod) (element : Element) (url : String) : Prop :=
  (∀ name ∈ urlPlaceholders url, ∃ p ∈ element.params, p.name = name) ∧
    (unboundParams element (urlPlaceholders url)).length ≤ if http.takesBody then 1 else 0

def urlWarnings (http : HttpMethod) (url : String) : List String :=
  if (Text.afterPrefix? ['/'] url.toList).isSome then []
  else [s!"{http.marker} url '{url}' does not start with '/'"]

def requirement (http : HttpMethod) (s : Subject) : Requirement where
  own := s.declaration.element.kind = .method ∧
    (http.requiresVoid = true → s.declaration.element.returnsVoid = true) ∧
    (http.responseTypes = [] ∨
      typeMatchesAny (s.declaration.element.type.getD "void") http.responseTypes = true) ∧
    ∃ url, s.declaration.argStr? "url" = some url ∧ url ≠ "" ∧
      http.Binds s.declaration.element url
  needs := [⟨s.declaration.element.owner, .rest⟩]
  excludes := []
  warnings := (s.declaration.argStr? "url").toList.flatMap http.urlWarnings

theorem yields_checkResponse (http : HttpMethod) (s : Subject) :
    (http.checkResponse s).Yields (http.responseTypes = [] ∨
      typeMatchesAny (s.declaration.element.type.getD "void") http.responseTypes = true) () [] := by
  unfold checkResponse
  cases http.responseTypes with
  | nil => exact (yields_pure ()).of_iff (by simp)
  | cons qualified others =>
    exact (yields_test _ _).of_iff (by simp [Subject.element])

theorem yields_checkUrl (http : HttpMethod) (s : Subject) (url : String) :
    (http.checkUrl s url).Yields (http.Binds s.declaration.element url) ()
      ((http.urlWarnings url).map .warning) := by
  have hrooted : (do
      if !(Text.afterPrefix? ['/'] url.toList).isSome then
        Checked.warning s!"{http.marker} url '{url}' does not start with '/'" :
      Checked Unit).Yields True () ((http.urlWarnings url).map .warning) := by
    unfold urlWarnings
    by_cases h : (Text.afterPrefix? ['/'] url.toList).isSome = true
    · rw [if_neg (by simp [h]), if_pos h]
      exact yields_pure ()
    · rw [if_pos (by simpa using h), if_neg h]
      exact Checked.yields_warning _
  have hplaceholders : (Checked.each (urlPlaceholders url) fun name => do
      let _ ← Checked.require (s.element.params.any fun p => p.name == name)
        s!"url placeholder \x7b{name}\x7d does not match any parameter" : Checked Unit).Yields
      (∀ name ∈ urlPlaceholders url, ∃ p ∈ s.declaration.element.params, p.name = name) () [] :=
    (yields_each fun name _ => (yields_test _ _).of_iff (by simp [Subject.element])).congr
      Iff.rfl fun _ => by simp
  refine Yields.bind hplaceholders fun _ => ?_
  by_cases hbody : http.takesBody = true
  · simp only [hbody, if_true]
    exact Yields.of_iff (Yields.bind (yields_require _ _) fun _ => hrooted)
      (by simp [Subject.element])
  · simp only [hbody, Bool.false_eq_true, if_false]
    cases hunbound : unboundParams s.declaration.element (urlPlaceholders url) with
    | nil => simpa [Subject.element, hunbound] using hrooted
    | cons p rest =>
      simp only [Subject.element, hunbound, List.map_cons, List.head?_cons]
      exact (Checked.yields_error_bind _ _ _ _).of_iff (by simp)

theorem yields_url (http : HttpMethod) (s : Subject) :
    (do
      if (s.declaration.arg? "url").isNone then Checked.error s!"{http.marker} requires a url"
      else if let some url ← s.optionalStr "url" then
        if url.isEmpty then Checked.error s!"{http.marker} url must not be empty"
        else http.checkUrl s url : Checked Unit).Yields
      (∃ url, s.declaration.argStr? "url" = some url ∧ url ≠ "" ∧
        http.Binds s.declaration.element url) ()
      ((s.declaration.argStr? "url").toList.flatMap fun url =>
        (http.urlWarnings url).map .warning) := by
  refine s.yields_requiredStr "url" _ fun url => ?_
  by_cases hempty : url = ""
  · rw [if_pos (String.isEmpty_iff.2 hempty)]
    exact (yields_error _ _).of_iff (by simp [hempty])
  · rw [if_neg fun h => hempty (String.isEmpty_iff.1 h)]
    exact (http.yields_checkUrl s url).of_iff (by simp [hempty])

theorem yields_request (http : HttpMethod) (s : Subject) :
    (do
      if http.requiresVoid then
        let _ ← s.returnsVoid
      http.checkResponse s
      if (s.declaration.arg? "url").isNone then Checked.error s!"{http.marker} requires a url"
      else if let some url ← s.optionalStr "url" then
        if url.isEmpty then Checked.error s!"{http.marker} url must not be empty"
        else http.checkUrl s url : Checked Unit).Yields
      ((http.requiresVoid = true → s.declaration.element.returnsVoid = true) ∧
        (http.responseTypes = [] ∨
          typeMatchesAny (s.declaration.element.type.getD "void") http.responseTypes = true) ∧
        ∃ url, s.declaration.argStr? "url" = some url ∧ url ≠ "" ∧
          http.Binds s.declaration.element url) ()
      ((s.declaration.argStr? "url").toList.flatMap fun url =>
        (http.urlWarnings url).map .warning) := by
  by_cases h : http.requiresVoid = true
  · simp only [h, if_true]
    exact Yields.of_iff (Yields.bind s.yields_returnsVoid fun _ =>
      Yields.bind (http.yields_checkResponse s) fun _ => http.yields_url s) (by simp)
  · simp only [h, Bool.false_eq_true, if_false]
    exact Yields.of_iff (Yields.bind (http.yields_checkResponse s) fun _ => http.yields_url s)
      (by simp)

theorem demands (http : HttpMethod) : http.rule.Demands http.requirement := by
  intro s
  have henclosed : s.declaration.element.kind = .method → (s.enclosedBy .rest).Yields
      (s.context.extracted.isAnnotated s.declaration.element.owner .rest = true) true
      [.needs ⟨s.declaration.element.owner, .rest⟩] := by
    intro hkind
    have hmember : s.declaration.element.kind.isType = false := by
      rw [hkind]
      rfl
    exact Element.enclosingType?_getD hmember ▸ s.yields_enclosedBy .rest
  refine Yields.congr (s.yields_elementCheck .method fun hkind =>
    Yields.bind (henclosed hkind) fun _ => http.yields_request s) ?_ fun _ => ?_
  · rw [Requirement.met_iff]
    simp [requirement, rule, and_assoc, and_left_comm, and_comm]
  · simp [Requirement.findings, requirement, rule, List.map_flatMap]

end HttpMethod

end MethodDemand

inductive StandardKind where
  | component
  | preferenceHelper
  | restClient
  | boundView
  | htmlText
  | preferenceField
  | optionsMenu
  | optionsItem
  | resourceField (k : ResourceKind)
  | listener (k : ListenerKind)
  | thread (k : ThreadKind)
  | extra
  | systemService
  | lifecycle (h : LifecycleHook)
  | transaction
  | applicationField
  | request (http : HttpMethod)

namespace StandardKind

/-- The kinds in processing order. -/
def all : List StandardKind :=
  [.component, .preferenceHelper, .restClient, .boundView, .htmlText, .preferenceField,
    .optionsMenu, .optionsItem] ++
  ResourceKind.all.map resourceField ++
  ListenerKind.all.map listener ++
  ThreadKind.all.map thread ++
  [.extra, .systemService] ++
  LifecycleHook.all.map lifecycle ++
  [.transaction, .applicationField] ++
  HttpMethod.all.map request

def rule : StandardKind → Rule
  | .component => Component.rule
  | .preferenceHelper => PreferenceHelper.rule
  | .restClient => RestClient.rule
  | .boundView => BoundView.rule
  | .htmlText => HtmlText.rule
  | .preferenceField => PreferenceField.rule
  | .optionsMenu => OptionsMenu.rule
  | .optionsItem => OptionsItem.rule
  | .resourceField k => k.rule
  | .listener k => k.rule
  | .thread k => k.rule
  | .extra => Extra.rule
  | .systemService => SystemService.rule
  | .lifecycle h => h.rule
  | .transaction => Transaction.rule
  | .applicationField => ApplicationField.rule
  | .request http => http.rule

def requirement : StandardKind → Subject → Requirement
  | .component => Component.requirement
  | .preferenceHelper => PreferenceHelper.requirement
  | .restClient => RestClient.requirement
  | .boundView => BoundView.requirement
  | .htmlText => HtmlText.requirement
  | .preferenceField => PreferenceField.requirement
  | .optionsMenu => OptionsMenu.requirement
  | .optionsItem => OptionsItem.requirement
  | .resourceField k => k.requirement
  | .listener k => k.requirement
  | .thread k => k.requirement
  | .extra => Extra.requirement
  | .systemService => SystemService.requirement
  | .lifecycle _ => LifecycleHook.requirement
  | .transaction => Transaction.requirement
  | .applicationField => ApplicationField.requirement
  | .request http => http.requirement

def marker (k : StandardKind) : Marker := k.rule.marker

theorem standardRules_eq : standardRules = all.map rule := rfl

theorem mem_all (k : StandardKind) : k ∈ all := by
  simp only [all, List.mem_append, List.mem_map]
  rcases k with - | - | - | - | - | - | - | - | k | k | k | - | - | h | - | - | http
  case resourceField => cases k <;> simp [ResourceKind.all]
  case listener => cases k <;> simp [ListenerKind.all]
  case thread => cases k <;> simp [ThreadKind.all]
  case lifecycle => cases h <;> simp [LifecycleHook.all]
  case request => cases http <;> simp [HttpMethod.all]
  all_goals simp

theorem nodup_markers : (all.map marker).Nodup := by decide +kernel

theorem marker_injective : Function.Injective marker := by
  intro k l h
  exact List.inj_on_of_nodup_map nodup_markers (mem_all k) (mem_all l) h

theorem demands (k : StandardKind) : k.rule.Demands k.requirement := by
  cases k with
  | component => exact Component.demands
  | preferenceHelper => exact PreferenceHelper.demands
  | restClient => exact RestClient.demands
  | boundView => exact BoundView.demands
  | htmlText => exact HtmlText.demands
  | preferenceField => exact PreferenceField.demands
  | optionsMenu => exact OptionsMenu.demands
  | optionsItem => exact OptionsItem.demands
  | resourceField k => exact k.demands
  | listener k => exact k.demands
  | thread k => exact k.demands
  | extra => exact Extra.demands
  | systemService => exact SystemService.demands
  | lifecycle h => exact h.demands
  | transaction => exact Transaction.demands
  | applicationField => exact ApplicationField.demands
  | request http => exact http.demands

end StandardKind

end ComponentGlue
