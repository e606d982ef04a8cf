import ComponentGlue.Proofs.Catalog
import ComponentGlue.Proofs.Code.References
import ComponentGlue.Proofs.Generation.Growth
import ComponentGlue.Proofs.Generation.StandardRun

set_option autoImplicit false
set_option relaxedAutoImplicit false

namespace ComponentGlue

open Assemble (Reaches)
open StandardKind (step schedule)
open Statement (Within within_append within_singleton within_map within_of_eq_nil)

variable {P : ResourceRef → Prop}

namespace Contribution

/-- What the contribution adds refers to resources of a kind. -/
def Within (P : ResourceRef → Prop) : Contribution → Prop
  | .block _ f => ∀ t inner, Statement.Within P inner → Statement.Within P (f t inner)
  | .method fields m => (∀ f ∈ fields, ∀ r ∈ f.references, P r) ∧ ∀ t, Statement.Within P (m t).body
  | .dispatch _ refs => ∀ r ∈ refs, P r
  | .extra s => ∀ r ∈ s.references, P r

theorem within_changeBlock {b : CreationBlock} {f : List Statement → List Statement}
    {t t' : GeneratedType} (ht : t.Within P)
    (hf : ∀ inner, Statement.Within P inner → Statement.Within P (f inner))
    (h : changeBlock b f t = .ok t') : t'.Within P :=
  GeneratedType.within_mapBlock? ht hf (changeBlock_eq_ok_iff.1 h)

theorem within_insertBeforeLast {body : List Statement} {s : Statement}
    (hbody : Statement.Within P body) (hs : ∀ r ∈ s.references, P r) :
    Statement.Within P (OptionsItem.insertBeforeLast body s) := by
  rw [Statement.within_iff] at hbody ⊢
  intro s' hs'
  rcases mem_insertBeforeLast hs' with rfl | hs'
  · exact hs
  · exact hbody s' hs'

theorem references_dispatchBranch (element : Element) (ref : ResourceRef) :
    (OptionsItem.dispatchBranch element ref).references = [ref] := by
  unfold OptionsItem.dispatchBranch OptionsItem.handle
  split <;> split <;> rfl

theorem within_addBranches (element : Element) {refs : List ResourceRef} (hrefs : ∀ r ∈ refs, P r)
    {body : List Statement} (hbody : Statement.Within P body) :
    Statement.Within P (OptionsItem.addBranches element refs body) := by
  unfold OptionsItem.addBranches
  induction refs generalizing body with
  | nil => exact hbody
  | cons ref refs ih =>
    rw [List.forall_mem_cons] at hrefs
    refine ih hrefs.2 (within_insertBeforeLast hbody ?_)
    rw [references_dispatchBranch]
    exact List.forall_mem_singleton.2 hrefs.1

theorem within_addToGuard? {s : Statement} (hs : ∀ r ∈ s.references, P r)
    {body body' : List Statement} (hbody : Statement.Within P body)
    (h : Extra.addToGuard? s body = some body') : Statement.Within P body' := by
  rcases List.eq_nil_or_concat' body with rfl | ⟨front, last, rfl⟩
  · cases h
  · by_cases hlast : ∃ condition inner, last = .branch condition inner
    · obtain ⟨condition, inner, rfl⟩ := hlast
      rw [Extra.addToGuard?_append_branch] at h
      obtain rfl := Option.some.inj h
      obtain ⟨hfront, hbranch⟩ := within_append.1 hbody
      refine within_append.2 ⟨hfront, within_singleton.2 ?_⟩
      have hparts := within_singleton.1 hbranch
      intro r hr
      rw [Statement.references, Statement.referencesAll_eq_flatMap, List.flatMap_append,
        ← Statement.referencesAll_eq_flatMap, ← List.append_assoc, List.flatMap_singleton] at hr
      rcases List.mem_append.1 hr with hr | hr
      · exact hparts r hr
      · exact hs r hr
    · have hne : ∀ condition inner, last ≠ .branch condition inner :=
        fun condition inner heq => hlast ⟨condition, inner, heq⟩
      rw [Extra.addToGuard?_append_of_ne s front hne] at h
      cases h

theorem within_addToReading {s : Statement} (hs : ∀ r ∈ s.references, P r) {t t' : GeneratedType}
    (ht : t.Within P) (h : addToReading s t = .ok t') : t'.Within P := by
  obtain ⟨m, body, hm, hadded, rfl⟩ := addToReading_eq_ok_iff.1 h
  refine GeneratedType.within_mapMethod ht fun _ _ _ _ => ?_
  exact within_addToGuard? hs (ht.methods m (List.mem_of_find?_eq_some hm)) hadded

theorem within_call (method : String) :
    Statement.Within P [.run (.callHere method [])] :=
  within_singleton.2 fun _ hr => absurd hr List.not_mem_nil

theorem within_apply {c : Contribution} {t t' : GeneratedType} (hc : c.Within P)
    (ht : t.Within P) (h : c.apply t = .ok t') : t'.Within P := by
  cases c with
  | block b f => exact within_changeBlock ht (hc t) h
  | method fields m =>
    obtain rfl := Except.ok.inj h
    exact GeneratedType.within_addMethod (GeneratedType.within_addFields ht hc.1) (hc.2 t)
  | dispatch element refs =>
    obtain rfl := Except.ok.inj h
    refine GeneratedType.within_mapMethod ?_ fun _ _ _ hbody => within_addBranches element hc hbody
    unfold GeneratedType.ensureMethod
    split
    · exact ht
    · exact GeneratedType.within_addMethod ht fun _ hr => absurd hr List.not_mem_nil
  | extra s =>
    rcases extra_cases h with ⟨-, t₁, hadded, h⟩ | ⟨-, h⟩
    · have hinject : (t.addMethod Extra.injectMethod).Within P :=
        GeneratedType.within_addMethod ht fun _ hr => absurd hr List.not_mem_nil
      have ht₁ : t₁.Within P := within_changeBlock hinject
        (fun inner hinner => within_append.2 ⟨hinner, within_call _⟩) hadded
      exact within_addToReading hc ht₁ h
    · exact within_addToReading hc ht h

end Contribution

@[simp] theorem Element.references_forwardArgs (e : Element) :
    Expr.referencesAll e.forwardArgs = [] :=
  Expr.referencesAll_map_eq_nil (fun _ => rfl) e.params

@[simp] theorem references_outerRef (generated keyword : String) :
    (outerRef generated keyword).references = [] := rfl

namespace PreferenceHelper

theorem references_getter? {type : String} {getter : String × Expr}
    (h : getter? type = some getter) : getter.2.references = [] := by
  unfold getter? at h
  (repeat' split at h) <;> cases h <;> rfl

theorem references_accessor {sig : MethodSig} {method : Method} (h : accessor sig = .ok method) :
    Statement.referencesAll method.body = [] := by
  unfold accessor at h
  simp only at h
  split at h
  · cases h
  · next getter default hgetter =>
    obtain rfl := Except.ok.inj h
    have hdefault : default.references = [] := references_getter? hgetter
    simp [hdefault]

theorem within_accessors {ms : List MethodSig} {methods : List Method}
    (h : accessors ms = .ok methods) : ∀ m ∈ methods, Within P m.body := by
  have hforall := forall₂_accessors h
  clear h
  induction hforall with
  | nil => exact fun _ hm => absurd hm List.not_mem_nil
  | cons hmethod _ ih =>
    rw [List.forall_mem_cons]
    exact ⟨within_of_eq_nil (references_accessor hmethod), ih⟩

end PreferenceHelper

namespace ListenerKind

theorem references_itemArg (type : String) : (itemArg type).references = [] := by
  unfold itemArg
  split <;> rfl

theorem references_handlerArg (k : ListenerKind) (type : String) :
    (k.handlerArg type).references = [] := by
  cases k
  case itemClick | itemLongClick => exact references_itemArg type
  all_goals
    unfold handlerArg
    dsimp only
    split <;> rfl

theorem references_callHandler (element : Element) (generated : String) {args : List Expr}
    (h : Expr.referencesAll args = []) : (callHandler element generated args).references = [] := by
  simp [callHandler, h]

theorem references_plainCallback (k : ListenerKind) (element : Element) (generated : String) :
    (k.plainCallback element generated).references = [] := by
  have hcall := references_callHandler element generated
    (Expr.referencesAll_map_eq_nil k.references_handlerArg element.paramTypes)
  rw [Method.references_eq, plainCallback]
  dsimp only
  (repeat' split) <;> simp [hcall]

theorem references_selectionCallbacks (k : ListenerKind) (element : Element) (generated : String) :
    Method.referencesAll (k.selectionCallbacks element generated) = [] := by
  have habsent : ∀ type, Expr.references
      (if typeMatches type "int" then .int (-1) else .null) = [] := by
    intro type
    split <;> rfl
  have hargs : ∀ flag item, (∀ type, (item type : Expr).references = []) → Expr.referencesAll
      (.bool flag :: ((element.paramTypes.drop 1).take 1).map item) = [] := by
    intro flag item hitem
    rw [Expr.referencesAll, Expr.referencesAll_map_eq_nil hitem]
    rfl
  have hselected := references_callHandler element generated (hargs true itemArg references_itemArg)
  have hnothing := references_callHandler element generated (hargs false _ habsent)
  simp only [selectionCallbacks, Method.referencesAll, Method.references_eq,
    Statement.referencesAll, Statement.references, hselected, hnothing, List.append_nil]

theorem references_callbacks (k : ListenerKind) (element : Element) (generated : String) :
    Method.referencesAll (k.callbacks element generated) = [] := by
  cases k
  case itemSelected => exact references_selectionCallbacks _ element generated
  all_goals
    rw [callbacks, Method.referencesAll, references_plainCallback]
    rfl

theorem references_register (k : ListenerKind) {callbacks : List Method}
    (h : Method.referencesAll callbacks = []) (name : String) (ref : ResourceRef) :
    Statement.referencesAll (k.register callbacks name ref) = [ref] := by
  have hfound : Expr.references (if k.onAdapterView = true then
      .cast k.targetType (.callHere "findViewById" [.resource ref])
      else .callHere "findViewById" [.resource ref]) = [ref] := by
    split <;> rfl
  simp [register, hfound, h]

theorem within_registerAll (k : ListenerKind) {callbacks : List Method}
    (h : Method.referencesAll callbacks = []) {refs : List ResourceRef} (hrefs : ∀ r ∈ refs, P r)
    {block : List Statement} (hblock : Within P block) :
    Within P (k.registerAll callbacks refs block) := by
  unfold registerAll
  induction refs generalizing block with
  | nil => exact hblock
  | cons ref refs ih =>
    rw [List.forall_mem_cons] at hrefs
    refine ih hrefs.2 (within_append.2 ⟨hblock, ?_⟩)
    unfold Within
    rw [references_register k h]
    exact List.forall_mem_singleton.2 hrefs.1

end ListenerKind

theorem ThreadKind.references_override (k : ThreadKind) (d : Declaration) (t : GeneratedType) :
    Statement.referencesAll (k.override d t).body = [] := by
  have hwork : (runnable d.element t.name).references = [] := by simp [runnable]
  have hdispatch : (k.dispatch (d.argInt? "delay") (runnable d.element t.name)).references = [] := by
    unfold dispatch
    (repeat' split) <;> simp [hwork]
  simp [override, hdispatch]

theorem Transaction.references_override (element : Element) (name : String) :
    Statement.referencesAll (override element (.ident name)).body = [] := by
  have hwork : Statement.referencesAll (work element (.ident name)) = [] := by
    unfold work
    dsimp only
    split <;> simp
  simp [override, hwork]

namespace HttpMethod

theorem references_bindVariables (names : List String) :
    Statement.referencesAll (bindVariables names) = [] := by
  cases names with
  | nil => rfl
  | cons name names =>
    have hputs : ∀ s ∈ (name :: names).map fun name =>
        Statement.run (.callOn (.ident urlVariables) "put" [.str name, .ident name]),
        s.references = [] := by
      intro s hs
      obtain ⟨name', -, rfl⟩ := List.mem_map.1 hs
      rfl
    have hdeclare : Statement.references
        (.declare variableMap urlVariables (.new variableMap [])) = [] := rfl
    rw [bindVariables, Statement.referencesAll, hdeclare, Statement.referencesAll_eq_flatMap,
      List.flatMap_eq_nil_iff.2 hputs, List.nil_append]
    exact nofun

theorem references_request (http : HttpMethod) {url body : Expr} (hurl : url.references = [])
    (hbody : body.references = []) (response : TypeRef) :
    Expr.referencesAll (http.request url body response).2 = [] := by
  cases http <;> simp [request, hurl, hbody]

theorem references_bodyArg (element : Element) (placeholders : List String) :
    (bodyArg element placeholders).references = [] := by
  unfold bodyArg
  split <;> rfl

theorem references_requestMethod (http : HttpMethod) (element : Element) (url : String) :
    Statement.referencesAll (http.requestMethod element url).body = [] := by
  have hargs := fun response => references_request http
    (show (Expr.concat [.thisField RestClient.rootUrl, .str url]).references = [] from rfl)
    (references_bodyArg element (urlPlaceholders url)) response
  have hvariables : Expr.referencesAll (if urlPlaceholders url = [] then []
      else [.ident urlVariables]) = [] := by
    split <;> rfl
  unfold requestMethod
  dsimp only
  rw [Statement.referencesAll_append, references_bindVariables]
  split <;> simp [hargs, hvariables]

end HttpMethod

def Output.Within (P : ResourceRef → Prop) : Output → Prop
  | .type t => t.Within P
  | .contribution _ c => c.Within P

theorem Contribution.within_block_append (b : CreationBlock) {body : List Statement}
    (h : Statement.Within P body) : (Contribution.block b fun _ => (· ++ body)).Within P :=
  fun _ _ hinner => within_append.2 ⟨hinner, h⟩

theorem Contribution.within_method {m : GeneratedType → Method}
    (h : ∀ t, Statement.referencesAll (m t).body = []) : (Contribution.method [] m).Within P :=
  ⟨fun _ hf => absurd hf List.not_mem_nil, fun t => within_of_eq_nil (h t)⟩

theorem ResourceKind.references_value (k : ResourceKind) (d : Declaration) (ref : ResourceRef) :
    (k.value d ref).references = [ref] := by
  cases k <;> rfl

theorem Component.within_subclass (generated origin : String) {layouts : List ResourceRef}
    (h : ∀ r ∈ layouts, P r) : (subclass generated origin layouts).Within P := by
  refine ⟨fun _ hf => absurd hf List.not_mem_nil, fun _ hc => absurd hc List.not_mem_nil, ?_⟩
  intro m hm
  obtain rfl := List.mem_singleton.1 hm
  refine within_append.2 ⟨within_append.2 ⟨within_of_eq_nil rfl, ?_⟩, within_of_eq_nil rfl⟩
  exact within_map h fun _ _ hr => List.mem_singleton.1 hr

theorem PreferenceHelper.within_helper (generated origin : String) {methods : List Method}
    (h : ∀ m ∈ methods, Statement.Within P m.body) : (helper generated origin methods).Within P := by
  refine ⟨fun f hf r hr => ?_, fun c hc => ?_, h⟩
  · obtain rfl := List.mem_singleton.1 hf
    exact absurd hr List.not_mem_nil
  · obtain rfl := List.mem_singleton.1 hc
    exact within_of_eq_nil rfl

theorem RestClient.within_client (generated interface url : String) :
    (client generated interface url).Within P := by
  refine ⟨fun f hf r hr => ?_, fun _ hc => absurd hc List.not_mem_nil,
    fun _ hm => absurd hm List.not_mem_nil⟩
  have hinit : ∀ f ∈ (client generated interface url).fields, f.references = [] := by
    simp [client, Field.references]
  exact absurd (hinit f hf ▸ hr) List.not_mem_nil

/-- What a declaration leaves refers to its own resources only. -/
theorem StandardKind.within_output (k : StandardKind) (project : Project) (d : Declaration)
    {refs : List ResourceRef} (h : ∀ r ∈ refs, P r) : (k.output project d refs).Within P := by
  cases k with
  | component => exact Component.within_subclass _ _ h
  | preferenceHelper =>
    refine PreferenceHelper.within_helper _ _ ?_
    cases hmethods : PreferenceHelper.accessors d.element.methods with
    | error f => exact fun _ hm => absurd hm List.not_mem_nil
    | ok methods => exact PreferenceHelper.within_accessors hmethods
  | restClient => exact RestClient.within_client _ _ _
  | boundView | htmlText =>
    exact Contribution.within_block_append .bindViews
      (within_map h fun _ _ hr => List.mem_singleton.1 hr)
  | resourceField k =>
    refine Contribution.within_block_append .inject (within_map h fun ref r hr => ?_)
    have hvalue : (d.assignField (k.value d ref)).references = [ref] := by
      simp [Declaration.assignField, k.references_value]
    rw [hvalue] at hr
    exact List.mem_singleton.1 hr
  | preferenceField | systemService | applicationField =>
    exact Contribution.within_block_append .inject (within_of_eq_nil rfl)
  | lifecycle hook => exact Contribution.within_block_append hook.block (within_of_eq_nil rfl)
  | optionsMenu =>
    refine ⟨fun _ hf => absurd hf List.not_mem_nil, fun t => within_append.2 ⟨?_, ?_⟩⟩
    · exact within_map h fun _ _ hr => List.mem_singleton.1 hr
    · exact within_of_eq_nil rfl
  | optionsItem => exact h
  | listener k =>
    exact fun t inner hinner => k.within_registerAll (k.references_callbacks d.element t.name) h hinner
  | thread k =>
    refine ⟨fun f hf r hr => ?_, fun t => within_of_eq_nil (k.references_override d t)⟩
    cases k with
    | ui =>
      obtain rfl := List.mem_singleton.1 hf
      exact absurd hr List.not_mem_nil
    | background => cases hf
  | extra => exact fun _ hr => absurd hr List.not_mem_nil
  | transaction =>
    exact Contribution.within_method fun _ => Transaction.references_override d.element _
  | request http =>
    exact Contribution.within_method fun _ => http.references_requestMethod d.element _

def Setting.Gives (s : Setting) (r : ResourceRef) : Prop := s.resource r.key = .ok r

theorem Setting.gives_of_resource {s : Setting} {key : ResourceKey} {r : ResourceRef}
    (h : s.resource key = .ok r) : s.Gives r := by
  unfold resource at h
  cases hcatalog : s.catalog with
  | none =>
    rw [hcatalog] at h
    cases h
  | some catalog =>
    rw [hcatalog] at h
    cases hlookup : catalog.lookup key with
    | error e =>
      simp only [hlookup] at h
      cases h
    | ok ref =>
      simp only [hlookup] at h
      obtain rfl := Except.ok.inj h
      have hkey : ref.key = key := Catalog.key_of_lookup hlookup
      simp only [Gives, resource, hcatalog, hkey, hlookup]

theorem Setting.gives_of_mem {s : Setting} {keys : List ResourceKey} {refs : List ResourceRef}
    (h : s.resources keys = .ok refs) : ∀ r ∈ refs, s.Gives r := by
  induction keys generalizing refs with
  | nil =>
    obtain rfl := Except.ok.inj h
    exact fun _ hr => absurd hr List.not_mem_nil
  | cons key keys ih =>
    rw [resources] at h
    cases hkey : s.resource key with
    | error f =>
      rw [hkey] at h
      cases h
    | ok ref =>
      rw [hkey] at h
      cases hrest : s.resources keys with
      | error f =>
        rw [hrest] at h
        cases h
      | ok rest =>
        rw [hrest] at h
        obtain rfl := Except.ok.inj h
        rw [List.forall_mem_cons]
        exact ⟨gives_of_resource hkey, ih hrest⟩

theorem StandardKind.within_leaves (s : Setting) (x : StandardKind × Declaration) :
    (leaves s x).Within s.Gives := by
  refine within_output _ _ _ ?_
  cases hrefs : s.resources (x.1.rule.resources x.2) with
  | error f => exact fun _ hr => absurd hr List.not_mem_nil
  | ok refs => exact Setting.gives_of_mem hrefs

theorem gives_of_reaches {c : ValidationContext} {done rest : List (StandardKind × Declaration)}
    {a : Assembly} (hgrouped : c.extracted.Grouped)
    (hschedule : schedule c.accepted = done ++ rest) (hreaches : Reaches (step c.setting) done a) :
    ∀ name t, a.model.get? name = some t → t.Within c.setting.Gives := by
  -- The invariant speaks of all types at once; what is new comes from what the step itself leaves.
  refine model_induct (P := fun _ m => ∀ name t, m.get? name = some t → t.Within c.setting.Gives)
    hgrouped hschedule hreaches (fun _ _ h => nomatch h) ?_ ?_
  · intro before x after m u _ hwithin hleaves _ _ name t ht
    have hleft := StandardKind.within_leaves c.setting x
    rw [hleaves] at hleft
    rw [GenerationModel.get?_insert] at ht
    split at ht
    · obtain rfl := Option.some.inj ht
      exact hleft
    · exact hwithin name t ht
  · intro before x after m h contribution u u' _ hwithin hleaves _ hfound happly name t ht
    have hleft := StandardKind.within_leaves c.setting x
    rw [hleaves] at hleft
    rw [GenerationModel.get?_replace hfound] at ht
    split at ht
    · obtain rfl := Option.some.inj ht
      exact Contribution.within_apply hleft (hwithin _ u hfound) happly
    · exact hwithin name t ht

theorem StandardRun.exists_lookup (run : StandardRun) {r : ResourceRef}
    (hr : r ∈ run.model.references) : ∃ catalog, run.context.catalog = some catalog ∧
      catalog.lookup r.key = .ok r := by
  obtain ⟨a, hreaches, hmodel⟩ := run.exists_reaches
  obtain ⟨t, ht, hr⟩ := List.mem_flatMap.1 (hmodel ▸ hr)
  obtain ⟨⟨name, t'⟩, hentry, rfl⟩ := List.mem_map.1 ht
  have hwithin := gives_of_reaches run.grouped (List.append_nil _).symm hreaches name t'
    (Table.mem_entries_iff.1 hentry)
  have hgives : run.context.setting.resource r.key = .ok r :=
    GeneratedType.within_iff.1 hwithin r hr
  unfold Setting.resource at hgives
  cases hcatalog : run.context.catalog with
  | none =>
    simp only [ValidationContext.setting, hcatalog] at hgives
    cases hgives
  | some catalog =>
    simp only [ValidationContext.setting, hcatalog] at hgives
    cases hlookup : catalog.lookup r.key with
    | error e =>
      rw [hlookup] at hgives
      cases hgives
    | ok r' =>
      rw [hlookup] at hgives
      obtain rfl := Except.ok.inj hgives
      exact ⟨catalog, rfl, hlookup⟩

/-- Every resource that generated code refers to is what the run's catalog answers for its name, with
the scope and the number that the tables give it. Without a catalog there is none. -/
theorem StandardRun.lookup_of_mem_references (run : StandardRun) :
    (∀ r ∈ run.model.references, ∃ catalog,
      Catalog.resolve run.projectTable run.platformTable = .ok catalog ∧
      catalog.lookup r.key = .ok r ∧ Catalog.Given run.projectTable run.platformTable r) ∧
    ∀ e, Catalog.resolve run.projectTable run.platformTable = .error e →
      run.model.references = [] := by
  have hanswers : ∀ r ∈ run.model.references, ∃ catalog,
      Catalog.resolve run.projectTable run.platformTable = .ok catalog ∧
      catalog.lookup r.key = .ok r := by
    intro r hr
    obtain ⟨catalog, hcatalog, hlookup⟩ := run.exists_lookup hr
    cases hresolve : Catalog.resolve run.projectTable run.platformTable with
    | error e =>
      simp only [context, hresolve] at hcatalog
      cases hcatalog
    | ok c =>
      simp only [context, hresolve] at hcatalog
      obtain rfl := Option.some.inj hcatalog
      exact ⟨c, rfl, hlookup⟩
  refine ⟨fun r hr => ?_, fun e herror => List.eq_nil_iff_forall_not_mem.2 fun r hr => ?_⟩
  · obtain ⟨catalog, hresolve, hlookup⟩ := hanswers r hr
    exact ⟨catalog, hresolve, hlookup, Catalog.given_of_lookup hresolve hlookup⟩
  · obtain ⟨catalog, hresolve, -⟩ := hanswers r hr
    cases herror.symm.trans hresolve

private def titleBatches : List (Marker × List RawDeclaration) :=
  [(.enhancedComponent, [⟨⟨.classType, "Main", "a", none, [], [], [], [], []⟩,
      .ofList [("layout", .str "main")]⟩]),
    (ResourceKind.marker .string, [⟨⟨.field, "title", "a.Main", some "String", [], [], [], [], []⟩,
      .empty⟩])]

private def titleRun : Except Interruption StandardRun :=
  StandardRun.ofHost titleBatches (.ok [⟨"layout", "main", 7⟩]) (.ok [⟨"string", "title", 3⟩]) (.new "a")

theorem StandardRun.lookup_of_mem_references_title : ∃ run, titleRun = .ok run ∧
    run.model.references = [⟨.platform, .string, "title", 3⟩, ⟨.project, .layout, "main", 7⟩] ∧
    Catalog.Given run.projectTable run.platformTable ⟨.platform, .string, "title", 3⟩ := by
  have hreferences : titleRun.toOption.map (fun run => run.model.references) =
      some [⟨.platform, .string, "title", 3⟩, ⟨.project, .layout, "main", 7⟩] := by
    decide +kernel
  obtain ⟨run, hrun, hreferences⟩ := exists_ok_of_map_toOption hreferences
  obtain ⟨catalog, -, -, hgiven⟩ := run.lookup_of_mem_references.1
    ⟨.platform, .string, "title", 3⟩ (by rw [hreferences]; decide)
  exact ⟨run, hrun, hreferences, hgiven⟩

end ComponentGlue
