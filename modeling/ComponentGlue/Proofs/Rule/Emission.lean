import ComponentGlue.Proofs.Generation.Change
import ComponentGlue.Proofs.Rule.Requirement

set_option autoImplicit false
set_option relaxedAutoImplicit false

namespace ComponentGlue

section Emission

open Assemble (Changes bind_eq_of_ok changes_pure changes_componentType changes_modifyComponent
  changes_modifyRestClient changes_modifyCreation changes_appendCreation)

variable (project : Project) {d : Declaration} (refs : List ResourceRef)

theorem Declaration.changes_fieldType {type : String} (htype : d.element.type = some type)
    {x : TypeRef → Assemble Unit} {h : Holder} {f : GeneratedType → Except Fault GeneratedType}
    (hx : Changes (x (.parse type)) h f) : Changes (do let t ← d.fieldType; x t) h f := by
  have hread : (do let t ← d.fieldType; x t : Assemble Unit) = x (.parse type) := by
    unfold Declaration.fieldType
    rw [htype]
    rfl
  rw [hread]
  exact hx

theorem BoundView.changes_emit {type : String} (htype : d.element.type = some type) :
    Changes (emit project d refs) (.component d.element.owner)
      (Contribution.block .bindViews fun _ => (· ++ refs.map (bind d (.parse type)))).apply :=
  d.changes_fieldType htype (changes_modifyCreation .bindViews _)

theorem HtmlText.changes_emit :
    Changes (emit project d refs) (.component d.element.owner)
      (Contribution.block .bindViews fun _ => (· ++ refs.map (setText d))).apply :=
  changes_modifyCreation .bindViews _

theorem PreferenceField.changes_emit {type : String} (htype : d.element.type = some type) :
    Changes (emit project d refs) (.component d.element.owner)
      (Contribution.block .inject fun _ =>
        (· ++ [d.assignField (.new (.parse type) [.this])])).apply :=
  d.changes_fieldType htype (changes_appendCreation .inject _)

theorem OptionsMenu.changes_emit :
    Changes (emit project d refs) (.component d.qualifiedName)
      (Contribution.method [] fun _ => inflateMethod refs).apply :=
  changes_modifyComponent _

theorem OptionsItem.changes_emit :
    Changes (emit project d refs) (.component d.element.owner)
      (Contribution.dispatch d.element refs).apply :=
  changes_modifyComponent _

theorem ResourceKind.changes_emit (k : ResourceKind) :
    Changes (k.emit project d refs) (.component d.element.owner)
      (Contribution.block .inject fun _ =>
        (· ++ refs.map fun ref => d.assignField (k.value d ref))).apply :=
  changes_modifyCreation .inject _

theorem ListenerKind.changes_emit (k : ListenerKind) :
    Changes (k.emit project d refs) (.component d.element.owner)
      (Contribution.block .bindListeners fun t =>
        k.registerAll (k.callbacks d.element t.name) refs).apply :=
  changes_componentType (f := fun t => Contribution.changeBlock .bindListeners
    (k.registerAll (k.callbacks d.element t.name) refs)) fun _ => changes_modifyCreation _ _

def ThreadKind.fields : ThreadKind → List Field
  | .ui => [handlerField]
  | .background => []

def ThreadKind.override (k : ThreadKind) (d : Declaration) (t : GeneratedType) : Method :=
  { d.element.overriding with
    body := [.run (k.dispatch (d.argInt? "delay") (runnable d.element t.name))] }

theorem ThreadKind.changes_emit (k : ThreadKind) :
    Changes (k.emit project d refs) (.component d.element.owner)
      (Contribution.method k.fields (k.override d)).apply := by
  cases k with
  | background => exact changes_modifyComponent _
  | ui => exact changes_modifyComponent _

theorem Extra.changes_ensureInjectMethod (owner : String) :
    Changes (ensureInjectMethod owner) (.component owner) fun t =>
      if (t.method? injectExtras).isNone then
        Contribution.changeBlock .inject (· ++ [.run (.callHere injectExtras [])])
          (t.addMethod injectMethod)
      else .ok t := by
  refine changes_componentType (f := fun t u =>
    if (t.method? injectExtras).isNone then
      Contribution.changeBlock .inject (· ++ [.run (.callHere injectExtras [])])
        (u.addMethod injectMethod)
    else .ok u) fun t => ?_
  by_cases h : (t.method? injectExtras).isNone = true
  · simp only [if_pos h]
    exact (changes_modifyComponent _).bind (changes_appendCreation .inject _)
  · simp only [if_neg h]
    exact changes_pure _

theorem Extra.changes_appendToGuard (owner : String) (s : Statement) :
    Changes (appendToGuard owner s) (.component owner) (Contribution.addToReading s) := by
  refine Changes.congr (changes_componentType (f := fun t u =>
    ((t.method? injectExtras).bind fun m => addToGuard? s m.body).elim
      (.error (.lostExtrasGuard t.name injectExtras))
      fun body => .ok (u.mapMethod injectExtras fun m => { m with body })) fun t => ?_) fun t => ?_
  · cases (t.method? injectExtras).bind fun m => addToGuard? s m.body with
    | none => exact Assemble.changes_fault _ _
    | some body => exact changes_modifyComponent _
  · unfold Contribution.addToReading
    cases (t.method? injectExtras).bind fun m => addToGuard? s m.body <;> rfl

theorem Extra.changes_emit {type : String} (htype : d.element.type = some type) :
    Changes (emit project d refs) (.component d.element.owner)
      (Contribution.extra (readExtra d (d.argOrName "key") (.parse type))).apply := by
  refine d.changes_fieldType htype (Changes.congr
    ((changes_ensureInjectMethod _).bind (changes_appendToGuard _ _)) fun t => ?_)
  rw [Contribution.apply]
  by_cases h : (t.method? injectExtras).isNone = true
  · rw [if_pos h, if_pos h]
  · rw [if_neg h, if_neg h]
    rfl

theorem SystemService.changes_emit {constant : String}
    (hconstant : project.services.constantFor? (d.element.type.getD "") = some constant) :
    Changes (emit project d refs) (.component d.element.owner)
      (Contribution.block .inject fun _ => (· ++ [d.assignField (value
        ((project.services.qualified? (d.element.type.getD "")).getD (d.element.type.getD ""))
        constant)])).apply := by
  simp only [emit, hconstant]
  exact changes_appendCreation .inject _

theorem LifecycleHook.changes_emit (h : LifecycleHook) :
    Changes (h.emit project d refs) (.component d.element.owner)
      (Contribution.block h.block fun _ => (· ++ [.run (.callHere d.element.name [])])).apply :=
  changes_appendCreation h.block _

theorem Transaction.changes_emit {db : Param} (hdb : d.element.params.head? = some db) :
    Changes (emit project d refs) (.component d.element.owner)
      (Contribution.method [] fun _ => override d.element (.ident db.name)).apply := by
  unfold emit
  rw [hdb]
  exact changes_modifyComponent _

theorem ApplicationField.changes_emit {application : String}
    (happlication : project.application = some application) :
    Changes (emit project d refs) (.component d.element.owner)
      (Contribution.block .inject fun _ => (· ++
        [d.assignField (.cast (.named application) (.callHere "getApplication" []))])).apply := by
  unfold emit
  rw [happlication]
  exact changes_appendCreation .inject _

theorem HttpMethod.changes_emit (http : HttpMethod) :
    Changes (http.emit project d refs) (.restClient d.element.owner)
      (Contribution.method [] fun _ =>
        http.requestMethod d.element ((d.argStr? "url").getD "")).apply :=
  changes_modifyRestClient _

theorem Component.hasBlocks_subclass (generated origin : String) (layouts : List ResourceRef) :
    (subclass generated origin layouts).HasBlocks := by
  intro b
  have hbody : (Method.blockIn? b.label (creationBody layouts)).isSome = true := by
    have hlayouts : Method.blockIn? b.label (layouts.map fun layout =>
        .run (.callHere "setContentView" [.resource layout])) = none := by
      refine Method.blockIn?_eq_none ?_ _
      intro s hs
      obtain ⟨layout, -, rfl⟩ := List.mem_map.1 hs
      rfl
    rw [creationBody, Method.blockIn?_append, Method.blockIn?_append, hlayouts, Option.or_none]
    cases b <;> decide
  exact hbody

theorem PreferenceHelper.exists_getter? {type : String}
    (h : typeMatchesAny type valueTypes = true) : ∃ getter, getter? type = some getter := by
  cases hgetter : getter? type with
  | some getter => exact ⟨getter, rfl⟩
  | none =>
    have hnone : ∀ accepted ∈ valueTypes, typeMatches type accepted = false := by
      unfold getter? at hgetter
      simp only [valueTypes, List.forall_mem_cons]
      grind
    obtain ⟨accepted, haccepted, hmatches⟩ := List.any_eq_true.1 h
    rw [hnone accepted haccepted] at hmatches
    cases hmatches

theorem PreferenceHelper.exists_accessors {ms : List MethodSig} (h : ∀ m ∈ ms, Getter m) :
    ∃ methods, accessors ms = .ok methods ∧ ∀ m ∈ methods, m.Plain := by
  induction ms with
  | nil => exact ⟨[], rfl, fun _ hm => absurd hm List.not_mem_nil⟩
  | cons m ms ih =>
    obtain ⟨methods, hmethods, hplain⟩ := ih fun m' hm' => h m' (List.mem_cons_of_mem m hm')
    obtain ⟨⟨getter, default⟩, hgetter⟩ := exists_getter? (h m List.mem_cons_self).2
    have haccessor : ∃ method, accessor m = .ok method ∧ method.Plain := by
      unfold accessor
      simp only [hgetter]
      refine ⟨_, rfl, ?_, ?_⟩
      · simp [Statement.isLabelled]
      · exact fun _ => ⟨[], _, rfl, fun _ _ h => Statement.noConfusion h⟩
    obtain ⟨method, hmethod, hmethodPlain⟩ := haccessor
    refine ⟨method :: methods, ?_, ?_⟩
    · rw [accessors, hmethod, hmethods]
      rfl
    · intro m' hm'
      rcases List.mem_cons.1 hm' with rfl | hm'
      · exact hmethodPlain
      · exact hplain m' hm'

theorem PreferenceHelper.forall₂_accessors {ms : List MethodSig} {methods : List Method}
    (h : accessors ms = .ok methods) :
    List.Forall₂ (fun sig method => accessor sig = .ok method) ms methods := by
  induction ms generalizing methods with
  | nil =>
    obtain rfl := Except.ok.inj h
    exact .nil
  | cons sig ms ih =>
    rw [accessors] at h
    split at h
    · cases h
    · next method hmethod =>
      cases hrest : accessors ms with
      | error f =>
        rw [hrest] at h
        cases h
      | ok rest =>
        rw [hrest] at h
        obtain rfl := Except.ok.inj h
        exact .cons hmethod (ih hrest)

end Emission

/-- The cause of the fault is that a component or a REST client has no holder. -/
def Fault.missesHolder : Fault → Bool
  | .noComponent _ | .noRestClient _ => true
  | .during _ cause => cause.missesHolder
  | .stated _ | .panicked _ | .lookup _ | .noCatalog _ | .noGeneratedType _ | .noBlock _ _ _
  | .lostExtrasGuard _ _ | .noDeclaredType _ | .unknownService _ | .noApplication
  | .noDatabaseParameter _ | .unsupportedPreference _ _ | .notExtracted | .notValidated
  | .notProcessed => false

theorem Interruption.missesHolder_during (activity : Activity) (e : Interruption) :
    (e.during activity).contain.missesHolder = e.contain.missesHolder := by
  cases e <;> rfl

namespace Assemble

variable {α β : Type} {h : Holder}

/-- The computation leaves the holders alone, and where `h` is held it misses none. -/
structure Spares (x : Assemble α) (h : Holder) : Prop where
  kept : ∀ a (h' : Holder), h'.name? (x a).2 = h'.name? a
  spared : ∀ {a e}, (h.name? a).isSome = true → (x a).1 = .error e →
    e.contain.missesHolder = false

/-- Where `h` is not held the computation is cut short. -/
structure Consults (x : Assemble α) (h : Holder) : Prop extends Spares x h where
  asks : ∀ {a}, h.name? a = none → ∃ e, (x a).1 = .error e

theorem spares_pure (v : α) (h : Holder) : Spares (pure v : Assemble α) h where
  kept _ _ := rfl
  spared _ he := nomatch he

theorem spares_fault {f : Fault} (hf : f.missesHolder = false) (h : Holder) :
    Spares (fault f : Assemble α) h where
  kept _ _ := rfl
  spared _ he := Except.error.inj he ▸ hf

theorem spares_orFault {f : Fault} (hf : f.missesHolder = false) (v : Option α) (h : Holder) :
    Spares (orFault f v) h := by
  cases v with
  | none => exact spares_fault hf h
  | some v => exact spares_pure v h

theorem spares_ofExcept {r : Except Fault α} (hr : ∀ f, r = .error f → f.missesHolder = false)
    (h : Holder) : Spares (ofExcept r) h := by
  cases r with
  | error f => exact spares_fault (hr f rfl) h
  | ok v => exact spares_pure v h

theorem spares_modifyType (name : String) (f : GeneratedType → GeneratedType) (h : Holder) :
    Spares (modifyType name f) h where
  kept _ h' := by cases h' <;> rfl
  spared _ he := nomatch he

theorem Spares.during {x : Assemble α} (hx : Spares x h) (activity : Activity) :
    Spares (Assemble.during activity x) h := by
  constructor
  · intro a h'
    have hkept := hx.kept a h'
    unfold Assemble.during
    rcases hxa : x a with ⟨e | v, b⟩ <;> rw [hxa] at hkept <;> exact hkept
  · intro a e hheld he
    unfold Assemble.during at he
    rcases hxa : x a with ⟨e' | v, b⟩
    · rw [hxa] at he
      obtain rfl := Except.error.inj he
      rw [Interruption.missesHolder_during]
      exact hx.spared hheld (congrArg Prod.fst hxa)
    · rw [hxa] at he
      cases he

theorem Consults.during {x : Assemble α} (hx : Consults x h) (activity : Activity) :
    Consults (Assemble.during activity x) h where
  toSpares := hx.toSpares.during activity
  asks hnone := by
    obtain ⟨e, he⟩ := hx.asks hnone
    refine ⟨e.during activity, ?_⟩
    unfold Assemble.during
    rw [← Prod.eta (x _), he]

section Bind

variable {x : Assemble α} {f : α → Assemble β}

theorem Spares.bind (hx : Spares x h) (hf : ∀ v, Spares (f v) h) : Spares (x >>= f) h := by
  constructor
  · intro a h'
    have hkept := hx.kept a h'
    rcases hxa : x a with ⟨e | v, b⟩
    · rw [hxa] at hkept
      rw [bind_eq_of_error hxa]
      exact hkept
    · rw [hxa] at hkept
      rw [bind_eq_of_ok hxa]
      exact ((hf v).kept b h').trans hkept
  · intro a e hheld he
    have hkept := hx.kept a h
    rcases hxa : x a with ⟨e' | v, b⟩
    · rw [bind_eq_of_error hxa] at he
      obtain rfl := Except.error.inj he
      exact hx.spared hheld (congrArg Prod.fst hxa)
    · rw [hxa] at hkept
      rw [bind_eq_of_ok hxa] at he
      refine (hf v).spared ?_ he
      rw [show h.name? b = h.name? a from hkept]
      exact hheld

theorem Consults.bind (hx : Consults x h) (hf : ∀ v, Spares (f v) h) : Consults (x >>= f) h where
  toSpares := hx.toSpares.bind hf
  asks hnone := by
    obtain ⟨e, he⟩ := hx.asks hnone
    exact ⟨e, by rw [bind_eq_of_error (Prod.ext he rfl)]⟩

theorem Spares.bind_consults (hx : Spares x h) (hf : ∀ v, Consults (f v) h) :
    Consults (x >>= f) h where
  toSpares := hx.bind fun v => (hf v).toSpares
  asks {a} hnone := by
    have hkept := hx.kept a h
    rcases hxa : x a with ⟨e | v, b⟩
    · exact ⟨e, by rw [bind_eq_of_error hxa]⟩
    · rw [hxa] at hkept
      rw [bind_eq_of_ok hxa]
      exact (hf v).asks (hkept.trans hnone)

end Bind

section Lookup

variable (origin : String)

theorem consults_of_eq {x : Assemble String} (hx : ∀ a, x a = orFault h.missing (h.name? a) a) :
    Consults x h where
  kept a h' := by
    rw [hx]
    cases h.name? a <;> rfl
  spared {a e} hheld he := by
    obtain ⟨name, hname⟩ := Option.isSome_iff_exists.1 hheld
    rw [hx, hname] at he
    cases he
  asks {a} hnone := by
    rw [hx, hnone]
    exact ⟨_, rfl⟩

theorem consults_componentName : Consults (componentName origin) (.component origin) :=
  consults_of_eq fun _ => rfl

theorem consults_restClientName : Consults (restClientName origin) (.restClient origin) :=
  consults_of_eq fun _ => rfl

theorem spares_generatedType (name : String) (h : Holder) : Spares (generatedType name) h where
  kept a h' := by
    unfold generatedType
    cases a.model.get? name <;> rfl
  spared {a e} _ he := by
    unfold generatedType at he
    cases hget : a.model.get? name with
    | none =>
      rw [hget] at he
      exact Except.error.inj he ▸ rfl
    | some t =>
      rw [hget] at he
      cases he

theorem consults_componentType : Consults (componentType origin) (.component origin) :=
  (consults_componentName origin).bind fun name => spares_generatedType name _

theorem consults_modifyComponent (f : GeneratedType → GeneratedType) :
    Consults (modifyComponent origin f) (.component origin) :=
  (consults_componentName origin).bind fun name =>
    (spares_generatedType name _).bind fun _ => spares_modifyType name f _

theorem consults_modifyRestClient (f : GeneratedType → GeneratedType) :
    Consults (modifyRestClient origin f) (.restClient origin) :=
  (consults_restClientName origin).bind fun name =>
    (spares_generatedType name _).bind fun _ => spares_modifyType name f _

theorem consults_modifyCreation (b : CreationBlock) (f : List Statement → List Statement) :
    Consults (modifyCreation origin b f) (.component origin) :=
  (consults_componentName origin).bind fun name => (spares_generatedType name _).bind fun _ =>
    (spares_orFault rfl _ _).bind fun changed => spares_modifyType name (fun _ => changed) _

theorem consults_appendCreation (b : CreationBlock) (s : Statement) :
    Consults (appendCreation origin b s) (.component origin) :=
  consults_modifyCreation origin b _

end Lookup

end Assemble

open Assemble (Spares Consults spares_pure spares_orFault consults_componentType
  consults_modifyComponent consults_modifyCreation consults_appendCreation)

variable (project : Project) (d : Declaration) (refs : List ResourceRef)

theorem Declaration.spares_fieldType (h : Holder) : Spares d.fieldType h :=
  spares_orFault rfl _ h

theorem BoundView.consults_emit : Consults (emit project d refs) (.component d.element.owner) :=
  (d.spares_fieldType _).bind_consults fun _ => consults_modifyCreation _ _ _

theorem PreferenceField.consults_emit :
    Consults (emit project d refs) (.component d.element.owner) :=
  (d.spares_fieldType _).bind_consults fun _ => consults_appendCreation _ _ _

theorem ListenerKind.consults_emit (k : ListenerKind) :
    Consults (k.emit project d refs) (.component d.element.owner) :=
  (consults_componentType _).bind fun _ => (consults_modifyCreation _ _ _).toSpares

theorem Extra.consults_ensureInjectMethod (owner : String) :
    Consults (ensureInjectMethod owner) (.component owner) := by
  refine (consults_componentType owner).bind fun t => ?_
  have hadd := (consults_modifyComponent owner (·.addMethod injectMethod)).bind fun _ =>
    (consults_appendCreation owner .inject (.run (.callHere injectExtras []))).toSpares
  split
  · exact hadd.toSpares
  · exact spares_pure () _

theorem Extra.consults_appendToGuard (owner : String) (s : Statement) :
    Consults (appendToGuard owner s) (.component owner) :=
  (consults_componentType owner).bind fun _ => (spares_orFault rfl _ _).bind fun _ =>
    (consults_modifyComponent owner _).toSpares

theorem Extra.consults_emit : Consults (emit project d refs) (.component d.element.owner) :=
  (d.spares_fieldType _).bind_consults fun _ =>
    (consults_ensureInjectMethod d.element.owner).bind fun _ =>
      (consults_appendToGuard d.element.owner _).toSpares

theorem SystemService.consults_emit :
    Consults (emit project d refs) (.component d.element.owner) :=
  (spares_orFault rfl _ _).bind_consults fun _ => consults_appendCreation _ _ _

theorem Transaction.consults_emit : Consults (emit project d refs) (.component d.element.owner) :=
  (spares_orFault rfl _ _).bind_consults fun _ => consults_modifyComponent _ _

theorem ApplicationField.consults_emit :
    Consults (emit project d refs) (.component d.element.owner) :=
  (spares_orFault rfl _ _).bind_consults fun _ => consults_appendCreation _ _ _

end ComponentGlue
