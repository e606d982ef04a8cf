import ComponentGlue.Proofs.Generation.StandardRun
import ComponentGlue.Proofs.Rule.Emission

/-!
Processors in another order. The order matters through the holders: a kind that contributes to held
types comes after the kind that puts them, or processing is cut short. In an order in which it does,
processing is never cut short for want of a holder.
-/

set_option autoImplicit false
set_option relaxedAutoImplicit false

namespace ComponentGlue

open Assemble (Reaches Spares Consults)
open StandardKind (step stepsOf mem_stepsOf_iff)

def Holder.producer : Holder → StandardKind
  | .component _ => .component
  | .restClient _ => .restClient

theorem Holder.ready_iff {done : List (StandardKind × Declaration)} {h : Holder} :
    h.Ready done ↔ ∃ d, (h.producer, d) ∈ done ∧ d.qualifiedName = h.origin := by
  cases h <;> rfl

theorem eq_error_of_map {ε α β : Type} {x : Except ε α} {g : α → β} {e : ε}
    (h : x.map g = .error e) : x = .error e := by
  cases x with
  | error e' => exact congrArg Except.error (Except.error.inj h)
  | ok v => cases h

theorem Setting.missesHolder_of_resource {s : Setting} {key : ResourceKey} {f : Fault}
    (h : s.resource key = .error f) : f.missesHolder = false := by
  unfold resource at h
  split at h
  · exact Except.error.inj h ▸ rfl
  · split at h
    · cases h
    · exact Except.error.inj h ▸ rfl

theorem Setting.missesHolder_of_resources {s : Setting} {keys : List ResourceKey} {f : Fault}
    (h : s.resources keys = .error f) : f.missesHolder = false := by
  induction keys with
  | nil => cases h
  | cons key keys ih =>
    rw [resources] at h
    cases hkey : s.resource key with
    | error f' =>
      rw [hkey] at h
      exact Except.error.inj h ▸ missesHolder_of_resource hkey
    | ok ref =>
      rw [hkey] at h
      exact ih (eq_error_of_map h)

theorem PreferenceHelper.missesHolder_of_accessor {m : MethodSig} {f : Fault}
    (h : accessor m = .error f) : f.missesHolder = false := by
  unfold accessor at h
  dsimp only at h
  split at h
  · exact Except.error.inj h ▸ rfl
  · cases h

theorem PreferenceHelper.missesHolder_of_accessors {ms : List MethodSig} {f : Fault}
    (h : accessors ms = .error f) : f.missesHolder = false := by
  induction ms with
  | nil => cases h
  | cons m ms ih =>
    rw [accessors] at h
    cases hm : accessor m with
    | error f' =>
      rw [hm] at h
      exact Except.error.inj h ▸ missesHolder_of_accessor hm
    | ok method =>
      rw [hm] at h
      exact ih (eq_error_of_map h)

namespace StandardKind

/-- The kind that has to be processed before this one, since it puts the types that this one
contributes to. -/
def producer? : StandardKind → Option StandardKind
  | .component | .preferenceHelper | .restClient => none
  | .request _ => some .restClient
  | .boundView | .htmlText | .preferenceField | .optionsMenu | .optionsItem | .resourceField _
  | .listener _ | .thread _ | .extra | .systemService | .lifecycle _ | .transaction
  | .applicationField => some .component

theorem producer?_eq (k : StandardKind) (d : Declaration) :
    k.producer? = (k.holder? d).map Holder.producer := by
  cases k <;> rfl

variable {k : StandardKind} {d : Declaration} {h : Holder}

/-- Every kind that contributes to a held type looks its holder up. -/
theorem consults_emit (hholder : k.holder? d = some h) (project : Project)
    (refs : List ResourceRef) : Consults (k.rule.emit project d refs) h := by
  cases k with
  | component | preferenceHelper | restClient => cases hholder
  | boundView =>
    cases hholder
    exact BoundView.consults_emit project d refs
  | preferenceField =>
    cases hholder
    exact PreferenceField.consults_emit project d refs
  | htmlText | resourceField | lifecycle =>
    cases hholder
    exact Assemble.consults_modifyCreation _ _ _
  | optionsMenu | optionsItem | thread =>
    cases hholder
    exact Assemble.consults_modifyComponent _ _
  | listener k =>
    cases hholder
    exact k.consults_emit project d refs
  | extra =>
    cases hholder
    exact Extra.consults_emit project d refs
  | systemService =>
    cases hholder
    exact SystemService.consults_emit project d refs
  | transaction =>
    cases hholder
    exact Transaction.consults_emit project d refs
  | applicationField =>
    cases hholder
    exact ApplicationField.consults_emit project d refs
  | request http =>
    cases hholder
    exact Assemble.consults_modifyRestClient _ _

theorem consults_step (hholder : k.holder? d = some h) (setting : Setting) :
    Consults (step setting (k, d)) h := by
  have hprocess : Consults (k.rule.processor.process setting d) h :=
    (Assemble.spares_ofExcept (fun _ => Setting.missesHolder_of_resources) h).bind_consults
      fun refs => consults_emit hholder setting.project refs
  exact hprocess.during _

theorem ne_producer (hholder : k.holder? d = some h) (other : Holder) : k ≠ other.producer := by
  rintro rfl
  cases other <;> cases hholder

/-- The processor of a kind that puts a type does so, or it is cut short before it, and not for want
of a holder. -/
theorem emit_of_puts (hholder : k.holder? d = none) (project : Project) (refs : List ResourceRef)
    (a : Assembly) :
    (∃ f : Fault, k.rule.emit project d refs a = (.error (.fault f), a) ∧
      f.missesHolder = false) ∨
    ∃ t, k.rule.emit project d refs a = (.ok (), k.hold { a with model := a.model.insert t }
      d.qualifiedName (project.generatedName d.qualifiedName)) := by
  cases k with
  | component => exact Or.inr ⟨_, rfl⟩
  | restClient => exact Or.inr ⟨_, rfl⟩
  | preferenceHelper =>
    show (∃ f : Fault, PreferenceHelper.emit project d refs a = _ ∧ _) ∨
      ∃ t, PreferenceHelper.emit project d refs a = _
    cases hmethods : PreferenceHelper.accessors d.element.methods with
    | error f =>
      refine Or.inl ⟨f, ?_, PreferenceHelper.missesHolder_of_accessors hmethods⟩
      rw [PreferenceHelper.emit, hmethods]
      rfl
    | ok methods =>
      refine Or.inr ⟨PreferenceHelper.helper (project.generatedName d.qualifiedName)
        d.qualifiedName methods, ?_⟩
      rw [PreferenceHelper.emit, hmethods]
      rfl
  | _ => cases hholder

/-- The step of a kind that puts a type does so, or it is cut short before it, and not for want of a
holder. -/
theorem step_of_puts (hholder : k.holder? d = none) (setting : Setting) (a : Assembly) :
    (∃ e, step setting (k, d) a = (.error e, a) ∧ e.contain.missesHolder = false) ∨
    ∃ t, step setting (k, d) a = (.ok (), k.hold { a with model := a.model.insert t }
      d.qualifiedName (setting.project.generatedName d.qualifiedName)) := by
  unfold step Rule.processor
  cases hresources : setting.resources (k.rule.resources d) with
  | error f =>
    have hspared : f.missesHolder = false := Setting.missesHolder_of_resources hresources
    simp only [hresources]
    exact Or.inl ⟨.fault (.during (.processing d) f), rfl, hspared⟩
  | ok refs =>
    simp only [hresources]
    have hbind : (do
        let refs ← Assemble.ofExcept (.ok refs)
        k.rule.emit setting.project d refs : Assemble Unit) a =
        k.rule.emit setting.project d refs a := rfl
    unfold Assemble.during
    rw [hbind]
    rcases emit_of_puts hholder setting.project refs a with ⟨f, hf, hspared⟩ | ⟨t, ht⟩
    · rw [hf]
      exact Or.inl ⟨_, rfl, hspared⟩
    · rw [ht]
      exact Or.inr ⟨t, rfl⟩

theorem isSome_name?_hold (k : StandardKind) (a : Assembly) (origin generated : String)
    (h : Holder) : (h.name? (k.hold a origin generated)).isSome = true ↔
      (h.name? a).isSome = true ∨ (k = h.producer ∧ origin = h.origin) := by
  cases h with
  | component o =>
    cases k
    case component =>
      refine (Table.isSome_get?_insert a.components origin o generated).trans ?_
      exact or_congr_right (and_iff_right rfl).symm
    all_goals exact (or_iff_left fun hk => nomatch hk.1).symm
  | restClient o =>
    cases k
    case restClient =>
      refine (Table.isSome_get?_insert a.restClients origin o generated).trans ?_
      exact or_congr_right (and_iff_right rfl).symm
    all_goals exact (or_iff_left fun hk => nomatch hk.1).symm

end StandardKind

section Run

variable {setting : Setting} {done : List (StandardKind × Declaration)} {a b : Assembly}
  {x : StandardKind × Declaration} {h : Holder}

/-- A step that is taken leaves the holders alone, but for the one of a type that it puts. -/
theorem isSome_name?_step (hstep : step setting x a = (.ok (), b)) :
    (h.name? b).isSome = true ↔
      (h.name? a).isSome = true ∨ (x.1 = h.producer ∧ x.2.qualifiedName = h.origin) := by
  obtain ⟨k, d⟩ := x
  cases hholder : k.holder? d with
  | none =>
    rcases StandardKind.step_of_puts hholder setting a with ⟨e, herror, -⟩ | ⟨t, hok⟩
    · rw [hstep] at herror
      cases herror
    · rw [hstep] at hok
      obtain rfl : b = _ := congrArg Prod.snd hok
      have hmodel : h.name? { a with model := a.model.insert t } = h.name? a := by
        cases h <;> rfl
      rw [StandardKind.isSome_name?_hold, hmodel]
  | some g =>
    have hkept : h.name? b = h.name? a := by
      have hsame := (StandardKind.consults_step hholder setting).kept a h
      rwa [hstep] at hsame
    rw [hkept]
    exact (or_iff_left fun hk => StandardKind.ne_producer hholder h hk.1).symm

theorem isSome_name?_iff_ready (hreaches : Reaches (step setting) done a) (h : Holder) :
    (h.name? a).isSome = true ↔ h.Ready done := by
  refine hreaches.induct (P := fun done a => (h.name? a).isSome = true ↔ h.Ready done) ?_ ?_
  · rw [Holder.ready_iff]
    constructor
    · intro hheld
      cases h <;> cases hheld
    · rintro ⟨d, hd, -⟩
      cases hd
  · intro done x rest a b _ ih hstep
    rw [isSome_name?_step hstep, ih, Holder.ready_iff, Holder.ready_iff]
    constructor
    · rintro (⟨d, hd, hname⟩ | ⟨hkind, hname⟩)
      · exact ⟨d, List.mem_append_left _ hd, hname⟩
      · exact ⟨x.2, List.mem_append_right _ (List.mem_singleton.2 (Prod.ext hkind.symm rfl)), hname⟩
    · rintro ⟨d, hd, hname⟩
      rcases List.mem_append.1 hd with hd | hd
      · exact Or.inl ⟨d, hd, hname⟩
      · obtain rfl := List.mem_singleton.1 hd
        exact Or.inr ⟨rfl, hname⟩

/-- A step whose type has not been put is cut short. -/
theorem exists_error_of_not_ready (hreaches : Reaches (step setting) done a)
    (hholder : x.1.holder? x.2 = some h) (hready : ¬ h.Ready done) :
    ∃ e, (step setting x a).1 = .error e := by
  have hnone : h.name? a = none := by
    rw [← isSome_name?_iff_ready hreaches, Bool.not_eq_true, Option.isSome_eq_false_iff,
      Option.isNone_iff_eq_none] at hready
    exact hready
  exact (StandardKind.consults_step hholder setting).asks hnone

theorem exists_runEach_error (setting : Setting) (hholder : x.1.holder? x.2 = some h)
    (hready : ¬ h.Ready done) (rest : List (StandardKind × Declaration)) :
    ∃ e, (Assemble.runEach (step setting) (done ++ x :: rest) .empty).1 = .error e := by
  rcases hrun : Assemble.runEach (step setting) (done ++ x :: rest) .empty with ⟨e | ⟨⟩, a⟩
  · exact ⟨e, rfl⟩
  · have hreaches : Reaches (step setting) (done ++ x :: rest) a := hrun
    obtain ⟨b, hdone, hok⟩ := hreaches.step_ok
    obtain ⟨e, herror⟩ := exists_error_of_not_ready hdone hholder hready
    rw [hok] at herror
    cases herror

/-- A step whose type has been put does not miss a holder. -/
theorem missesHolder_of_ready (hreaches : Reaches (step setting) done a)
    (hready : ∀ h, x.1.holder? x.2 = some h → h.Ready done) {e : Interruption}
    (herror : (step setting x a).1 = .error e) : e.contain.missesHolder = false := by
  cases hholder : x.1.holder? x.2 with
  | none =>
    rcases StandardKind.step_of_puts hholder setting a with ⟨e', he', hspared⟩ | ⟨t, hok⟩
    · rw [he'] at herror
      exact Except.error.inj herror ▸ hspared
    · rw [hok] at herror
      cases herror
  | some h =>
    have hheld := (isSome_name?_iff_ready hreaches h).2 (hready h hholder)
    exact (StandardKind.consults_step hholder setting).spared hheld herror

end Run

namespace StandardKind

/-- A step is one of its kind, and the steps of the kinds before that have been taken. -/
theorem exists_order_of_stepsOf {m : DeclarationModel} {order : List StandardKind}
    {done rest : List (StandardKind × Declaration)} {x : StandardKind × Declaration}
    (h : stepsOf m order = done ++ x :: rest) :
    ∃ before after, order = before ++ x.1 :: after ∧ stepsOf m before ⊆ done := by
  induction order generalizing done with
  | nil =>
    cases done <;> cases h
  | cons k order ih =>
    rw [stepsOf_cons, List.append_eq_append_iff] at h
    -- Either the step belongs to a later kind, or it is one of the first.
    rcases h with ⟨middle, rfl, hrest⟩ | ⟨middle, hmiddle, hrest⟩
    · obtain ⟨before, after, rfl, hsub⟩ := ih hrest
      refine ⟨k :: before, after, rfl, ?_⟩
      rw [stepsOf_cons]
      exact List.append_subset.2 ⟨List.subset_append_left _ _,
        List.Subset.trans hsub (List.subset_append_right _ _)⟩
    · cases middle with
      | nil =>
        obtain ⟨before, after, rfl, hsub⟩ := @ih [] hrest.symm
        refine ⟨k :: before, after, rfl, ?_⟩
        rw [stepsOf_cons, hmiddle, List.append_nil, List.subset_nil.1 hsub, List.append_nil]
        exact List.Subset.refl done
      | cons y middle =>
        obtain rfl : x = y := List.head_eq_of_cons_eq hrest
        have hx : x ∈ (m.declarations k.marker).map fun d => (k, d) :=
          hmiddle ▸ List.mem_append_right _ List.mem_cons_self
        obtain ⟨d, -, rfl⟩ := List.mem_map.1 hx
        exact ⟨[], order, rfl, fun y hy => by cases hy⟩

/-- Each kind in the order with a declaration in the model comes after the kind that puts the types
it contributes to. -/
def Supplied (m : DeclarationModel) (order : List StandardKind) : Prop :=
  ∀ before k after p, order = before ++ k :: after → m.declarations k.marker ≠ [] →
    k.producer? = some p → p ∈ before

variable {m : DeclarationModel} {order : List StandardKind} {setting : Setting}

theorem generate_processors_eq_error_iff {e : Interruption} :
    Processor.generate (processors order) m setting = .error e ↔
      (Assemble.runEach (step setting) (stepsOf m order) .empty).1 = .error e := by
  unfold Processor.generate
  rw [runAll_processors_eq]
  rcases Assemble.runEach (step setting) (stepsOf m order) .empty with ⟨e' | v, a⟩
  · rw [Except.error.injEq, Except.error.injEq]
  · constructor
    · intro h
      cases h
    · intro h
      cases h

theorem not_ready_of_producer_notMem {h : Holder} (hmissing : h.producer ∉ order) :
    ¬ h.Ready (stepsOf m order) := by
  rw [Holder.ready_iff]
  rintro ⟨d, hd, -⟩
  exact hmissing (mem_stepsOf_iff.1 hd).1

theorem exists_generate_error_of_not_supplied (setting : Setting) (h : ¬ Supplied m order) :
    ∃ e, Processor.generate (processors order) m setting = .error e := by
  unfold Supplied at h
  push Not at h
  obtain ⟨before, k, after, p, rfl, hne, hp, hmissing⟩ := h
  obtain ⟨d, ds, hdeclared⟩ := List.exists_cons_of_ne_nil hne
  obtain ⟨holder, hholder, rfl⟩ := Option.map_eq_some_iff.1 ((k.producer?_eq d).symm.trans hp)
  have hsteps : stepsOf m (before ++ k :: after) =
      stepsOf m before ++ (k, d) :: ((ds.map fun d => (k, d)) ++ stepsOf m after) := by
    rw [stepsOf_append, stepsOf_cons, hdeclared]
    rfl
  obtain ⟨e, herror⟩ := exists_runEach_error setting (x := (k, d)) hholder
    (not_ready_of_producer_notMem hmissing) ((ds.map fun d => (k, d)) ++ stepsOf m after)
  exact ⟨e, generate_processors_eq_error_iff.2 (hsteps ▸ herror)⟩

def Owned (m : DeclarationModel) : Prop :=
  ∀ (k : StandardKind) (d : Declaration) (h : Holder), d ∈ m.declarations k.marker →
    k.holder? d = some h → m.isAnnotated h.origin h.producer.marker = true

theorem owned_accepted {c : ValidationContext} (hgrouped : c.extracted.Grouped) :
    Owned c.accepted := by
  intro k d h hd hholder
  have howner : c.accepted.isAnnotated h.owner.element h.owner.marker = true :=
    (c.accepts_of_mem hgrouped hd).owners _ (owner_mem_needs hholder)
  cases h <;> exact howner

theorem missesHolder_of_supplied (howned : Owned m) (h : Supplied m order) {e : Interruption}
    (herror : Processor.generate (processors order) m setting = .error e) :
    e.contain.missesHolder = false := by
  have hends : (∃ a, Reaches (step setting) (stepsOf m order) a) ∨ _ :=
    Assemble.reaches_or_error (stepsOf m order)
  rw [generate_processors_eq_error_iff] at herror
  rcases hends with ⟨a, hall⟩ | ⟨done, x, rest, a, e', hsteps, hdone, hstep, hrun⟩
  · rw [hall] at herror
    cases herror
  · obtain rfl : e' = e := Except.error.inj (hrun.symm.trans herror)
    obtain ⟨before, after, horder, hsub⟩ := exists_order_of_stepsOf hsteps
    have hmem : x ∈ stepsOf m order := hsteps ▸ List.mem_append_right _ List.mem_cons_self
    have hx : x.2 ∈ m.declarations x.1.marker := (mem_stepsOf_iff.1 hmem).2
    refine missesHolder_of_ready hdone (fun holder hholder => ?_) hstep
    have hproducer : holder.producer ∈ before := by
      refine h before x.1 after _ horder (List.ne_nil_of_mem hx) ?_
      rw [producer?_eq x.1 x.2, hholder]
      rfl
    obtain ⟨d, hd, hname⟩ := DeclarationModel.isAnnotated_iff.1 (howned _ _ _ hx hholder)
    exact Holder.ready_iff.2 ⟨d, hsub (mem_stepsOf_iff.2 ⟨hproducer, hd⟩), hname⟩

theorem exists_failedIn_of_not_supplied {σ : Type} {env : Environment (StateM σ)} {round : Round}
    {pipeline : Pipeline} {s : σ} (hprocessors : pipeline.registry.processors = processors order)
    {v : Visit} (hv : v ∈ (Pipeline.observe env round pipeline s).visits)
    (hphase : v.phase = .process) (hvalidated : v.before.validated = some m)
    (h : ¬ Supplied m order) : ∃ e, (Pipeline.observe env round pipeline s).FailedIn
      ⟨round, pipeline.project, pipeline.registry⟩ v e := by
  have hprocess := Pipeline.runProcess_of_mem_visited hv hphase
  obtain ⟨e, he⟩ :=
    exists_generate_error_of_not_supplied ⟨v.before.catalog, pipeline.project⟩ h
  refine ⟨e, Pipeline.failedIn_of_error hv ?_⟩
  simp only [Phase.runProcess, hvalidated, hprocessors, he] at hprocess
  exact (congrArg Prod.fst hprocess).symm

/-- The order of the processors matters through the holders alone. Where a kind with a declaration
comes before the kind that puts its type, or without it, processing is cut short and nothing is
rendered. Where none does, no processor misses a holder. -/
theorem generates_in_order {batches : List (Marker × List RawDeclaration)}
    {catalog : Option Catalog} {project : Project} {m : DeclarationModel}
    (hvalid : (Validator.validate Registry.standard.validators
      ⟨.extract batches, catalog, project⟩).result = .ok m) (order : List StandardKind) :
    (¬ Supplied m order →
      (∀ setting, ∃ e, Processor.generate (processors order) m setting = .error e) ∧
      ∀ {σ : Type} (env : Environment (StateM σ)) (round : Round) (pipeline : Pipeline) (s : σ),
        pipeline.registry.processors = processors order →
        (∃ v ∈ (Pipeline.observe env round pipeline s).visits,
          v.phase = .process ∧ v.before.validated = some m) →
        (Pipeline.observe env round pipeline s).outcome.status = .failed ∧
        (Pipeline.observe env round pipeline s).renderings = []) ∧
    (Supplied m order → ∀ setting e,
      Processor.generate (processors order) m setting = .error e →
        e.contain.missesHolder = false) := by
  constructor
  · intro h
    refine ⟨fun setting => exists_generate_error_of_not_supplied setting h, ?_⟩
    rintro σ env round pipeline s hprocessors ⟨v, hv, hphase, hvalidated⟩
    obtain ⟨e, hfailed⟩ := exists_failedIn_of_not_supplied hprocessors hv hphase hvalidated h
    refine ⟨hfailed.status, hfailed.rendered.2 ?_⟩
    rw [hphase]
    exact Phase.noConfusion
  · intro h setting e
    rw [ValidationContext.validate_standard] at hvalid
    obtain rfl := Except.ok.inj hvalid
    exact missesHolder_of_supplied (owned_accepted (DeclarationModel.grouped_extract batches)) h

private def notesBatches : List (Marker × List RawDeclaration) :=
  [(.rest, [⟨⟨.interfaceType, "Notes", "a", none, [], [], [], [], [⟨"all", [], none⟩]⟩, .empty⟩]),
    (HttpMethod.get.marker, [⟨⟨.method, "all", "a.Notes", none, [], [], [], [], []⟩,
      .ofList [("url", .str "/all")]⟩])]

private def notesContext : ValidationContext := ⟨.extract notesBatches, none, .new "a"⟩

private def notesHost : Environment (StateM Unit) where
  declarations marker := pure (.ok (((Table.ofList notesBatches).get? marker).getD []))
  symbols scope := pure (.ok (.error (.missing scope)))
  render model := pure (.ok model.artifactCount)
  report _ := pure ()
  now := pure 0

private def notesPipeline (order : List StandardKind) : Pipeline :=
  .new ⟨Registry.standard.validators, processors order⟩ (.new "a")

private def notesRun (order : List StandardKind) : Pipeline.Observed :=
  Pipeline.observe notesHost (.ofMarkers (notesBatches.map Prod.fst)) (notesPipeline order) ()

private theorem exists_visit_notesRun {order : List StandardKind}
    (h : (notesRun order).visits[3]?.map Visit.phase = some .process) :
    ∃ v ∈ (notesRun order).visits, v.phase = .process ∧
      v.before.validated = some notesContext.accepted := by
  obtain ⟨v, hv, hphase⟩ := Option.map_eq_some_iff.1 h
  have hmem : v ∈ Pipeline.visited notesHost (.ofMarkers (notesBatches.map Prod.fst))
    (notesPipeline order) () := List.mem_of_getElem? hv
  obtain ⟨batches, project, platform, m, hbatches, ⟨t, hproject⟩, ⟨t', hplatform⟩, -, hcatalog,
    hvalidated, haccepted, -⟩ := Pipeline.exists_validated_of_mem_visited hmem hphase
  refine ⟨v, hmem, hphase, ?_⟩
  obtain rfl : notesBatches = batches := Except.ok.inj hbatches
  obtain rfl : .error (.missing .project) = project := Except.ok.inj hproject
  rw [hcatalog] at haccepted
  have hm : (Validator.validate Registry.standard.validators notesContext).result = .ok m :=
    haccepted
  rw [ValidationContext.validate_standard] at hm
  rw [hvalidated, Except.ok.inj hm]

theorem generates_in_order_notes :
    (Validator.validate Registry.standard.validators notesContext).result =
        .ok notesContext.accepted ∧
      Supplied notesContext.accepted [.restClient, .request .get] ∧
      (∀ setting e, Processor.generate (processors [.restClient, .request .get])
        notesContext.accepted setting = .error e → e.contain.missesHolder = false) ∧
      ¬ Supplied notesContext.accepted [.request .get, .restClient] ∧
      (∃ e, Processor.generate (processors [.request .get, .restClient]) notesContext.accepted
        notesContext.setting = .error e) ∧
      (notesRun [.request .get, .restClient]).outcome.status = .failed ∧
      (notesRun [.request .get, .restClient]).renderings = [] := by
  have hresult : (Validator.validate Registry.standard.validators notesContext).result =
      .ok notesContext.accepted := congrArg Reported.result (ValidationContext.validate_standard _)
  have hsupplied : Supplied notesContext.accepted [.restClient, .request .get] := by
    intro before k after p horder _ hp
    rcases before with - | ⟨first, before⟩
    · obtain rfl := List.head_eq_of_cons_eq horder
      cases hp
    · obtain ⟨rfl, hrest⟩ := List.cons_eq_cons.1 horder
      rcases before with - | ⟨second, before⟩
      · obtain rfl := List.head_eq_of_cons_eq hrest
        obtain rfl := Option.some.inj hp
        exact List.mem_cons_self
      · cases before <;> cases List.tail_eq_of_cons_eq hrest
  have hearly : ¬ Supplied notesContext.accepted [.request .get, .restClient] := by
    intro h
    have hdeclared : notesContext.accepted.declarations HttpMethod.get.marker ≠ [] := by
      rw [← List.length_pos_iff]
      decide +kernel
    exact List.not_mem_nil (h [] (.request .get) [.restClient] .restClient rfl hdeclared rfl)
  obtain ⟨herror, hrun⟩ := (generates_in_order hresult [.request .get, .restClient]).1 hearly
  obtain ⟨hstatus, hrenderings⟩ := hrun notesHost _ (notesPipeline [.request .get, .restClient]) ()
    rfl (exists_visit_notesRun (by decide +kernel))
  exact ⟨hresult, hsupplied, (generates_in_order hresult _).2 hsupplied, hearly, herror _, hstatus,
    hrenderings⟩

end StandardKind

end ComponentGlue
