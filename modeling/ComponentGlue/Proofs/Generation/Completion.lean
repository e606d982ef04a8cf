import ComponentGlue.Proofs.Generation.Invariant

set_option autoImplicit false
set_option relaxedAutoImplicit false

namespace ComponentGlue

section Completion

open Assemble (Reaches runEach)
open StandardKind (step schedule mem_schedule_iff mem_done mem_schedule_of_mem_done)

namespace DeclarationModel

def Replaces (m : DeclarationModel) (origin : String) : Prop :=
  m.isAnnotated origin .sharedPref = true ∨ m.isAnnotated origin .rest = true

/-- A method of the origin that runs on a thread has the name of the reading method. -/
def Hides (m : DeclarationModel) (origin : String) : Prop :=
  ∃ k : ThreadKind, ∃ d ∈ m.declarations k.marker,
    d.element.owner = origin ∧ d.element.name = Extra.injectExtras

/-- Nothing in the model stands in the way of what the declaration adds to its component. -/
structure Clear (m : DeclarationModel) (k : StandardKind) (d : Declaration) : Prop where
  kept : k.needsBlocks = true → ¬ m.Replaces d.element.owner
  shown : k = .extra → ¬ m.Hides d.element.owner

def Generable (m : DeclarationModel) : Prop :=
  ∀ k : StandardKind, ∀ d ∈ m.declarations k.marker, m.Clear k d

end DeclarationModel

variable {m : DeclarationModel} {done rest : List (StandardKind × Declaration)}
  {x : StandardKind × Declaration} {origin : String}

theorem eq_of_stage_eq_types {k : StandardKind} (h : k.stage = .types) :
    k = .preferenceHelper ∨ k = .restClient := by
  cases k
  case preferenceHelper => exact Or.inl rfl
  case restClient => exact Or.inr rfl
  all_goals cases h

theorem replaced_iff (hschedule : schedule m = done ++ x :: rest) (hstage : .types < x.1.stage) :
    Replaced done origin ↔ m.Replaces origin := by
  constructor
  · rintro ⟨⟨k, d⟩, hmem, htypes, hname⟩
    have hd := mem_schedule_iff.1 (mem_schedule_of_mem_done hschedule hmem)
    rcases eq_of_stage_eq_types htypes with rfl | rfl
    · exact Or.inl (DeclarationModel.isAnnotated_iff.2 ⟨d, hd, hname⟩)
    · exact Or.inr (DeclarationModel.isAnnotated_iff.2 ⟨d, hd, hname⟩)
  · have hdone : ∀ k : StandardKind, k.stage = .types → m.isAnnotated origin k.marker = true →
        Replaced done origin := by
      intro k htypes h
      obtain ⟨d, hd, hname⟩ := DeclarationModel.isAnnotated_iff.1 h
      have hmem : (k, d) ∈ schedule m := mem_schedule_iff.2 hd
      exact ⟨(k, d), mem_done hschedule hmem (htypes ▸ hstage), htypes, hname⟩
    rintro (h | h)
    · exact hdone .preferenceHelper rfl h
    · exact hdone .restClient rfl h

theorem hidden_iff (hschedule : schedule m = done ++ x :: rest) (hextra : x.1 = .extra) :
    Hidden done origin ↔ m.Hides origin := by
  constructor
  · rintro ⟨⟨k, d⟩, hmem, ⟨⟨l, hl⟩, hname⟩, howner⟩
    obtain rfl : k = .thread l := hl
    exact ⟨l, d, mem_schedule_iff.1 (mem_schedule_of_mem_done hschedule hmem), howner, hname⟩
  · rintro ⟨l, d, hd, howner, hname⟩
    have hmem : (.thread l, d) ∈ schedule m := mem_schedule_iff.2 hd
    have hstage : StandardKind.stage (.thread l) < x.1.stage := by
      rw [hextra]
      exact of_decide_eq_true rfl
    exact ⟨_, mem_done hschedule hmem hstage, ⟨⟨l, rfl⟩, hname⟩, howner⟩

theorem holder?_of_needsBlocks {k : StandardKind} (h : k.needsBlocks = true) (d : Declaration) :
    k.holder? d = some (.component d.element.owner) := by
  cases k
  case boundView | htmlText | preferenceField | resourceField | listener | extra | systemService
    | lifecycle | applicationField => rfl
  all_goals cases h

theorem needsBlocks_of_not_clear {k : StandardKind} {d : Declaration} (h : ¬ m.Clear k d) :
    k.needsBlocks = true := by
  by_contra hneeds
  exact h ⟨fun h' => absurd h' hneeds, fun hextra => absurd (hextra ▸ rfl) hneeds⟩

/-- A type can take a contribution exactly when it is still the component's own, and its reading
method as well if the contribution is an extra. -/
theorem exists_apply_iff {contribution : Contribution} {t : GeneratedType} {h : Holder}
    (hshaped : Shaped done h.origin t) (hgives : x.1.Gives x.2 contribution)
    (hstage : ∀ y ∈ done, y.1.stage ≤ x.1.stage) :
    (∃ t', contribution.apply t = .ok t') ↔
      (x.1.needsBlocks = true → ¬ Replaced done h.origin) ∧
      (x.1 = .extra → ¬ Hidden done h.origin) := by
  constructor
  · rintro ⟨t', happly⟩
    have hkept : x.1.needsBlocks = true → ¬ Replaced done h.origin := by
      intro hneeds hreplaced
      obtain ⟨f, hf⟩ := Contribution.exists_error_of_foreign (hshaped.foreign hreplaced)
        (hgives.blocks.trans hneeds)
      rw [happly] at hf
      cases hf
    refine ⟨hkept, fun hextra hhidden => ?_⟩
    obtain ⟨s, rfl⟩ := hgives.extra.2 hextra
    have hreplaced : ¬ Replaced done h.origin := hkept (hextra ▸ rfl)
    rw [Contribution.apply_extra_of_hidesExtras (hshaped.hides hreplaced hhidden)] at happly
    cases happly
  · rintro ⟨hkept, hshown⟩
    cases hneeds : x.1.needsBlocks with
    | false => exact Contribution.exists_apply_of_not_needsBlocks (hgives.blocks.trans hneeds) t
    | true =>
      have hreplaced := hkept hneeds
      by_cases hextra : x.1 = .extra
      · obtain ⟨s, rfl⟩ := hgives.extra.2 hextra
        refine Contribution.exists_apply_extra (hshaped.blocks hreplaced) ?_ s
        refine hshaped.reads hreplaced (hshown hextra) fun y hy => ?_
        have hy := hstage y hy
        rwa [hextra] at hy
      · exact Contribution.exists_apply (hshaped.blocks hreplaced) fun s hs =>
          hextra (hgives.extra.1 ⟨s, hs⟩)

theorem clear_iff (hschedule : schedule m = done ++ x :: rest) {h : Holder}
    (hholder : x.1.holder? x.2 = some h) : m.Clear x.1 x.2 ↔
      (x.1.needsBlocks = true → ¬ Replaced done h.origin) ∧
      (x.1 = .extra → ¬ Hidden done h.origin) := by
  have howner : x.1.needsBlocks = true → h.origin = x.2.element.owner := by
    intro hneeds
    rw [holder?_of_needsBlocks hneeds] at hholder
    cases hholder
    rfl
  have hkept : (x.1.needsBlocks = true → ¬ m.Replaces x.2.element.owner) ↔
      (x.1.needsBlocks = true → ¬ Replaced done h.origin) := by
    refine imp_congr_right fun hneeds => ?_
    rw [replaced_iff hschedule (types_lt_stage_of_holder? hholder), howner hneeds]
  have hshown : (x.1 = .extra → ¬ m.Hides x.2.element.owner) ↔
      (x.1 = .extra → ¬ Hidden done h.origin) := by
    refine imp_congr_right fun hextra => ?_
    rw [hidden_iff hschedule hextra, howner (hextra ▸ rfl)]
  exact ⟨fun h' => ⟨hkept.1 h'.kept, hshown.1 h'.shown⟩,
    fun h' => ⟨hkept.2 h'.1, hshown.2 h'.2⟩⟩

/-- The causes for which a component's type refuses what is added to it. -/
def Fault.Refuses (f : Fault) (typeName : String) : Prop :=
  f = .lostExtrasGuard typeName Extra.injectExtras ∨
    ∃ b : CreationBlock, f = .noBlock typeName onCreate b.label

section

variable {c : ValidationContext} {a : Assembly}

/-- A step is taken when nothing stands in its way. -/
theorem step_ok_of_clear (hgrouped : c.extracted.Grouped)
    (hschedule : schedule c.accepted = done ++ x :: rest)
    (hreaches : Reaches (step c.setting) done a) (hclear : c.accepted.Clear x.1 x.2) :
    ∃ b, step c.setting x a = (.ok (), b) := by
  have haccepts := accepts_of_schedule hgrouped hschedule
  cases hholder : x.1.holder? x.2 with
  | none =>
    obtain ⟨t, -, -, -, hput⟩ := StandardKind.exists_type haccepts.fits hholder
    exact ⟨_, hput a⟩
  | some h =>
    obtain ⟨t, contribution, -, hshaped, -, hholds, hgives, hchanges⟩ :=
      exists_change (built_of_reaches hgrouped hschedule hreaches) haccepts hschedule hholder
    obtain ⟨t', happly⟩ := (exists_apply_iff hshaped hgives fun y =>
      StandardKind.stage_le_of_mem_done hschedule).2 ((clear_iff hschedule hholder).1 hclear)
    exact ⟨_, hchanges.changed hholds (by rw [happly]; rfl)⟩

theorem step_error_of_not_clear (hgrouped : c.extracted.Grouped)
    (hschedule : schedule c.accepted = done ++ x :: rest)
    (hreaches : Reaches (step c.setting) done a) (hclear : ¬ c.accepted.Clear x.1 x.2) :
    ∃ cause : Fault, cause.Refuses (c.project.generatedName x.2.element.owner) ∧
      (step c.setting x a).1 = .error (.fault (.during (.processing x.2) cause)) := by
  have hholder := holder?_of_needsBlocks (needsBlocks_of_not_clear hclear) x.2
  obtain ⟨t, contribution, -, hshaped, hname, hholds, hgives, hchanges⟩ :=
    exists_change (built_of_reaches hgrouped hschedule hreaches)
      (accepts_of_schedule hgrouped hschedule) hschedule hholder
  cases happly : contribution.apply t with
  | ok t' =>
    have hfree := (exists_apply_iff hshaped hgives fun y =>
      StandardKind.stage_le_of_mem_done hschedule).1 ⟨t', happly⟩
    exact absurd ((clear_iff hschedule hholder).2 hfree) hclear
  | error f =>
    refine ⟨f, ?_, hchanges.refused hholds (by rw [happly]; rfl)⟩
    have hrefuses := Contribution.fault_of_apply happly
    rw [hname] at hrefuses
    exact hrefuses

theorem exists_reaches_iff (hgrouped : c.extracted.Grouped) :
    (∃ a, Reaches (step c.setting) (schedule c.accepted) a) ↔ c.accepted.Generable := by
  constructor
  · rintro ⟨a, hreaches⟩ k d hd
    have hmem : (k, d) ∈ schedule c.accepted := mem_schedule_iff.2 hd
    obtain ⟨done, rest, hschedule⟩ := List.append_of_mem hmem
    rw [hschedule] at hreaches
    obtain ⟨b, hdone, hok⟩ := hreaches.step_ok
    by_contra hclear
    obtain ⟨cause, -, herror⟩ := step_error_of_not_clear hgrouped hschedule hdone hclear
    rw [herror] at hok
    cases hok
  · intro hgenerable
    rcases Assemble.reaches_or_error (schedule c.accepted) with hall |
      ⟨done, x, rest, a, e, hschedule, hdone, herror, -⟩
    · exact hall
    · have hx : x ∈ schedule c.accepted := hschedule ▸ List.mem_append_right _ List.mem_cons_self
      obtain ⟨b, hb⟩ := step_ok_of_clear hgrouped hschedule hdone
        (hgenerable x.1 x.2 (mem_schedule_iff.1 hx))
      rw [hb] at herror
      cases herror

theorem generate_standard (m : DeclarationModel) (setting : Setting) :
    Processor.generate Registry.standard.processors m setting =
      match runEach (step setting) (schedule m) .empty with
      | (.error e, _) => .error e
      | (.ok (), a) => .ok a.model := by
  unfold Processor.generate
  exact StandardKind.runAll_eq m setting .empty ▸ rfl

theorem exists_generate_iff (hgrouped : c.extracted.Grouped) :
    (∃ model, Processor.generate Registry.standard.processors c.accepted c.setting = .ok model) ↔
      c.accepted.Generable := by
  rw [← exists_reaches_iff hgrouped, generate_standard]
  unfold Reaches
  rcases runEach (step c.setting) (schedule c.accepted) .empty with ⟨e | v, b⟩
  · constructor
    · rintro ⟨model, hmodel⟩
      cases hmodel
    · rintro ⟨b', hb'⟩
      cases hb'
  · exact ⟨fun _ => ⟨b, rfl⟩, fun _ => ⟨b.model, rfl⟩⟩

theorem generate_error (hgrouped : c.extracted.Grouped) {e : Interruption}
    (herror : Processor.generate Registry.standard.processors c.accepted c.setting = .error e) :
    ∃ (k : StandardKind) (d : Declaration) (cause : Fault), d ∈ c.accepted.declarations k.marker ∧
      ¬ c.accepted.Clear k d ∧ cause.Refuses (c.project.generatedName d.element.owner) ∧
      e = .fault (.during (.processing d) cause) := by
  rw [generate_standard] at herror
  rcases Assemble.reaches_or_error (schedule c.accepted) with ⟨a, hall⟩ |
    ⟨done, x, rest, a, e', hschedule, hdone, hstep, hrun⟩
  · rw [hall] at herror
    cases herror
  · have hx : x ∈ schedule c.accepted := hschedule ▸ List.mem_append_right _ List.mem_cons_self
    have hclear : ¬ c.accepted.Clear x.1 x.2 := by
      intro hclear
      obtain ⟨b, hb⟩ := step_ok_of_clear hgrouped hschedule hdone hclear
      rw [hb] at hstep
      cases hstep
    obtain ⟨cause, hcause, hrefused⟩ := step_error_of_not_clear hgrouped hschedule hdone hclear
    refine ⟨x.1, x.2, cause, mem_schedule_iff.1 hx, hclear, hcause, ?_⟩
    rcases hends : runEach (step c.setting) (schedule c.accepted) .empty with ⟨e'' | v, b⟩
    · rw [hends] at herror hrun
      obtain rfl := Except.error.inj herror
      obtain rfl := Except.error.inj hrun
      rw [hrefused] at hstep
      exact (Except.error.inj hstep).symm
    · rw [hends] at hrun
      cases hrun

end

/-- Processing what the standard validators accept ends with a model exactly when nothing in it stands
in the way of a declaration. Otherwise it ends at such a declaration, and the cause is that a block or
the guard of the reading method is missing from the type of its component. -/
theorem generates_accepted_iff {batches : List (Marker × List RawDeclaration)}
    {catalog : Option Catalog} {project : Project} {m : DeclarationModel}
    (hvalid : (Validator.validate Registry.standard.validators
      ⟨.extract batches, catalog, project⟩).result = .ok m) :
    ((∃ model, Processor.generate Registry.standard.processors m ⟨catalog, project⟩ = .ok model) ↔
      m.Generable) ∧
    ∀ e, Processor.generate Registry.standard.processors m ⟨catalog, project⟩ = .error e →
      ∃ (k : StandardKind) (d : Declaration) (cause : Fault), d ∈ m.declarations k.marker ∧
        ¬ m.Clear k d ∧ cause.Refuses (project.generatedName d.element.owner) ∧
        e = .fault (.during (.processing d) cause) := by
  have hgrouped := DeclarationModel.grouped_extract batches
  rw [ValidationContext.validate_standard] at hvalid
  obtain rfl := Except.ok.inj hvalid
  exact ⟨exists_generate_iff hgrouped, fun e => generate_error hgrouped⟩

private def extrasBatches (method : String) : List (Marker × List RawDeclaration) :=
  [(.enhancedComponent, [⟨⟨.classType, "Main", "a", none, [], [], [], [], []⟩, .empty⟩]),
    (ThreadKind.background.marker,
      [⟨⟨.method, method, "a.Main", none, [], [], [], [], []⟩, .empty⟩]),
    (.extra, [⟨⟨.field, "count", "a.Main", some "int", [], [], [], [], []⟩, .empty⟩])]

private def extrasContext (method : String) : ValidationContext :=
  ⟨.extract (extrasBatches method), none, .new "a"⟩

private def outcome (r : Except Interruption GenerationModel) : Except String (List String) :=
  match r with
  | .error e => .error e.contain.text
  | .ok model => .ok (model.typeList.map GeneratedType.name)

theorem generates_accepted_load :
    ∃ m, (Validator.validate Registry.standard.validators (extrasContext "load")).result = .ok m ∧
      m.Generable ∧ outcome (Processor.generate Registry.standard.processors m
        (extrasContext "load").setting) = .ok ["a.Main_"] := by
  have hresult : (Validator.validate Registry.standard.validators (extrasContext "load")).result =
      .ok (extrasContext "load").accepted :=
    congrArg Reported.result (ValidationContext.validate_standard _)
  have houtcome : outcome (Processor.generate Registry.standard.processors
      (extrasContext "load").accepted (extrasContext "load").setting) = .ok ["a.Main_"] := by
    decide +kernel
  refine ⟨_, hresult, (generates_accepted_iff hresult).1.1 ?_, houtcome⟩
  cases hmodel : Processor.generate Registry.standard.processors
      (extrasContext "load").accepted ⟨none, .new "a"⟩ with
  | ok model => exact ⟨model, rfl⟩
  | error e =>
    have herror : Except.error e.contain.text = Except.ok ["a.Main_"] :=
      (congrArg outcome hmodel).symm.trans houtcome
    cases herror

/-- A method on a thread that is named like the reading method is all it takes. -/
theorem faults_accepted_injectExtras :
    ∃ m, (Validator.validate Registry.standard.validators
        (extrasContext "injectExtras")).result = .ok m ∧
      outcome (Processor.generate Registry.standard.processors m
        (extrasContext "injectExtras").setting) =
        .error ("processing @extra on field a.Main#count: " ++
          "a.Main_.injectExtras lost its extras guard") := by
  refine ⟨_, congrArg Reported.result (ValidationContext.validate_standard _), ?_⟩
  decide +kernel

end Completion

open Assemble (Reaches)
open StandardKind (step schedule mem_schedule_iff)

namespace Setting

/-- The lookups that are made when resources are resolved in turn, each with its answer. The first
failure is the last lookup. -/
def lookups (s : Setting) : List ResourceKey → List (ResourceKey × Except Fault ResourceRef)
  | [] => []
  | key :: keys =>
    (key, s.resource key) ::
      match s.resource key with
      | .error _ => []
      | .ok _ => s.lookups keys

theorem resources_eq_mapM_lookups (s : Setting) (keys : List ResourceKey) :
    s.resources keys = (s.lookups keys).mapM Prod.snd := by
  induction keys with
  | nil => rfl
  | cons key keys ih =>
    rw [resources, lookups, List.mapM_cons]
    cases s.resource key with
    | error f => rfl
    | ok ref =>
      simp only [ih]
      cases (s.lookups keys).mapM Prod.snd with
      | error f => rfl
      | ok refs => rfl

theorem lookups_eq_map {s : Setting} {keys : List ResourceKey}
    (h : ∀ key ∈ keys, ∃ ref, s.resource key = .ok ref) :
    s.lookups keys = keys.map fun key => (key, s.resource key) := by
  induction keys with
  | nil => rfl
  | cons key keys ih =>
    obtain ⟨ref, href⟩ := h key List.mem_cons_self
    have hkeys := ih fun key' hkey' => h key' (List.mem_cons_of_mem key hkey')
    rw [lookups, List.map_cons, hkeys, href]

end Setting

/-- Ask for the name of the held type. -/
def Holder.lookup : Holder → Assemble String
  | .component origin => Assemble.componentName origin
  | .restClient interface => Assemble.restClientName interface

theorem Holder.lookup_of_holds {h : Holder} {a : Assembly} {name : String} {t : GeneratedType}
    (hholds : h.Holds a name t) : h.lookup a = (.ok name, a) := by
  cases h with
  | component origin => exact Assemble.componentName_of_holds hholds
  | restClient interface => exact Assemble.restClientName_of_holds hholds

theorem Fault.missing_not_refuses (h : Holder) (typeName : String) :
    ¬ h.missing.Refuses typeName := by
  rintro (heq | ⟨b, heq⟩)
  · cases h <;> cases heq
  · cases h <;> cases heq

/-- The processor of a declaration looks up what its validator looked up. -/
structure Agrees (c : ValidationContext) (m : DeclarationModel) (k : StandardKind)
    (d : Declaration) : Prop where
  /-- The same resources are looked up in the same order. -/
  keys : (c.setting.lookups (k.rule.resources d)).map Prod.fst =
    (k.rule.check ⟨c, d⟩).findings.lookups
  /-- Every lookup of a resource succeeds, and both have found the same one. -/
  answers : ∀ l ∈ c.setting.lookups (k.rule.resources d), ∃ ref, l.2 = .ok ref ∧
    (Subject.resource ⟨c, d⟩ l.1.type l.1.name).value = some ref
  /-- The processor goes on with what these lookups have found. -/
  resolved : ∃ refs, (c.setting.lookups (k.rule.resources d)).mapM Prod.snd = .ok refs ∧
    k.rule.processor.process c.setting d = k.rule.emit c.project d refs
  /-- When the declaration is processed, the holder of its type is there. -/
  held : ∀ done rest a, schedule m = done ++ (k, d) :: rest → Reaches (step c.setting) done a →
    ∀ h, k.holder? d = some h → ∃ name, h.lookup a = (.ok name, a)
  /-- No holder is missed. -/
  unmissed : ∀ done rest a, schedule m = done ++ (k, d) :: rest →
    Reaches (step c.setting) done a → ∀ h : Holder,
      (step c.setting (k, d) a).1 ≠ .error (.fault (.during (.processing d) h.missing))

theorem lookups_check {k : StandardKind} {c : ValidationContext} {d : Declaration}
    (h : k.Fits c d) : (k.rule.check ⟨c, d⟩).findings.lookups = k.rule.resources d := by
  rw [StandardKind.findings_of_fits h, Requirement.lookups_findings]

theorem agrees_of_accepts {c : ValidationContext} {k : StandardKind} {d : Declaration}
    (hgrouped : c.extracted.Grouped) (haccepts : c.Accepts k d) : Agrees c c.accepted k d := by
  have hresolves : ∀ key ∈ k.rule.resources d, ∃ ref, c.setting.resource key = .ok ref :=
    haccepts.fits.met.resources
  constructor
  · rw [lookups_check haccepts.fits, Setting.lookups_eq_map hresolves, List.map_map]
    exact List.map_id _
  · intro l hl
    rw [Setting.lookups_eq_map hresolves] at hl
    obtain ⟨key, hkey, rfl⟩ := List.mem_map.1 hl
    obtain ⟨ref, href⟩ := hresolves key hkey
    refine ⟨ref, href, ?_⟩
    rw [(Subject.yields_resource ⟨c, d⟩ key.type key.name).value_eq ⟨ref, href⟩]
    exact congrArg Except.toOption href
  · rw [← Setting.resources_eq_mapM_lookups]
    obtain ⟨refs, hrefs, -, hprocess⟩ := StandardKind.exists_process_eq haccepts.fits
    exact ⟨refs, hrefs, hprocess⟩
  · intro done rest a hschedule hreaches h hholder
    obtain ⟨t, -, -, hholds⟩ := exists_holds (built_of_reaches hgrouped hschedule hreaches)
      (ready_of_accepts haccepts hholder hschedule)
    exact ⟨_, Holder.lookup_of_holds hholds⟩
  · intro done rest a hschedule hreaches h herror
    by_cases hclear : c.accepted.Clear k d
    · obtain ⟨b, hb⟩ := step_ok_of_clear hgrouped hschedule hreaches hclear
      rw [hb] at herror
      cases herror
    · obtain ⟨cause, hcause, hrefused⟩ := step_error_of_not_clear hgrouped hschedule hreaches hclear
      rw [hrefused] at herror
      cases herror
      exact Fault.missing_not_refuses h _ hcause

/-- Every declaration that the standard validators accept is of a kind whose check and processor
agree on it. -/
theorem agrees_of_accepted {batches : List (Marker × List RawDeclaration)}
    {catalog : Option Catalog} {project : Project} {m : DeclarationModel}
    (hvalid : (Validator.validate Registry.standard.validators
      ⟨.extract batches, catalog, project⟩).result = .ok m) {marker : Marker} {d : Declaration}
    (hd : d ∈ m.declarations marker) :
    ∃ k : StandardKind, k.marker = marker ∧ Agrees ⟨.extract batches, catalog, project⟩ m k d := by
  have hgrouped := DeclarationModel.grouped_extract batches
  rw [ValidationContext.validate_standard] at hvalid
  obtain rfl := Except.ok.inj hvalid
  obtain ⟨k, hk, haccepts⟩ := ValidationContext.exists_kind_of_mem_accepted hgrouped hd
  exact ⟨k, hk, agrees_of_accepts hgrouped haccepts⟩

private def viewBatches : List (Marker × List RawDeclaration) :=
  [(.enhancedComponent, [⟨⟨.classType, "Main", "a", none, [], [], [], [], []⟩, .empty⟩]),
    (.bindsView, [⟨⟨.field, "title", "a.Main", some "android.view.View", [], [], [], [], []⟩,
      .empty⟩])]

private def viewContext : ValidationContext :=
  ⟨.extract viewBatches, some ⟨⟨.project, .ofList [(⟨.id, "title"⟩, 7)]⟩, none⟩, .new "a"⟩

theorem agrees_of_accepted_title :
    ∃ m, (Validator.validate Registry.standard.validators viewContext).result = .ok m ∧
      (∀ d ∈ m.declarations .bindsView, Agrees viewContext m .boundView d) ∧
      ((m.declarations .bindsView).map fun d =>
        (d.qualifiedName, (BoundView.check ⟨viewContext, d⟩).findings.lookups)) =
        [("a.Main#title", [⟨.id, "title"⟩])] := by
  have hresult : (Validator.validate Registry.standard.validators viewContext).result =
      .ok viewContext.accepted :=
    congrArg Reported.result (ValidationContext.validate_standard _)
  refine ⟨_, hresult, fun d hd => ?_, by decide +kernel⟩
  obtain ⟨k, hk, hagrees⟩ := agrees_of_accepted hresult hd
  obtain rfl : k = .boundView := StandardKind.marker_injective hk
  exact hagrees

end ComponentGlue
