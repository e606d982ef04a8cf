import ComponentGlue.Proofs.Generation.Completion
import ComponentGlue.Proofs.Pipeline.Outcome

set_option autoImplicit false
set_option relaxedAutoImplicit false

namespace ComponentGlue

open Assemble (Reaches)
open StandardKind (step schedule)

/-- The declarations and tables of a host, and what the standard rules make of them. -/
structure StandardRun where
  batches : List (Marker × List RawDeclaration)
  projectTable : SymbolSource
  platformTable : SymbolSource
  project : Project
  accepted : DeclarationModel
  model : GenerationModel
  validated : (Validator.validate Registry.standard.validators
    ⟨.extract batches, (Catalog.resolve projectTable platformTable).toOption, project⟩).result =
      .ok accepted
  processed : Processor.generate Registry.standard.processors accepted
    ⟨(Catalog.resolve projectTable platformTable).toOption, project⟩ = .ok model

theorem eq_ok_of_toOption {ε α : Type} {x : Except ε α} {a : α}
    (h : x.toOption = some a) : x = .ok a := by
  cases x with
  | error e => cases h
  | ok b => rw [Option.some.inj h]

theorem exists_ok_of_map_toOption {ε α β : Type} {x : Except ε α} {f : α → β} {b : β}
    (h : x.toOption.map f = some b) : ∃ a, x = .ok a ∧ f a = b := by
  obtain ⟨a, ha, hfa⟩ := Option.map_eq_some_iff.1 h
  exact ⟨a, eq_ok_of_toOption ha, hfa⟩

namespace StandardRun

/-- Run the standard rules on what a host gives. -/
def ofHost (batches : List (Marker × List RawDeclaration)) (projectTable platformTable : SymbolSource)
    (project : Project) : Except Interruption StandardRun :=
  let c : ValidationContext :=
    ⟨.extract batches, (Catalog.resolve projectTable platformTable).toOption, project⟩
  match h : Processor.generate Registry.standard.processors c.accepted c.setting with
  | .error e => .error e
  | .ok model => .ok ⟨batches, projectTable, platformTable, project, c.accepted, model,
      congrArg Reported.result (ValidationContext.validate_standard c), h⟩

theorem given_of_ofHost {batches : List (Marker × List RawDeclaration)}
    {projectTable platformTable : SymbolSource} {project : Project} {run : StandardRun}
    (h : ofHost batches projectTable platformTable project = .ok run) : run.batches = batches ∧
      run.projectTable = projectTable ∧ run.platformTable = platformTable ∧ run.project = project := by
  unfold ofHost at h
  dsimp only at h
  split at h
  · cases h
  · obtain rfl := Except.ok.inj h
    exact ⟨rfl, rfl, rfl, rfl⟩

variable (run : StandardRun)

def context : ValidationContext :=
  ⟨.extract run.batches, (Catalog.resolve run.projectTable run.platformTable).toOption, run.project⟩

theorem grouped : run.context.extracted.Grouped := DeclarationModel.grouped_extract run.batches

theorem accepted_eq : run.accepted = run.context.accepted := by
  have hvalidated : (Validator.validate Registry.standard.validators run.context).result =
      .ok run.accepted := run.validated
  rw [ValidationContext.validate_standard] at hvalidated
  exact (Except.ok.inj hvalidated).symm

theorem exists_reaches :
    ∃ a, Reaches (step run.context.setting) (schedule run.context.accepted) a ∧ a.model = run.model := by
  have hprocessed : Processor.generate Registry.standard.processors run.context.accepted
      run.context.setting = .ok run.model := run.accepted_eq ▸ run.processed
  rw [generate_standard] at hprocessed
  rcases hends : Assemble.runEach (step run.context.setting) (schedule run.context.accepted) .empty
    with ⟨e | ⟨⟩, a⟩
  · rw [hends] at hprocessed
    cases hprocessed
  · rw [hends] at hprocessed
    exact ⟨a, hends, Except.ok.inj hprocessed⟩

end StandardRun

namespace Phase

variable {σ : Type} {env : Environment (StateM σ)} {setting : RunSetting} {p p' : Progress}
  {s s' : σ}

theorem given_of_readBatches {markers : List Marker} {batches : List (Marker × List RawDeclaration)}
    (h : (readBatches env markers s).1 = .ok batches) {b : Marker × List RawDeclaration}
    (hb : b ∈ batches) : ∃ t, (env.declarations b.1 t).1 = .ok b.2 := by
  induction markers generalizing batches s with
  | nil =>
    obtain rfl := Except.ok.inj h
    cases hb
  | cons marker markers ih =>
    rcases hfirst : (env.declarations marker s).1 with e | raw
    · simp only [readBatches, stateM_bind_apply, hfirst] at h
      cases h
    rcases hrest : (readBatches env markers (env.declarations marker s).2).1 with e | rest
    · simp only [readBatches, stateM_bind_apply, hfirst, hrest] at h
      cases h
    · simp only [readBatches, stateM_bind_apply, hfirst, hrest] at h
      obtain rfl := Except.ok.inj h
      rcases List.mem_cons.1 hb with rfl | hb
      · exact ⟨s, hfirst⟩
      · exact ih hrest hb

theorem exists_batches_of_runExtract (h : runExtract env setting p s = ((.ok (), p'), s')) :
    ∃ batches, (readBatches env setting.round.markers s).1 = .ok batches ∧
      p' = { p with extracted := some (.extract batches) } := by
  rcases hbatches : (readBatches env setting.round.markers s).1 with e | batches
  · simp only [runExtract, stateM_bind_apply, hbatches] at h
    cases congrArg (·.1.1) h
  · simp only [runExtract, stateM_bind_apply, hbatches] at h
    exact ⟨batches, rfl, (congrArg (·.1.2) h).symm⟩

theorem exists_tables_of_runResolve (h : runResolve env p s = ((.ok (), p'), s')) :
    ∃ project platform, (∃ t, (env.symbols .project t).1 = .ok project) ∧
      (∃ t, (env.symbols .platform t).1 = .ok platform) ∧ p' = recordCatalog project platform p := by
  rcases hproject : (env.symbols .project s).1 with panic | project
  · simp only [runResolve, stateM_bind_apply, hproject] at h
    cases congrArg (·.1.1) h
  · rcases hplatform : (env.symbols .platform (env.symbols .project s).2).1 with panic | platform
    · simp only [runResolve, stateM_bind_apply, hproject, hplatform] at h
      cases congrArg (·.1.1) h
    · simp only [runResolve, stateM_bind_apply, hproject, hplatform] at h
      exact ⟨project, platform, ⟨_, hproject⟩, ⟨_, hplatform⟩, (congrArg (·.1.2) h).symm⟩

theorem extracted_recordCatalog (project platform : SymbolSource) (p : Progress) :
    (recordCatalog project platform p).extracted = p.extracted := by
  unfold recordCatalog
  split
  · split <;> rfl
  · rfl

theorem catalog_recordCatalog (project platform : SymbolSource) (hnone : p.catalog = none) :
    (recordCatalog project platform p).catalog = (Catalog.resolve project platform).toOption := by
  unfold recordCatalog
  split
  · next hresolve =>
    rw [hresolve]
    rfl
  · next hresolve =>
    rw [hresolve]
    exact hnone

theorem exists_validated_of_runValidate (h : runValidate setting p = (.ok (), p')) :
    ∃ extracted accepted, p.extracted = some extracted ∧
      (Validator.validate setting.registry.validators
        ⟨extracted, p.catalog, setting.project⟩).result = .ok accepted ∧
      p'.validated = some accepted ∧ p'.extracted = p.extracted ∧ p'.catalog = p.catalog ∧
      p'.diagnostics = p.diagnostics ++ (Validator.validate setting.registry.validators
        ⟨extracted, p.catalog, setting.project⟩).diagnostics := by
  unfold runValidate at h
  split at h
  · cases congrArg Prod.fst h
  · next extracted hextracted =>
    dsimp only at h
    split at h
    · cases congrArg Prod.fst h
    · next accepted haccepted =>
      obtain rfl := congrArg Prod.snd h
      exact ⟨extracted, accepted, hextracted, haccepted, rfl, rfl, rfl, rfl⟩

theorem exists_generated_of_runProcess (h : runProcess setting p = (.ok (), p')) :
    ∃ accepted model, p.validated = some accepted ∧
      Processor.generate setting.registry.processors accepted ⟨p.catalog, setting.project⟩ =
        .ok model ∧ p' = { p with generation := some model } := by
  unfold runProcess at h
  split at h
  · cases congrArg Prod.fst h
  · next accepted haccepted =>
    split at h
    · cases congrArg Prod.fst h
    · next model hmodel =>
      exact ⟨accepted, model, haccepted, hmodel, (congrArg Prod.snd h).symm⟩

end Phase

namespace Pipeline

variable {σ : Type} {env : Environment (StateM σ)} {setting : RunSetting}

theorem mem_visits_cons {phase : Phase} {phases : List Phase} {p : Progress} {s : σ} {v : Visit}
    (hv : v ∈ visits env setting (phase :: phases) p s) :
    v = phase.visit env setting p (env.now s).2 ∨
      ∃ p' t, phase.run env setting p (env.now s).2 = ((.ok (), p'), t) ∧
        v ∈ visits env setting phases p' (env.now t).2 := by
  rcases hrun : phase.run env setting p (env.now s).2 with ⟨⟨e | ⟨⟩, p'⟩, t⟩
  · rw [visits_cons_of_error hrun] at hv
    exact Or.inl (List.mem_singleton.1 hv)
  · rw [visits_cons_of_ok hrun] at hv
    rcases List.mem_cons.1 hv with hv | hv
    · exact Or.inl hv
    · exact Or.inr ⟨p', t, rfl, hv⟩

theorem runProcess_of_mem_visited {round : Round} {pipeline : Pipeline} {s : σ} {v : Visit}
    (hv : v ∈ visited env round pipeline s) (hphase : v.phase = .process) :
    Phase.runProcess ⟨round, pipeline.project, pipeline.registry⟩ v.before =
      (v.ending, v.after) := by
  obtain ⟨phase, p, t, rfl⟩ := exists_visit_of_mem_visited hv
  obtain rfl : phase = .process := hphase
  rfl

/-- Processing finds what validation has accepted of the declarations that the host has given. -/
theorem exists_validated_of_mem_visited {round : Round} {pipeline : Pipeline} {s : σ} {v : Visit}
    (hv : v ∈ visited env round pipeline s) (hphase : v.phase = .process) :
    ∃ batches projectTable platformTable accepted,
      (Phase.readBatches env round.markers (env.now (env.now s).2).2).1 = .ok batches ∧
      (∃ t, (env.symbols .project t).1 = .ok projectTable) ∧
      (∃ t, (env.symbols .platform t).1 = .ok platformTable) ∧
      v.before.extracted = some (.extract batches) ∧
      v.before.catalog = (Catalog.resolve projectTable platformTable).toOption ∧
      v.before.validated = some accepted ∧
      (Validator.validate pipeline.registry.validators
        ⟨.extract batches, v.before.catalog, pipeline.project⟩).result = .ok accepted ∧
      (Validator.validate pipeline.registry.validators
        ⟨.extract batches, v.before.catalog, pipeline.project⟩).diagnostics ⊆
          v.before.diagnostics := by
  by_cases hskip : (round.isIdle || pipeline.hasRun) = true
  · rw [visited, if_pos hskip] at hv
    cases hv
  rw [visited, if_neg hskip] at hv
  -- The visit is that of the fourth phase, so the three before it have ended.
  obtain rfl | ⟨p₁, t₁, hextract, hv⟩ := mem_visits_cons hv
  · cases hphase
  obtain rfl | ⟨p₂, t₂, hresolve, hv⟩ := mem_visits_cons hv
  · cases hphase
  obtain rfl | ⟨p₃, t₃, hvalidate, hv⟩ := mem_visits_cons hv
  · cases hphase
  obtain rfl | ⟨p₄, t₄, -, hv⟩ := mem_visits_cons hv
  swap
  · obtain rfl | ⟨p₅, t₅, -, hv⟩ := mem_visits_cons hv
    · cases hphase
    · cases hv
  obtain ⟨batches, hbatches, rfl⟩ := Phase.exists_batches_of_runExtract hextract
  obtain ⟨project, platform, hproject, hplatform, rfl⟩ :=
    Phase.exists_tables_of_runResolve hresolve
  obtain ⟨extracted, accepted, hextracted, haccepted, hvalidated, hsame, hcatalog, hreported⟩ :=
    Phase.exists_validated_of_runValidate (congrArg Prod.fst hvalidate)
  rw [Phase.extracted_recordCatalog] at hextracted hsame
  obtain rfl := Option.some.inj hextracted
  rw [← hcatalog] at haccepted hreported
  rw [Phase.catalog_recordCatalog project platform rfl] at hcatalog
  refine ⟨batches, project, platform, accepted, hbatches, hproject, hplatform, hsame, hcatalog,
    hvalidated, haccepted, ?_⟩
  have hdiagnostics : p₃.diagnostics = _ := hreported
  exact hdiagnostics ▸ List.subset_append_right _ _

/-- A pipeline with the standard rules whose processing has ended has gone through a standard run, over
what the host has answered. -/
theorem exists_standardRun {round : Round} {pipeline : Pipeline} {s : σ} {v : Visit}
    (hstandard : pipeline.registry = .standard) (hv : v ∈ visited env round pipeline s)
    (hphase : v.phase = .process) (hended : v.ending = .ok ()) : ∃ run : StandardRun,
      run.project = pipeline.project ∧
      (Phase.readBatches env round.markers (env.now (env.now s).2).2).1 = .ok run.batches ∧
      (∃ t, (env.symbols .project t).1 = .ok run.projectTable) ∧
      (∃ t, (env.symbols .platform t).1 = .ok run.platformTable) ∧
      v.after.extracted = some run.context.extracted ∧ v.after.catalog = run.context.catalog ∧
      v.after.validated = some run.accepted ∧ v.after.generation = some run.model ∧
      (Validator.validate Registry.standard.validators run.context).diagnostics ⊆
        v.after.diagnostics := by
  obtain ⟨batches, project, platform, accepted, hbatches, hproject, hplatform, hextracted, hcatalog,
    hvalidated, haccepted, hreported⟩ := exists_validated_of_mem_visited hv hphase
  have hprocess := runProcess_of_mem_visited hv hphase
  rw [hstandard, hcatalog] at haccepted hreported
  rw [hended, hstandard] at hprocess
  obtain ⟨accepted', model, haccepted', hmodel, hafter⟩ :=
    Phase.exists_generated_of_runProcess hprocess
  obtain rfl := Option.some.inj (hvalidated.symm.trans haccepted')
  rw [hcatalog] at hmodel
  refine ⟨⟨batches, project, platform, pipeline.project, accepted, model, haccepted, hmodel⟩, rfl,
    hbatches, hproject, hplatform, ?_⟩
  rw [hafter]
  exact ⟨hextracted, hcatalog, hvalidated, rfl, hreported⟩

theorem exists_visit_of_runPhases {before after : List Phase} {phase : Phase} {p p' : Progress}
    {w w' : Stopwatch} {s s' : σ}
    (h : runPhases env setting (before ++ [phase]) p w s = (⟨none, p', w'⟩, s')) :
    ∃ v ∈ visits env setting (before ++ phase :: after) p s,
      v.phase = phase ∧ v.ending = .ok () ∧ v.after = p' := by
  induction before generalizing p w s with
  | nil =>
    rcases hphase : phase.run env setting p (env.now s).2 with ⟨⟨e | ⟨⟩, q⟩, t⟩
    · rw [List.nil_append, runPhases_cons_of_error hphase] at h
      cases h
    · rw [List.nil_append, runPhases_cons_of_ok hphase] at h
      rw [List.nil_append, visits_cons_of_ok hphase]
      refine ⟨_, List.mem_cons_self, rfl, congrArg (·.1.1) hphase, ?_⟩
      exact (congrArg (·.1.2) hphase).trans (congrArg (·.1.progress) h)
  | cons first before ih =>
    rcases hphase : first.run env setting p (env.now s).2 with ⟨⟨e | ⟨⟩, q⟩, t⟩
    · rw [List.cons_append, runPhases_cons_of_error hphase] at h
      cases h
    · rw [List.cons_append, runPhases_cons_of_ok hphase] at h
      rw [List.cons_append, visits_cons_of_ok hphase]
      obtain ⟨v, hv, hvisit⟩ := ih h
      exact ⟨v, List.mem_cons_of_mem _ hv, hvisit⟩

theorem exists_standardRun_of_preparing {round : Round} {pipeline : Pipeline} {s s' : σ}
    {p : Progress} {w : Stopwatch} (hstandard : pipeline.registry = .standard)
    (hwork : (round.isIdle || pipeline.hasRun) = false)
    (h : begin env round pipeline preparing s = (⟨none, p, w⟩, s')) :
    ∃ run : StandardRun, run.project = pipeline.project ∧
      (Phase.readBatches env round.markers (env.now (env.now s).2).2).1 = .ok run.batches ∧
      p.generation = some run.model := by
  obtain ⟨v, hv, hphase, hended, hafter⟩ :
      ∃ v ∈ visited env round pipeline s, v.phase = .process ∧ v.ending = .ok () ∧ v.after = p := by
    rw [visited, if_neg (Bool.not_eq_true _ ▸ hwork)]
    have hphases : runPhases env ⟨round, pipeline.project, pipeline.registry⟩
        ([.extract, .resolve, .validate] ++ [.process]) .start
        (Stopwatch.new.begin (env.now s).1) (env.now s).2 = (⟨none, p, w⟩, s') := h
    exact exists_visit_of_runPhases hphases
  obtain ⟨run, hproject, hbatches, -, -, -, -, -, hgeneration, -⟩ :=
    exists_standardRun hstandard hv hphase hended
  exact ⟨run, hproject, hbatches, hafter ▸ hgeneration⟩

end Pipeline

end ComponentGlue
