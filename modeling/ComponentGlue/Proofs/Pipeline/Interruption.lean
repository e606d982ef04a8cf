import ComponentGlue.Memory.Fixture
import ComponentGlue.Memory.Script
import ComponentGlue.Proofs.Pipeline.Phases

set_option autoImplicit false
set_option relaxedAutoImplicit false

namespace ComponentGlue

def RunOutcome.reportOf (o : RunOutcome) (phase : Phase) : List Diagnostic :=
  o.diagnostics.filter fun d => d.phase = phase.name

theorem Validator.mem_declarations_of_check_mem {vs : List Validator} {c : ValidationContext}
    {v : Validator} {d : Declaration} (h : Step.check v d ∈ steps vs c) :
    d ∈ c.extracted.declarations v.kind := by
  rcases mem_steps_iff.1 h with ⟨kind, -, -, hstep⟩ | ⟨v', -, d', hd', hstep⟩
  · cases hstep
  · unfold turn at hstep
    split at hstep
    · cases hstep
    · cases hstep
      exact hd'

theorem DeclarationModel.exists_first?_of_mem {m : DeclarationModel} {kind : Marker}
    {d : Declaration} (h : d ∈ m.declarations kind) : ∃ first, m.first? = some first := by
  have hmem : d ∈ m.all := by
    rw [all_eq_flatMap]
    exact List.mem_flatMap.2 ⟨kind, mem_kinds_of_mem h, h⟩
  rw [first?]
  cases hall : m.all with
  | nil => exact absurd (hall ▸ hmem) List.not_mem_nil
  | cons first rest => exact ⟨first, rfl⟩

namespace Pipeline

variable {σ : Type} {env : Environment (StateM σ)} {round : Round} {pipeline : Pipeline} {s : σ}
  {c : ValidationContext}

/-- What a run validates, if it gets as far as that. -/
def context? (env : Environment (StateM σ)) (round : Round) (pipeline : Pipeline) (s : σ) :
    Option ValidationContext :=
  if round.isIdle || pipeline.hasRun then none
  else
    let ended := (begin env round pipeline [.extract, .resolve] s).1
    match ended.interrupted with
    | some _ => none
    | none => ended.progress.extracted.map (⟨·, ended.progress.catalog, pipeline.project⟩)

theorem of_context? (hc : context? env round pipeline s = some c) :
    (round.isIdle || pipeline.hasRun) = false ∧ ∃ p w s',
      begin env round pipeline [.extract, .resolve] s = (⟨none, p, w⟩, s') ∧
      p.extracted = some c.extracted ∧ c = ⟨c.extracted, p.catalog, pipeline.project⟩ := by
  unfold context? at hc
  split at hc
  · cases hc
  · next hwork =>
    refine ⟨Bool.not_eq_true _ ▸ hwork, ?_⟩
    rcases hbegin : begin env round pipeline [.extract, .resolve] s with ⟨⟨interrupted, p, w⟩, s'⟩
    rw [hbegin] at hc
    cases interrupted with
    | some interrupted => cases hc
    | none =>
      obtain ⟨extracted, hextracted, rfl⟩ := Option.map_eq_some_iff.1 hc
      exact ⟨p, w, s', rfl, hextracted, rfl⟩

theorem begin_of_interrupted {p p' : Progress} {w : Stopwatch} {s' : σ} {e : Interruption}
    (hbegin : begin env round pipeline [.extract, .resolve] s = (⟨none, p, w⟩, s'))
    (hvalidate : Phase.runValidate ⟨round, pipeline.project, pipeline.registry⟩ p =
      (.error e, p')) : ∃ w' s'',
    begin env round pipeline Phase.all s = (⟨some (.validate, e), p', w'⟩, s'') := by
  have hfirst : runPhases env ⟨round, pipeline.project, pipeline.registry⟩ [.extract, .resolve]
      .start (Stopwatch.new.begin (env.now s).1) (env.now s).2 = (⟨none, p, w⟩, s') := hbegin
  have hphase : Phase.validate.run env ⟨round, pipeline.project, pipeline.registry⟩ p
      (env.now s').2 = ((.error e, p'), (env.now s').2) := congrArg (·, (env.now s').2) hvalidate
  have hall : runPhases env ⟨round, pipeline.project, pipeline.registry⟩
      ([.extract, .resolve] ++ [.validate, .process, .render]) .start
      (Stopwatch.new.begin (env.now s).1) (env.now s).2 = _ :=
    (runPhases_append_of_ok hfirst).trans (runPhases_cons_of_error hphase)
  exact ⟨_, _, hall⟩

theorem faultAnchor_of_first? {p : Progress} {m : DeclarationModel} {first : Declaration}
    (hextracted : p.extracted = some m) (hfirst : m.first? = some first) :
    (p.faultAnchor env round s).1 = m.first?.map Declaration.ref := by
  rw [hfirst, Progress.faultAnchor, hextracted, Option.bind_some, hfirst]
  rfl

theorem filter_begin_eq_nil {p : Progress} {w : Stopwatch} {s' : σ}
    (hbegin : begin env round pipeline [.extract, .resolve] s = (⟨none, p, w⟩, s')) :
    (p.diagnostics.filter fun d => d.phase = Phase.validate.name) = [] := by
  -- The phases before validation have other names.
  have hadds : Phase.Adds [.extract, .resolve] .start
      (begin env round pipeline [.extract, .resolve] s).1.progress := adds_runPhases ..
  rw [hbegin] at hadds
  obtain ⟨added, heq, hadded⟩ := hadds
  rw [List.filter_eq_nil_iff]
  intro d hd hname
  obtain ⟨phase, hphase, hphasename⟩ := hadded d (by rwa [heq] at hd)
  have hvalidate : phase.name = Phase.validate.name :=
    hphasename.symm.trans (of_decide_eq_true hname)
  rcases List.mem_cons.1 hphase with rfl | hphase
  · exact absurd hvalidate (by decide)
  · obtain rfl := List.mem_singleton.1 hphase
    exact absurd hvalidate (by decide)

theorem run_of_interrupted_validate (hc : context? env round pipeline s = some c)
    {e : Interruption}
    (hresult : (Validator.validate pipeline.registry.validators c).result = .error e)
    {first : Declaration} (hfirst : c.extracted.first? = some first) :
    (pipeline.run env round s).1.1.status = .failed ∧
    (pipeline.run env round s).1.1.reportOf .validate =
      (Validator.validate pipeline.registry.validators c).diagnostics ++
        [faultDiagnostic .validate e (c.extracted.first?.map Declaration.ref)] := by
  obtain ⟨hwork, p, w, s', hbegin, hextracted, hcontext⟩ := of_context? hc
  obtain ⟨p', hvalidate, hextracted', hdiagnostics⟩ : ∃ p', Phase.runValidate
      ⟨round, pipeline.project, pipeline.registry⟩ p = (.error e, p') ∧
      p'.extracted = some c.extracted ∧ p'.diagnostics = p.diagnostics ++
        (Validator.validate pipeline.registry.validators c).diagnostics := by
    unfold Phase.runValidate
    simp only [hextracted, ← hcontext, hresult]
    exact ⟨_, rfl, rfl, rfl⟩
  obtain ⟨w', s'', hall⟩ := begin_of_interrupted hbegin hvalidate
  rw [run_of_interrupted hwork hall]
  refine ⟨rfl, ?_⟩
  have hown : ((Validator.validate pipeline.registry.validators c).diagnostics.filter
      fun d => d.phase = Phase.validate.name) =
        (Validator.validate pipeline.registry.validators c).diagnostics :=
    List.filter_eq_self.2 fun d hd => decide_eq_true (Validator.phase_of_mem_validate hd)
  rw [RunOutcome.reportOf, hdiagnostics, List.filter_append, List.filter_append,
    filter_begin_eq_nil hbegin, hown, faultAnchor_of_first? hextracted' hfirst, List.nil_append]
  rfl

/-- In a run that ends in a check, the diagnostics of validation are those of the steps before, what
the interruption leaves of the check's own, and the fault. None of the check's own are lost if and
only if the check hands on a fault or has not recorded anything. -/
theorem reportOf_validate_of_interrupted (hc : context? env round pipeline s = some c)
    {before after : List Validator.Step} {v : Validator} {d : Declaration} {e : Interruption}
    (hsteps : Validator.steps pipeline.registry.validators c = before ++ .check v d :: after)
    (hbefore : ∀ step ∈ before, step.interruption? c = none)
    (hcheck : (v.check ⟨c, d⟩).interruption = some e) :
    (pipeline.run env round s).1.1.status = .failed ∧
    (pipeline.run env round s).1.1.reportOf .validate =
      before.flatMap (Validator.Step.report c) ++ e.kept ((v.check ⟨c, d⟩).findings.diagnostics d) ++
        [faultDiagnostic .validate (e.during (.validating d))
          (c.extracted.first?.map Declaration.ref)] ∧
    ((pipeline.run env round s).1.1.reportOf .validate =
      before.flatMap (Validator.Step.report c) ++ (v.check ⟨c, d⟩).findings.diagnostics d ++
        [faultDiagnostic .validate (e.during (.validating d))
          (c.extracted.first?.map Declaration.ref)] ↔
      (∃ f, e = .fault f) ∨ (v.check ⟨c, d⟩).findings.diagnostics d = []) := by
  have hstep : (Validator.Step.check v d).interruption? c = some (e.during (.validating d)) :=
    congrArg (Option.map _) hcheck
  have hvalidate := Validator.validate_of_interrupted hsteps hbefore hstep
  have hmem : Validator.Step.check v d ∈ Validator.steps pipeline.registry.validators c := by
    rw [hsteps]
    exact List.mem_append_right _ List.mem_cons_self
  obtain ⟨first, hfirst⟩ :=
    DeclarationModel.exists_first?_of_mem (Validator.mem_declarations_of_check_mem hmem)
  obtain ⟨hstatus, hreport⟩ :=
    run_of_interrupted_validate hc (congrArg Reported.result hvalidate) hfirst
  rw [hvalidate, Interruption.kept_during] at hreport
  refine ⟨hstatus, hreport, ?_⟩
  rw [hreport, List.append_left_inj, List.append_right_inj]
  exact Interruption.kept_eq_self_iff

private def boxScript (panics : Bool) : Script :=
  ⟨⟨"box"⟩, false, some "Old", none, [], [], some "OldMain", panics⟩

private def boxType (name : String) : Element :=
  ⟨.classType, name, "a", none, [], [], [], [], []⟩

private def boxDeclaration (name : String) : Declaration := ⟨⟨"box"⟩, boxType name, .empty⟩

private def boxWorld : MemoryWorld :=
  ⟨MemoryHost.empty.declareAll [boxDeclaration "OldHome", boxDeclaration "OldMain"], .discarding⟩

private def boxPipeline (panics : Bool) : Pipeline :=
  .new ⟨[(boxScript panics).validator], []⟩ (.new "a")

private def boxContext : ValidationContext :=
  ⟨boxWorld.host.extracted, (Catalog.resolve (.ok []) (.ok [])).toOption, .new "a"⟩

private def boxRun (panics : Bool) : RunOutcome :=
  ((boxPipeline panics).run MemoryWorld.environment boxWorld.host.round boxWorld).1.1

private theorem context?_box (panics : Bool) :
    context? MemoryWorld.environment boxWorld.host.round (boxPipeline panics) boxWorld =
      some boxContext := rfl

private theorem steps_box (panics : Bool) :
    Validator.steps (boxPipeline panics).registry.validators boxContext =
      [.check (boxScript panics).validator (boxDeclaration "OldHome")] ++
        .check (boxScript panics).validator (boxDeclaration "OldMain") :: [] := rfl

private def boxWarning (name : String) : Diagnostic :=
  (Diagnostic.warning validationPhase s!"warned {name}").about (boxDeclaration name)

private def boxFault (cause : Fault) : Diagnostic :=
  { Diagnostic.error validationPhase
      ("Unexpected error in validate phase: " ++ cause.text) with
    location := some (boxDeclaration "OldHome").ref }

theorem reportOf_validate_of_interrupted_box :
    context? MemoryWorld.environment boxWorld.host.round (boxPipeline false) boxWorld =
      some boxContext ∧
    (boxRun false).status = .failed ∧
    (boxRun false).reportOf .validate = [boxWarning "OldHome", boxWarning "OldMain",
      boxFault (.during (.validating (boxDeclaration "OldMain"))
        (.stated "scripted fault on OldMain"))] := by
  have hbefore : ∀ step ∈ [Validator.Step.check (boxScript false).validator
      (boxDeclaration "OldHome")], step.interruption? boxContext = none := by
    intro step hstep
    rw [List.mem_singleton.1 hstep]
    rfl
  obtain ⟨hstatus, -, hall⟩ :=
    reportOf_validate_of_interrupted (context?_box false) (steps_box false) hbefore rfl
  exact ⟨context?_box false, hstatus, (hall.2 (Or.inl ⟨_, rfl⟩)).trans (by decide +kernel)⟩

/-- The check that panics has recorded a warning, and it is not reported. -/
theorem loses_panicked_box :
    ((boxScript true).validator.check ⟨boxContext, boxDeclaration "OldMain"⟩).findings.diagnostics
      (boxDeclaration "OldMain") = [boxWarning "OldMain"] ∧
    (boxRun true).status = .failed ∧
    (boxRun true).reportOf .validate =
      [boxWarning "OldHome", boxFault (.panicked "scripted panic on OldMain")] := by
  decide +kernel

end Pipeline

end ComponentGlue
