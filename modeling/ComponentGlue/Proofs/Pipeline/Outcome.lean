import ComponentGlue.Proofs.Pipeline.Interruption
import ComponentGlue.Proofs.Pipeline.Visits

set_option autoImplicit false
set_option relaxedAutoImplicit false

namespace ComponentGlue

variable {σ : Type} {env : Environment (StateM σ)} {setting : RunSetting}

theorem Phase.nodup_all : Phase.all.Nodup := by decide

theorem Phase.nodup_names : (Phase.all.map Phase.name).Nodup := by decide

theorem Phase.render_notMem_of_all_eq {before after : List Phase} {phase : Phase}
    (h : Phase.all = before ++ phase :: after) : Phase.render ∉ before := by
  have hlast : Phase.render ∈ phase :: after := by
    have hgetLast : (phase :: after).getLast? = some .render := by
      rw [← List.getLast?_append_cons before phase after, ← h]
      rfl
    exact List.mem_of_getLast? hgetLast
  intro hmem
  have hdistinct := Phase.nodup_all
  rw [h] at hdistinct
  exact (List.nodup_append.1 hdistinct).2.2 _ hmem _ hlast rfl

theorem Progress.asks_faultAnchor (env : Environment (StateM σ)) (round : Round) (p : Progress) :
    Asks (p.faultAnchor env round) (p.faultAnchor env.recording round) := by
  unfold faultAnchor
  cases p.extracted.bind DeclarationModel.first? with
  | some d => exact asks_pure _
  | none =>
    cases round.markers with
    | nil => exact asks_pure _
    | cons marker markers =>
      refine (asks_declarations env marker).bind fun raw => ?_
      cases raw with
      | error e => exact asks_pure _
      | ok raw => exact asks_pure _

namespace Pipeline

variable {round : Round} {pipeline : Pipeline} {s : σ}

theorem reportAll_recording (env : Environment (StateM σ)) (ds : List Diagnostic) (s : σ)
    (calls : List Call) : reportAll env.recording ds (s, calls) =
      ((), (reportAll env ds s).2, calls ++ ds.map Call.report) := by
  induction ds generalizing s calls with
  | nil => exact congrArg (fun cs => ((), s, cs)) (List.append_nil calls).symm
  | cons d ds ih =>
    refine (ih (env.report d s).2 (calls ++ [.report d])).trans ?_
    rw [List.append_assoc]
    rfl

/-- How a run is closed: its status, the state of the pipeline and the last diagnostic. -/
def settle (env : Environment (StateM σ)) (round : Round) (ended : PhasesEnd) :
    StateM σ (RunStatus × PipelineState × Diagnostic) :=
  match ended.interrupted with
  | some (phase, e) => do
    return (.failed, .failed, faultDiagnostic phase e (← ended.progress.faultAnchor env round))
  | none => pure (.completed, .done, completionNote ended.progress.artifacts)

theorem asks_settle (env : Environment (StateM σ)) (round : Round) (ended : PhasesEnd) :
    Asks (settle env round ended) (settle env.recording round ended) := by
  unfold settle
  cases ended.interrupted with
  | none => exact asks_pure _
  | some interrupted =>
    exact (ended.progress.asks_faultAnchor env round).bind fun anchor => asks_pure _

/-- The end of a working run, once its phases are over and its last diagnostic is known. -/
def conclude (env : Environment (StateM σ)) (pipeline : Pipeline) (ended : PhasesEnd)
    (settled : RunStatus × PipelineState × Diagnostic) : StateM σ (RunOutcome × Pipeline) := do
  let (_, stopwatch) := ended.stopwatch.finish (← env.now)
  reportAll env (ended.progress.diagnostics ++ [settled.2.2])
  return (⟨settled.1, ended.progress.diagnostics ++ [settled.2.2], ended.progress.artifacts⟩,
    { pipeline with state := settled.2.1, hasRun := true, stopwatch })

theorem run_of_working (hwork : (round.isIdle || pipeline.hasRun) = false) :
    pipeline.run env round = begin env round pipeline Phase.all >>= fun ended =>
      settle env round ended >>= conclude env pipeline ended := by
  funext s
  rw [run, if_neg (Bool.not_eq_true _ ▸ hwork)]
  rcases hended : begin env round pipeline Phase.all s with ⟨⟨interrupted, p, w⟩, t⟩
  have hphases : runPhases env ⟨round, pipeline.project, pipeline.registry⟩ Phase.all .start
      (Stopwatch.new.begin (env.now s).1) (env.now s).2 = (⟨interrupted, p, w⟩, t) := hended
  simp only [stateM_bind_apply, hphases, hended]
  cases interrupted <;> rfl

theorem run_of_skipped (hskip : (round.isIdle || pipeline.hasRun) = true) :
    pipeline.run env round = pure (.skipped, { pipeline with state := .done }) := by
  rw [run, if_pos hskip]

/-- The visits of a round that is offered to a pipeline. -/
def visited (env : Environment (StateM σ)) (round : Round) (pipeline : Pipeline) (s : σ) :
    List Visit :=
  if round.isIdle || pipeline.hasRun then []
  else visits env ⟨round, pipeline.project, pipeline.registry⟩ Phase.all .start (env.now s).2

theorem begin_recording (env : Environment (StateM σ)) (round : Round) (pipeline : Pipeline)
    (s : σ) (calls : List Call) : begin env.recording round pipeline Phase.all (s, calls) =
      ((begin env round pipeline Phase.all s).1, (begin env round pipeline Phase.all s).2,
        calls ++ (.now :: (visits env ⟨round, pipeline.project, pipeline.registry⟩ Phase.all .start
          (env.now s).2).flatMap Visit.timedCalls)) := by
  refine (runPhases_recording env _ Phase.all .start (Stopwatch.new.begin (env.now s).1)
    (env.now s).2 (calls ++ [.now])).trans ?_
  rw [List.append_assoc]
  rfl

theorem conclude_recording (env : Environment (StateM σ)) (pipeline : Pipeline) (ended : PhasesEnd)
    (settled : RunStatus × PipelineState × Diagnostic) (s : σ) (calls : List Call) :
    conclude env.recording pipeline ended settled (s, calls) =
      ((conclude env pipeline ended settled s).1, (conclude env pipeline ended settled s).2,
        calls ++ (.now :: (ended.progress.diagnostics ++ [settled.2.2]).map Call.report)) := by
  have hreports := reportAll_recording env (ended.progress.diagnostics ++ [settled.2.2])
    (env.now s).2 (calls ++ [.now])
  have hconclude : conclude env.recording pipeline ended settled (s, calls) =
      ((conclude env pipeline ended settled s).1, (reportAll env.recording
        (ended.progress.diagnostics ++ [settled.2.2]) ((env.now s).2, calls ++ [.now])).2) := rfl
  rw [hconclude, hreports, List.append_assoc]
  rfl

/-- A working run reads the clock, makes the calls of its visits, asks for the fault's anchor at most,
reads the clock again and reports its diagnostics. Recording the calls changes nothing. -/
theorem run_recording (env : Environment (StateM σ))
    (hwork : (round.isIdle || pipeline.hasRun) = false) (s : σ) (calls : List Call) :
    ∃ questions : List Call, (∀ call ∈ questions, call.isQuestion = true) ∧
      pipeline.run env.recording round (s, calls) =
        ((pipeline.run env round s).1, (pipeline.run env round s).2,
          calls ++ (.now :: (visited env round pipeline s).flatMap Visit.timedCalls ++ questions ++
            .now :: (pipeline.run env round s).1.1.diagnostics.map Call.report)) := by
  rcases hbegin : begin env round pipeline Phase.all s with ⟨ended, t⟩
  refine ⟨callsOf (settle env.recording round ended) t,
    (asks_settle env round ended).questions t, ?_⟩
  have hvisited : visited env round pipeline s = visits env
      ⟨round, pipeline.project, pipeline.registry⟩ Phase.all .start (env.now s).2 := by
    rw [visited, if_neg (Bool.not_eq_true _ ▸ hwork)]
  have hsettle := (asks_settle env round ended).records t
  rw [run_of_working hwork, run_of_working hwork, hvisited]
  simp only [stateM_bind_apply, begin_recording, hbegin, hsettle, conclude_recording]
  have hdiagnostics : (conclude env pipeline ended (settle env round ended t).1
      (settle env round ended t).2).1.1.diagnostics =
        ended.progress.diagnostics ++ [(settle env round ended t).1.2.2] := rfl
  rw [hdiagnostics]
  simp only [List.append_assoc, List.cons_append]

/-- A run as it is seen from outside. -/
structure Observed where
  outcome : RunOutcome
  pipeline : Pipeline
  visits : List Visit
  calls : List Call

/-- Offer a round to the pipeline and look at what happens. -/
def observe (env : Environment (StateM σ)) (round : Round) (pipeline : Pipeline) (s : σ) : Observed :=
  ⟨(pipeline.run env round s).1.1, (pipeline.run env round s).1.2, visited env round pipeline s,
    callsOf (pipeline.run env.recording round) s⟩

namespace Observed

def renderings (o : Observed) : List (GenerationModel × Except Interruption Nat) :=
  o.calls.filterMap Call.rendering?

/-- Every phase has ended. -/
structure Completed (o : Observed) : Prop where
  status : o.outcome.status = .completed
  state : o.pipeline.state = .done
  visited : o.visits.map Visit.phase = Phase.all
  ended : ∀ v ∈ o.visits, v.ending = .ok ()
  rendered : ∃ v ∈ o.visits, ∃ model, v.phase = .process ∧ v.after.generation = some model ∧
    o.renderings = [(model, .ok o.outcome.artifacts)]
  noted : ∃ recorded, o.outcome.diagnostics = recorded ++ [completionNote o.outcome.artifacts] ∧
    ∀ n, completionNote n ∉ recorded

/-- The last visit was interrupted. -/
structure FailedIn (o : Observed) (setting : RunSetting) (last : Visit) (e : Interruption) :
    Prop where
  status : o.outcome.status = .failed
  state : o.pipeline.state = .failed
  interrupted : last.ending = .error e
  visited : ∃ ended after, o.visits = ended ++ [last] ∧ (∀ v ∈ ended, v.ending = .ok ()) ∧
    Phase.all = ended.map Visit.phase ++ last.phase :: after
  rendered : o.renderings.length ≤ 1 ∧ (last.phase ≠ .render → o.renderings = [])
  artifacts : o.outcome.artifacts = 0
  reported : ∃ recorded anchor,
    o.outcome.diagnostics = recorded ++ [faultDiagnostic last.phase e anchor] ∧
    (∀ d ∈ recorded, d.isError = true →
      ∃ v ∈ o.visits, v.phase = .validate ∧ v.before.Reports setting d) ∧
    ∀ v ∈ o.visits, v.phase = .extract → v.ending = .ok () → ∀ m first,
      v.after.extracted = some m → m.first? = some first → anchor = some first.ref

/-- The laps, the calls and what the host is told agree with the visits and the outcome. -/
structure Accounted (o : Observed) : Prop where
  laps : o.pipeline.stopwatch.lapNames = o.visits.map fun v => v.phase.name
  calls : ∃ questions : List Call, (∀ call ∈ questions, call.isQuestion = true) ∧
    o.calls = .now :: o.visits.flatMap Visit.timedCalls ++ questions ++
      .now :: o.outcome.diagnostics.map Call.report
  reports : o.calls.filterMap Call.report? = o.outcome.diagnostics

end Observed

theorem lapNames_finish (w : Stopwatch) (now : Nat) : (w.finish now).2.lapNames = w.lapNames := by
  unfold Stopwatch.finish
  split <;> rfl

section Working

variable {ended : PhasesEnd} {t : σ}

theorem visited_of_working (hwork : (round.isIdle || pipeline.hasRun) = false) :
    visited env round pipeline s =
      visits env ⟨round, pipeline.project, pipeline.registry⟩ Phase.all .start (env.now s).2 :=
  if_neg (Bool.not_eq_true _ ▸ hwork)

theorem run_eq (hwork : (round.isIdle || pipeline.hasRun) = false)
    (hbegin : begin env round pipeline Phase.all s = (ended, t)) :
    (pipeline.run env round s).1 = (⟨(settle env round ended t).1.1,
      ended.progress.diagnostics ++ [(settle env round ended t).1.2.2], ended.progress.artifacts⟩,
      { pipeline with
        state := (settle env round ended t).1.2.1
        hasRun := true
        stopwatch := (ended.stopwatch.finish (env.now (settle env round ended t).2).1).2 }) := by
  rw [run_of_working hwork]
  simp only [stateM_bind_apply, hbegin]
  rfl

theorem exists_visit_of_mem_visited {v : Visit} (hv : v ∈ visited env round pipeline s) :
    ∃ phase p t, v =
      Phase.visit env ⟨round, pipeline.project, pipeline.registry⟩ phase p t := by
  unfold visited at hv
  split at hv
  · cases hv
  · exact exists_visit_of_mem hv

theorem lapNames_run (hwork : (round.isIdle || pipeline.hasRun) = false) :
    (pipeline.run env round s).1.2.stopwatch.lapNames =
      (visited env round pipeline s).map fun v => v.phase.name := by
  rcases hbegin : begin env round pipeline Phase.all s with ⟨ended, t⟩
  have hlaps : (begin env round pipeline Phase.all s).1.stopwatch.lapNames = _ :=
    lapNames_runPhases env _ Phase.all .start (w := Stopwatch.new.begin (env.now s).1) (env.now s).2
      Phase.nodup_names
  rw [hbegin] at hlaps
  rw [run_eq hwork hbegin, visited_of_working hwork]
  exact (lapNames_finish _ _).trans hlaps

/-- What is told to the host, what is timed and what is called agree with the visits. -/
theorem accounted_observe (hwork : (round.isIdle || pipeline.hasRun) = false) :
    (observe env round pipeline s).Accounted := by
  obtain ⟨questions, hquestions, hrun⟩ := run_recording env hwork s []
  have hcalls : (observe env round pipeline s).calls = _ := congrArg (·.2.2) hrun
  rw [List.nil_append] at hcalls
  refine ⟨lapNames_run hwork, ⟨questions, hquestions, hcalls⟩, ?_⟩
  have hvisits : ((visited env round pipeline s).flatMap Visit.timedCalls).filterMap
      Call.report? = [] := by
    rw [List.filterMap_eq_nil_iff]
    intro call hcall
    obtain ⟨v, hv, hcall⟩ := List.mem_flatMap.1 hcall
    obtain ⟨phase, p, t, rfl⟩ := exists_visit_of_mem_visited hv
    simp only [Visit.timedCalls, List.cons_append, List.mem_cons, List.mem_append,
      List.not_mem_nil, or_false] at hcall
    rcases hcall with rfl | hcall | rfl
    · rfl
    · exact Phase.report?_of_mem_calls hcall
    · rfl
  have hasked : questions.filterMap Call.report? = [] :=
    List.filterMap_eq_nil_iff.2 fun call hcall =>
      Call.report?_of_isQuestion (hquestions call hcall)
  have hreported : ((observe env round pipeline s).outcome.diagnostics.map Call.report).filterMap
      Call.report? = (observe env round pipeline s).outcome.diagnostics := by
    rw [List.filterMap_map]
    exact List.filterMap_some
  rw [hcalls]
  simp only [List.filterMap_append, List.filterMap_cons, hvisits, hasked]
  exact hreported

theorem Observed.Accounted.renderings_eq {o : Observed} (h : o.Accounted) :
    o.renderings = o.visits.flatMap Visit.renderings := by
  obtain ⟨questions, hquestions, hcalls⟩ := h.calls
  have hasked : questions.filterMap Call.rendering? = [] :=
    List.filterMap_eq_nil_iff.2 fun call hcall =>
      Call.rendering?_of_isQuestion (hquestions call hcall)
  have hreports : (o.outcome.diagnostics.map Call.report).filterMap Call.rendering? = [] := by
    rw [List.filterMap_map]
    exact List.filterMap_eq_nil_iff.2 fun d _ => rfl
  have htimed : ∀ v : Visit, v.timedCalls.filterMap Call.rendering? = v.renderings := by
    intro v
    rw [Visit.timedCalls, List.filterMap_append, List.filterMap_cons]
    exact List.append_nil _
  have hvisits : (o.visits.flatMap Visit.timedCalls).filterMap Call.rendering? =
      o.visits.flatMap Visit.renderings := by
    rw [List.filterMap_flatMap]
    exact List.flatMap_congr fun v _ => htimed v
  rw [Observed.renderings, hcalls]
  simp only [List.filterMap_append, List.filterMap_cons, hasked, hreports, hvisits]
  exact (List.append_nil _).trans (List.append_nil _)

theorem renderings_observe (hwork : (round.isIdle || pipeline.hasRun) = false)
    {before : List Visit} {last : Visit} {after : List Phase}
    (hvisits : visited env round pipeline s = before ++ [last])
    (hall : Phase.all = before.map Visit.phase ++ last.phase :: after) :
    (observe env round pipeline s).renderings = last.renderings := by
  have hbefore : before.flatMap Visit.renderings = [] := by
    rw [List.flatMap_eq_nil_iff]
    intro v hv
    obtain ⟨phase, p, t, rfl⟩ :=
      exists_visit_of_mem_visited (hvisits ▸ List.mem_append_left [last] hv)
    refine Phase.renderings_of_ne_render (fun hphase => ?_) p t
    exact Phase.render_notMem_of_all_eq hall (List.mem_map.2 ⟨_, hv, hphase⟩)
  have heq : (observe env round pipeline s).renderings =
      (visited env round pipeline s).flatMap Visit.renderings :=
    (accounted_observe hwork).renderings_eq
  rw [heq, hvisits, List.flatMap_append, hbefore, List.flatMap_singleton]
  rfl

theorem traced_begin (hwork : (round.isIdle || pipeline.hasRun) = false)
    (hbegin : begin env round pipeline Phase.all s = (ended, t)) :
    ended.progress.Traced ⟨round, pipeline.project, pipeline.registry⟩
      (visited env round pipeline s) := by
  have htraced : (begin env round pipeline Phase.all s).1.progress.Traced
      ⟨round, pipeline.project, pipeline.registry⟩ ([] ++ visits env
        ⟨round, pipeline.project, pipeline.registry⟩ Phase.all .start (env.now s).2) :=
    traced_runPhases env Phase.all
      (Progress.traced_start ⟨round, pipeline.project, pipeline.registry⟩)
      (Stopwatch.new.begin (env.now s).1) (env.now s).2
  rw [hbegin, List.nil_append, ← visited_of_working hwork] at htraced
  exact htraced

theorem diagnostics_subset_outcome {v : Visit} (hv : v ∈ visited env round pipeline s) :
    v.after.diagnostics ⊆ (pipeline.run env round s).1.1.diagnostics := by
  by_cases hskip : (round.isIdle || pipeline.hasRun) = true
  · rw [visited, if_pos hskip] at hv
    cases hv
  · have hwork : (round.isIdle || pipeline.hasRun) = false := Bool.eq_false_iff.2 hskip
    rcases hbegin : begin env round pipeline Phase.all s with ⟨ended, t⟩
    rw [run_eq hwork hbegin]
    exact List.Subset.trans ((traced_begin hwork hbegin).kept v hv) (List.subset_append_left _ _)

theorem progress_begin (hwork : (round.isIdle || pipeline.hasRun) = false)
    (hbegin : begin env round pipeline Phase.all s = (ended, t)) {before : List Visit}
    {last : Visit} (hvisits : visited env round pipeline s = before ++ [last]) :
    ended.progress = last.after := by
  have hprogress : (begin env round pipeline Phase.all s).1.progress = _ :=
    progress_runPhases env _ Phase.all .start (Stopwatch.new.begin (env.now s).1) (env.now s).2
  rw [hbegin, ← visited_of_working hwork, hvisits, List.getLast?_concat] at hprogress
  exact hprogress

theorem completionNote_notMem {visits : List Visit} {p : Progress} (h : p.Traced setting visits)
    (n : Nat) : completionNote n ∉ p.diagnostics := by
  have hresolve : Phase.render.name ≠ Phase.resolve.name := by decide
  have hvalidate : Phase.render.name ≠ validationPhase := by decide
  intro hmem
  rcases h.diagnostics _ hmem with ⟨hphase, -⟩ | ⟨v, -, -, m, -, hd⟩
  · exact hresolve hphase
  · exact hvalidate (Validator.phase_of_mem_validate hd)

theorem exists_last_of_map_eq {vs : List Visit} (h : vs.map Visit.phase = Phase.all) :
    ∃ before last, vs = before ++ [last] ∧ last.phase = .render ∧
      Phase.all = before.map Visit.phase ++ last.phase :: [] := by
  have hsplit : vs.map Visit.phase = [.extract, .resolve, .validate, .process] ++ [.render] := h
  obtain ⟨before, rest, rfl, hbefore, hrest⟩ := List.map_eq_append_iff.1 hsplit
  obtain ⟨last, rfl, hlast⟩ := List.map_eq_singleton_iff.1 hrest
  exact ⟨before, last, rfl, hlast, by rw [hbefore, hlast]; rfl⟩

theorem completed_of_ended (hwork : (round.isIdle || pipeline.hasRun) = false)
    (hbegin : begin env round pipeline Phase.all s = (ended, t)) (hnone : ended.interrupted = none)
    (hall : (visited env round pipeline s).map Visit.phase = Phase.all)
    (hended : ∀ v ∈ visited env round pipeline s, v.ending = .ok ()) :
    (observe env round pipeline s).Completed := by
  obtain ⟨before, last, hvisits, hlast, hsplit⟩ := exists_last_of_map_eq hall
  have hmem : last ∈ visited env round pipeline s :=
    hvisits ▸ List.mem_append_right before List.mem_cons_self
  have htraced := traced_begin hwork hbegin
  have hsettle : settle env round ended t =
      ((.completed, .done, completionNote ended.progress.artifacts), t) := by
    rw [settle, hnone]
    rfl
  have hrun := run_eq hwork hbegin
  rw [hsettle] at hrun
  have hartifacts : (observe env round pipeline s).outcome.artifacts = last.after.artifacts := by
    have hprogress : ended.progress = last.after := progress_begin hwork hbegin hvisits
    rw [← hprogress]
    exact congrArg (·.1.artifacts) hrun
  -- Rendering has ended, so it found a model, and the model is what processing has left.
  obtain ⟨model, hmodel, hrenderings⟩ : ∃ model, last.before.generation = some model ∧
      last.renderings = [(model, .ok last.after.artifacts)] := by
    obtain ⟨phase, p, u, rfl⟩ := exists_visit_of_mem_visited hmem
    obtain rfl : phase = .render := hlast
    exact Phase.renderings_of_ended (hended _ hmem)
  obtain ⟨v, hv, hphase, hgeneration⟩ := htraced.found last hmem model hmodel
  refine ⟨congrArg (·.1.status) hrun, congrArg (·.2.state) hrun, hall, hended,
    ⟨v, hv, model, hphase, hgeneration, ?_⟩, ended.progress.diagnostics, ?_,
    completionNote_notMem htraced⟩
  · rw [renderings_observe hwork hvisits hsplit, hrenderings, hartifacts]
  · have hdiagnostics : (observe env round pipeline s).outcome.diagnostics = _ :=
      congrArg (·.1.diagnostics) hrun
    have hcount : (observe env round pipeline s).outcome.artifacts = _ :=
      congrArg (·.1.artifacts) hrun
    rw [hdiagnostics, hcount]

theorem anchor_eq_of_traced {vs : List Visit} {p : Progress} (htraced : p.Traced setting vs)
    (hdistinct : (vs.map Visit.phase).Nodup) {v : Visit} (hv : v ∈ vs) (hphase : v.phase = .extract)
    (hending : v.ending = .ok ()) {m : DeclarationModel} {first : Declaration}
    (hextracted : v.after.extracted = some m) (hfirst : m.first? = some first) (s : σ) :
    (p.faultAnchor env round s).1 = some first.ref := by
  rcases htraced.extracted with ⟨-, hnone⟩ | ⟨u, hu, huphase, -, hpart⟩
  · exact absurd hending (hnone v hv hphase)
  · obtain rfl : u = v := List.inj_on_of_nodup_map hdistinct hu hv (huphase.trans hphase.symm)
    have hp : p.extracted = some m := hpart.symm.trans hextracted
    rw [faultAnchor_of_first? hp hfirst, hfirst]
    rfl

theorem length_renderings_le {v : Visit} (hv : v ∈ visited env round pipeline s) :
    v.renderings.length ≤ 1 := by
  obtain ⟨phase, p, t, rfl⟩ := exists_visit_of_mem_visited hv
  by_cases h : phase = .render
  · subst h
    rw [Phase.renderings_render, List.length_map]
    cases p.generation <;> simp
  · rw [Phase.renderings_of_ne_render h]
    exact Nat.zero_le 1

theorem failedIn_of_interrupted (hwork : (round.isIdle || pipeline.hasRun) = false)
    (hbegin : begin env round pipeline Phase.all s = (ended, t)) {before : List Visit}
    {last : Visit} {e : Interruption} {after : List Phase}
    (hsome : ended.interrupted = some (last.phase, e))
    (hvisits : visited env round pipeline s = before ++ [last])
    (hall : Phase.all = before.map Visit.phase ++ last.phase :: after)
    (hended : ∀ v ∈ before, v.ending = .ok ()) (hlast : last.ending = .error e) :
    (observe env round pipeline s).FailedIn ⟨round, pipeline.project, pipeline.registry⟩ last e := by
  have hmem : last ∈ visited env round pipeline s :=
    hvisits ▸ List.mem_append_right before List.mem_cons_self
  have htraced := traced_begin hwork hbegin
  have hsettle : (settle env round ended t).1 = (.failed, .failed,
      faultDiagnostic last.phase e (ended.progress.faultAnchor env round t).1) := by
    rw [settle, hsome]
    rfl
  have hrun := run_eq hwork hbegin
  rw [hsettle] at hrun
  have hrenderings := renderings_observe hwork hvisits hall
  -- The anchor is read off the visit of extraction, and there is one such visit only.
  have hdistinct : ((visited env round pipeline s).map Visit.phase).Nodup := by
    have hprefix : (visited env round pipeline s).map Visit.phase <+: Phase.all := by
      rw [hvisits, List.map_append, hall, List.append_cons]
      exact List.prefix_append _ _
    exact Phase.nodup_all.sublist hprefix.sublist
  refine ⟨congrArg (·.1.status) hrun, congrArg (·.2.state) hrun, hlast,
    ⟨before, after, hvisits, hended, hall⟩, ⟨?_, fun hphase => ?_⟩, ?_,
    ended.progress.diagnostics, (ended.progress.faultAnchor env round t).1,
    congrArg (·.1.diagnostics) hrun, fun d hd herror => ?_, ?_⟩
  · rw [hrenderings]
    exact length_renderings_le hmem
  · rw [hrenderings]
    obtain ⟨phase, p, u, rfl⟩ := exists_visit_of_mem_visited hmem
    exact Phase.renderings_of_ne_render hphase p u
  · have hcount : (observe env round pipeline s).outcome.artifacts = ended.progress.artifacts :=
      congrArg (·.1.artifacts) hrun
    rw [hcount]
    rcases htraced.artifacts with ⟨hstart, -⟩ | ⟨v, hv, hphase, hending, -⟩
    · exact hstart
    · -- An ended visit of rendering would stand before the last one.
      rw [hvisits] at hv
      rcases List.mem_append.1 hv with hv | hv
      · exact absurd (List.mem_map.2 ⟨v, hv, hphase⟩) (Phase.render_notMem_of_all_eq hall)
      · rw [List.mem_singleton.1 hv, hlast] at hending
        cases hending
  · rcases htraced.diagnostics d hd with ⟨-, hsilent⟩ | hreports
    · cases herror.symm.trans hsilent
    · exact hreports
  · intro v hv hphase hending m first hextracted hfirst
    exact anchor_eq_of_traced htraced hdistinct hv hphase hending hextracted hfirst t

theorem ends_of_working (hwork : (round.isIdle || pipeline.hasRun) = false) :
    (observe env round pipeline s).Completed ∨ ∃ last e, (observe env round pipeline s).FailedIn
      ⟨round, pipeline.project, pipeline.registry⟩ last e := by
  rcases hbegin : begin env round pipeline Phase.all s with ⟨ended, t⟩
  have hcases := visits_cases env ⟨round, pipeline.project, pipeline.registry⟩ Phase.all .start
    (Stopwatch.new.begin (env.now s).1) (env.now s).2
  have hphases : runPhases env ⟨round, pipeline.project, pipeline.registry⟩ Phase.all .start
      (Stopwatch.new.begin (env.now s).1) (env.now s).2 = (ended, t) := hbegin
  rw [hphases, ← visited_of_working hwork] at hcases
  rcases hcases with ⟨hnone, hall, hended⟩ | ⟨before, last, e, after, hsome, hvisits, hall, hended,
    hlast⟩
  · exact Or.inl (completed_of_ended hwork hbegin hnone hall hended)
  · exact Or.inr ⟨last, e, failedIn_of_interrupted hwork hbegin hsome hvisits hall hended hlast⟩

theorem failedIn_of_error {v : Visit} (hv : v ∈ (observe env round pipeline s).visits)
    {e : Interruption} (hending : v.ending = .error e) :
    (observe env round pipeline s).FailedIn ⟨round, pipeline.project, pipeline.registry⟩ v e := by
  have hwork : (round.isIdle || pipeline.hasRun) = false := by
    by_contra hskip
    have hnone : (observe env round pipeline s).visits = [] :=
      if_pos (Bool.not_eq_false _ ▸ hskip)
    rw [hnone] at hv
    cases hv
  rcases ends_of_working hwork with hcompleted | ⟨last, e', hfailed⟩
  · rw [hcompleted.ended v hv] at hending
    cases hending
  · obtain ⟨ended, after, hvisits, hended, -⟩ := hfailed.visited
    rw [hvisits] at hv
    rcases List.mem_append.1 hv with hv | hv
    · rw [hended v hv] at hending
      cases hending
    · obtain rfl := List.mem_singleton.1 hv
      obtain rfl := Except.error.inj (hfailed.interrupted.symm.trans hending)
      exact hfailed

/-- A working run has completed, or it has failed in its last visit; what the host is told, the laps
and the calls agree with that. -/
theorem completed_or_failedIn (env : Environment (StateM σ)) (round : Round) (pipeline : Pipeline)
    (s : σ) (hround : round.isIdle = false) (hfirst : pipeline.hasRun = false) :
    (observe env round pipeline s).Accounted ∧
    ((observe env round pipeline s).Completed ∨ ∃ last e, (observe env round pipeline s).FailedIn
      ⟨round, pipeline.project, pipeline.registry⟩ last e) := by
  have hwork : (round.isIdle || pipeline.hasRun) = false := by rw [hround, hfirst]; rfl
  exact ⟨accounted_observe hwork, ends_of_working hwork⟩

end Working

private def paneWorld (renderer : MemoryRenderer) : MemoryWorld :=
  ⟨MemoryHost.empty.declareAll
    [⟨⟨"pane"⟩, ⟨.classType, "Main", "a", none, [], [], [], [], []⟩, .empty⟩], renderer⟩

private def paneRun (renderer : MemoryRenderer) : Observed :=
  observe MemoryWorld.environment (paneWorld renderer).host.round (.new ⟨[], []⟩ (.new "a"))
    (paneWorld renderer)

theorem completed_or_failedIn_pane :
    (paneRun .discarding).Accounted ∧ (paneRun .discarding).Completed ∧
    (paneRun .failing).Accounted ∧ ∃ last e, (paneRun .failing).FailedIn
      ⟨(paneWorld .failing).host.round, .new "a", ⟨[], []⟩⟩ last e := by
  have hcompleted : (paneRun .discarding).outcome.status = .completed := by decide +kernel
  have hfailed : (paneRun .failing).outcome.status = .failed := by decide +kernel
  obtain ⟨haccounted, hends⟩ := completed_or_failedIn MemoryWorld.environment
    (paneWorld .discarding).host.round (.new ⟨[], []⟩ (.new "a")) (paneWorld .discarding) rfl rfl
  obtain ⟨haccounted', hends'⟩ := completed_or_failedIn MemoryWorld.environment
    (paneWorld .failing).host.round (.new ⟨[], []⟩ (.new "a")) (paneWorld .failing) rfl rfl
  refine ⟨haccounted, hends.resolve_right ?_, haccounted', hends'.resolve_left ?_⟩
  · rintro ⟨last, e, h⟩
    cases hcompleted.symm.trans h.status
  · intro h
    cases hfailed.symm.trans h.status

end Pipeline

end ComponentGlue
