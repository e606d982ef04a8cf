import ComponentGlue.Proofs.Pipeline.Phases
import ComponentGlue.Proofs.Table

/-!
The phases that a run visits, one after the other up to the first that is interrupted. What is proved
of one visit is carried along the run: where a part of the progress was written, which diagnostics
were recorded, which laps were timed and which models were rendered.
-/

set_option autoImplicit false
set_option relaxedAutoImplicit false

namespace ComponentGlue

variable {σ : Type} {env : Environment (StateM σ)} {setting : RunSetting}

/-- A phase that was visited: the progress it found and the one it left, its calls and its ending. -/
structure Visit where
  phase : Phase
  before : Progress
  calls : List Call
  ending : Except Interruption Unit
  after : Progress

/-- Validation reports the diagnostic on the declarations that were extracted before. -/
def Progress.Reports (setting : RunSetting) (p : Progress) (d : Diagnostic) : Prop :=
  ∃ m, p.extracted = some m ∧ d ∈ (Validator.validate setting.registry.validators
    ⟨m, p.catalog, setting.project⟩).diagnostics

namespace Visit

def timedCalls (v : Visit) : List Call := .now :: v.calls ++ [.now]

def renderings (v : Visit) : List (GenerationModel × Except Interruption Nat) :=
  v.calls.filterMap Call.rendering?

end Visit

namespace Phase

/-- Visit one phase. -/
def visit (env : Environment (StateM σ)) (setting : RunSetting) (phase : Phase) (p : Progress)
    (s : σ) : Visit :=
  ⟨phase, p, callsOf (phase.run env.recording setting p) s, (phase.run env setting p s).1.1,
    (phase.run env setting p s).1.2⟩

/-- What a phase may write: a part of the progress that is its own, when it ends, and diagnostics. -/
structure Writes (setting : RunSetting) (phase : Phase) (p : Progress) (r : Ending) : Prop where
  extracted : (phase = .extract ∧ r.1 = .ok ()) ∨ r.2.extracted = p.extracted
  generation : (phase = .process ∧ r.1 = .ok ()) ∨ r.2.generation = p.generation
  artifacts : (phase = .render ∧ r.1 = .ok ()) ∨ r.2.artifacts = p.artifacts
  diagnostics : ∀ d ∈ r.2.diagnostics, d ∈ p.diagnostics ∨
    (phase = .resolve ∧ d.phase = Phase.resolve.name ∧ d.isError = false) ∨
    (phase = .validate ∧ p.Reports setting d)
  kept : p.diagnostics ⊆ r.2.diagnostics

theorem writes_self (setting : RunSetting) (phase : Phase) (p : Progress)
    (ending : Except Interruption Unit) : Writes setting phase p (ending, p) :=
  ⟨Or.inr rfl, Or.inr rfl, Or.inr rfl, fun _ => Or.inl, List.Subset.refl _⟩

theorem writes_recordCatalog (setting : RunSetting) (project platform : SymbolSource)
    (p : Progress) : Writes setting .resolve p (.ok (), recordCatalog project platform p) := by
  have hadd : ∀ {d added : Diagnostic}, d ∈ p.diagnostics ++ [added] →
      added.phase = Phase.resolve.name → added.isError = false → d ∈ p.diagnostics ∨
      (Phase.resolve = .resolve ∧ d.phase = Phase.resolve.name ∧ d.isError = false) ∨
      (Phase.resolve = .validate ∧ p.Reports setting d) := by
    intro d added hd hphase hsilent
    rcases List.mem_append.1 hd with hd | hd
    · exact Or.inl hd
    · rw [List.mem_singleton.1 hd]
      exact Or.inr (Or.inl ⟨rfl, hphase, hsilent⟩)
  unfold recordCatalog
  split
  · split
    · exact ⟨Or.inr rfl, Or.inr rfl, Or.inr rfl, fun d hd => hadd hd rfl rfl,
        List.subset_append_left _ _⟩
    · exact ⟨Or.inr rfl, Or.inr rfl, Or.inr rfl, fun _ => Or.inl, List.Subset.refl _⟩
  · exact ⟨Or.inr rfl, Or.inr rfl, Or.inr rfl, fun d hd => hadd hd rfl rfl,
      List.subset_append_left _ _⟩

theorem writes_runValidate (setting : RunSetting) (p : Progress) :
    Writes setting .validate p (runValidate setting p) := by
  unfold runValidate
  split
  · exact writes_self _ _ _ _
  · next extracted hextracted =>
    have hadd : ∀ d ∈ p.diagnostics ++ (Validator.validate setting.registry.validators
        ⟨extracted, p.catalog, setting.project⟩).diagnostics, d ∈ p.diagnostics ∨
        (Phase.validate = .resolve ∧ d.phase = Phase.resolve.name ∧ d.isError = false) ∨
        (Phase.validate = .validate ∧ p.Reports setting d) := by
      intro d hd
      rcases List.mem_append.1 hd with hd | hd
      · exact Or.inl hd
      · exact Or.inr (Or.inr ⟨rfl, extracted, hextracted, hd⟩)
    dsimp only
    split
    · exact ⟨Or.inr rfl, Or.inr rfl, Or.inr rfl, hadd, List.subset_append_left _ _⟩
    · exact ⟨Or.inr rfl, Or.inr rfl, Or.inr rfl, hadd, List.subset_append_left _ _⟩

theorem writes_runProcess (setting : RunSetting) (p : Progress) :
    Writes setting .process p (runProcess setting p) := by
  unfold runProcess
  split
  · exact writes_self _ _ _ _
  · split
    · exact writes_self _ _ _ _
    · exact ⟨Or.inr rfl, Or.inl ⟨rfl, rfl⟩, Or.inr rfl, fun _ => Or.inl, List.Subset.refl _⟩

theorem writes_runRender (env : Environment (StateM σ)) (setting : RunSetting) (p : Progress)
    (s : σ) : Writes setting .render p (runRender env p s).1 := by
  rcases hgeneration : p.generation with - | model
  · rw [runRender_of_none env hgeneration]
    exact writes_self _ _ _ _
  · rw [runRender_of_some env hgeneration]
    rcases hrender : (env.render model s).1 with e | artifacts
    · simp only [stateM_bind_apply, hrender]
      exact writes_self _ _ _ _
    · simp only [stateM_bind_apply, hrender]
      exact ⟨Or.inr rfl, Or.inr rfl, Or.inl ⟨rfl, rfl⟩, fun _ => Or.inl, List.Subset.refl _⟩

theorem writes_run (phase : Phase) (env : Environment (StateM σ)) (setting : RunSetting)
    (p : Progress) (s : σ) : Writes setting phase p (phase.run env setting p s).1 := by
  cases phase with
  | extract =>
    rcases h : (readBatches env setting.round.markers s).1 with e | batches
    · simp only [run, runExtract, stateM_bind_apply, h]
      exact writes_self _ _ _ _
    · simp only [run, runExtract, stateM_bind_apply, h]
      exact ⟨Or.inl ⟨rfl, rfl⟩, Or.inr rfl, Or.inr rfl, fun _ => Or.inl, List.Subset.refl _⟩
  | resolve =>
    rcases hproject : (env.symbols .project s).1 with panic | project
    · simp only [run, runResolve, stateM_bind_apply, hproject]
      exact writes_self _ _ _ _
    · rcases hplatform : (env.symbols .platform (env.symbols .project s).2).1 with panic | platform
      · simp only [run, runResolve, stateM_bind_apply, hproject, hplatform]
        exact writes_self _ _ _ _
      · simp only [run, runResolve, stateM_bind_apply, hproject, hplatform]
        exact writes_recordCatalog setting project platform p
  | validate => exact writes_runValidate setting p
  | process => exact writes_runProcess setting p
  | render => exact writes_runRender env setting p s

theorem renderings_of_ne_render {phase : Phase} (h : phase ≠ .render) (p : Progress) (s : σ) :
    (visit env setting phase p s).renderings = [] :=
  List.filterMap_eq_nil_iff.2 fun call hcall =>
    Call.rendering?_of_isQuestion ((asks_run h env setting p).questions s call hcall)

theorem report?_of_mem_calls {phase : Phase} {p : Progress} {s : σ} {call : Call}
    (hcall : call ∈ (visit env setting phase p s).calls) : call.report? = none := by
  by_cases h : phase = .render
  · subst h
    have hcalls : (visit env setting .render p s).calls = _ := callsOf_runRender env p s
    rw [hcalls] at hcall
    obtain ⟨model, -, rfl⟩ := List.mem_map.1 hcall
    rfl
  · exact Call.report?_of_isQuestion ((asks_run h env setting p).questions s call hcall)

theorem renderings_render (p : Progress) (s : σ) :
    (visit env setting .render p s).renderings =
      p.generation.toList.map fun model => (model, (env.render model s).1) := by
  have hcalls : (visit env setting .render p s).calls = _ := callsOf_runRender env p s
  rw [Visit.renderings, hcalls]
  cases p.generation <;> rfl

theorem renderings_of_ended {p : Progress} {s : σ}
    (h : (visit env setting .render p s).ending = .ok ()) : ∃ model,
    p.generation = some model ∧ (visit env setting .render p s).renderings =
      [(model, .ok (visit env setting .render p s).after.artifacts)] := by
  have hending : (runRender env p s).1.1 = .ok () := h
  have hafter : (visit env setting .render p s).after = (runRender env p s).1.2 := rfl
  rw [renderings_render, hafter]
  rcases hgeneration : p.generation with - | model
  · rw [runRender_of_none env hgeneration] at hending
    cases hending
  · refine ⟨model, rfl, ?_⟩
    rw [runRender_of_some env hgeneration] at hending ⊢
    rcases hrender : (env.render model s).1 with e | artifacts
    · simp only [stateM_bind_apply, hrender] at hending
      cases hending
    · show [(model, (env.render model s).1)] = _
      simp only [stateM_bind_apply, hrender]
      rfl

end Phase

def Progress.WrittenBy {α : Type} (phase : Phase) (part : Progress → α) (visits : List Visit)
    (p : Progress) : Prop :=
  (part p = part .start ∧ ∀ v ∈ visits, v.phase = phase → v.ending ≠ .ok ()) ∨
    ∃ v ∈ visits, v.phase = phase ∧ v.ending = .ok () ∧ part v.after = part p

theorem Progress.WrittenBy.visit {α : Type} {phase : Phase} {part : Progress → α}
    {visits : List Visit} {p : Progress} (h : p.WrittenBy phase part visits) {v : Visit}
    (hv : (v.phase = phase ∧ v.ending = .ok ()) ∨ part v.after = part p) :
    v.after.WrittenBy phase part (visits ++ [v]) := by
  -- Only an ended visit of its own phase writes the part, so it is new then and otherwise kept.
  by_cases hends : v.phase = phase ∧ v.ending = .ok ()
  · exact Or.inr ⟨v, List.mem_append_right _ List.mem_cons_self, hends.1, hends.2, rfl⟩
  · have hsame : part v.after = part p := hv.resolve_left hends
    rcases h with ⟨hstart, hnone⟩ | ⟨u, hu, hphase, hending, hpart⟩
    · refine Or.inl ⟨hsame.trans hstart, fun u hu hphase hending => ?_⟩
      rcases List.mem_append.1 hu with hu | hu
      · exact hnone u hu hphase hending
      · rw [List.mem_singleton.1 hu] at hphase hending
        exact hends ⟨hphase, hending⟩
    · exact Or.inr ⟨u, List.mem_append_left _ hu, hphase, hending, hpart.trans hsame.symm⟩

/-- Where the parts of a progress come from, after some visits. -/
structure Progress.Traced (setting : RunSetting) (visits : List Visit) (p : Progress) : Prop where
  extracted : p.WrittenBy .extract Progress.extracted visits
  generation : p.WrittenBy .process Progress.generation visits
  artifacts : p.WrittenBy .render Progress.artifacts visits
  found : ∀ v ∈ visits, ∀ model, v.before.generation = some model →
    ∃ u ∈ visits, u.phase = .process ∧ u.after.generation = some model
  diagnostics : ∀ d ∈ p.diagnostics, (d.phase = Phase.resolve.name ∧ d.isError = false) ∨
    ∃ v ∈ visits, v.phase = .validate ∧ v.before.Reports setting d
  kept : ∀ v ∈ visits, v.after.diagnostics ⊆ p.diagnostics

theorem Progress.traced_start (setting : RunSetting) : Progress.start.Traced setting [] where
  extracted := Or.inl ⟨rfl, fun _ hv => absurd hv List.not_mem_nil⟩
  generation := Or.inl ⟨rfl, fun _ hv => absurd hv List.not_mem_nil⟩
  artifacts := Or.inl ⟨rfl, fun _ hv => absurd hv List.not_mem_nil⟩
  found := fun _ hv => absurd hv List.not_mem_nil
  diagnostics := fun _ hd => absurd hd List.not_mem_nil
  kept := fun _ hv => absurd hv List.not_mem_nil

/-- A visit keeps track of where everything comes from. -/
theorem Progress.Traced.visit {visits : List Visit} {p : Progress} (h : p.Traced setting visits)
    (phase : Phase) (s : σ) : (phase.visit env setting p s).after.Traced setting
      (visits ++ [phase.visit env setting p s]) where
  extracted := h.extracted.visit (phase.writes_run env setting p s).extracted
  generation := h.generation.visit (phase.writes_run env setting p s).generation
  artifacts := h.artifacts.visit (phase.writes_run env setting p s).artifacts
  found := by
    have hbefore : ∀ model, (∃ u ∈ visits, u.phase = .process ∧ u.after.generation = some model) →
        ∃ u ∈ visits ++ [phase.visit env setting p s], u.phase = .process ∧
          u.after.generation = some model := by
      rintro model ⟨u, hu, hgives⟩
      exact ⟨u, List.mem_append_left _ hu, hgives⟩
    intro v hv model hmodel
    rcases List.mem_append.1 hv with hv | hv
    · exact hbefore model (h.found v hv model hmodel)
    · obtain rfl := List.mem_singleton.1 hv
      rcases h.generation with ⟨hstart, -⟩ | ⟨u, hu, hphase, -, hpart⟩
      · cases hmodel.symm.trans hstart
      · exact hbefore model ⟨u, hu, hphase, hpart.trans hmodel⟩
  diagnostics := by
    intro d hd
    rcases (phase.writes_run env setting p s).diagnostics d hd with hd | hd | ⟨hphase, hd⟩
    · rcases h.diagnostics d hd with hd | ⟨v, hv, hd⟩
      · exact Or.inl hd
      · exact Or.inr ⟨v, List.mem_append_left _ hv, hd⟩
    · exact Or.inl hd.2
    · exact Or.inr ⟨_, List.mem_append_right _ List.mem_cons_self, hphase, hd⟩
  kept := by
    intro v hv
    rcases List.mem_append.1 hv with hv | hv
    · exact List.Subset.trans (h.kept v hv) (phase.writes_run env setting p s).kept
    · rw [List.mem_singleton.1 hv]
      exact List.Subset.refl _

namespace Pipeline

/-- The visits of a run of phases. -/
def visits (env : Environment (StateM σ)) (setting : RunSetting) :
    List Phase → Progress → σ → List Visit
  | [], _, _ => []
  | phase :: phases, p, s =>
    let r := phase.run env setting p (env.now s).2
    phase.visit env setting p (env.now s).2 ::
      match r.1.1 with
      | .error _ => []
      | .ok () => visits env setting phases r.1.2 (env.now r.2).2

section Visits

variable {phase : Phase} {phases : List Phase} {p p' : Progress} {w : Stopwatch} {s s' : σ}

theorem visits_cons_of_ok (h : phase.run env setting p (env.now s).2 = ((.ok (), p'), s')) :
    visits env setting (phase :: phases) p s = phase.visit env setting p (env.now s).2 ::
      visits env setting phases p' (env.now s').2 := by
  rw [visits, h]

theorem visits_cons_of_error {e : Interruption}
    (h : phase.run env setting p (env.now s).2 = ((.error e, p'), s')) :
    visits env setting (phase :: phases) p s = [phase.visit env setting p (env.now s).2] := by
  rw [visits, h]

theorem traced_runPhases (env : Environment (StateM σ)) (phases : List Phase)
    {before : List Visit} (h : p.Traced setting before) (w : Stopwatch) (s : σ) :
    (runPhases env setting phases p w s).1.progress.Traced setting
      (before ++ visits env setting phases p s) := by
  induction phases generalizing before p w s with
  | nil =>
    rw [visits, List.append_nil]
    exact h
  | cons phase phases ih =>
    have hvisit : (phase.visit env setting p (env.now s).2).after.Traced setting
        (before ++ [phase.visit env setting p (env.now s).2]) := h.visit phase _
    rcases hrun : phase.run env setting p (env.now s).2 with ⟨⟨e | ⟨⟩, q⟩, t⟩
    · have hafter : (phase.visit env setting p (env.now s).2).after = q :=
        congrArg (·.1.2) hrun
      rw [runPhases_cons_of_error hrun, visits_cons_of_error hrun]
      rwa [hafter] at hvisit
    · have hafter : (phase.visit env setting p (env.now s).2).after = q :=
        congrArg (·.1.2) hrun
      rw [hafter] at hvisit
      rw [runPhases_cons_of_ok hrun, visits_cons_of_ok hrun, List.append_cons]
      exact ih hvisit _ _

theorem runPhases_recording (env : Environment (StateM σ)) (setting : RunSetting)
    (phases : List Phase) (p : Progress) (w : Stopwatch) (s : σ) (calls : List Call) :
    runPhases env.recording setting phases p w (s, calls) =
      ((runPhases env setting phases p w s).1, (runPhases env setting phases p w s).2,
        calls ++ (visits env setting phases p s).flatMap Visit.timedCalls) := by
  induction phases generalizing p w s calls with
  | nil => exact congrArg (fun cs => (_, s, cs)) (List.append_nil calls).symm
  | cons phase phases ih =>
    have hrecords : phase.run env.recording setting p (env.recording.now (s, calls)).2 = _ :=
      phase.records_run env setting p (env.now s).2 (calls ++ [Call.now])
    rcases hrun : phase.run env setting p (env.now s).2 with ⟨⟨e | ⟨⟩, q⟩, t⟩
    · rw [hrun] at hrecords
      rw [runPhases_cons_of_error hrun, visits_cons_of_error hrun,
        runPhases_cons_of_error hrecords]
      simp [Environment.recording, recordCall, Visit.timedCalls, Phase.visit]
    · rw [hrun] at hrecords
      rw [runPhases_cons_of_ok hrun, visits_cons_of_ok hrun, runPhases_cons_of_ok hrecords]
      refine (ih q _ _ _).trans ?_
      simp [Environment.recording, recordCall, Visit.timedCalls, Phase.visit]

theorem exists_visit_of_mem {v : Visit} (hv : v ∈ visits env setting phases p s) :
    ∃ phase q t, v = Phase.visit env setting phase q t := by
  induction phases generalizing p s with
  | nil => cases hv
  | cons phase phases ih =>
    rcases hrun : phase.run env setting p (env.now s).2 with ⟨⟨e | ⟨⟩, q⟩, t⟩
    · rw [visits_cons_of_error hrun] at hv
      exact ⟨_, _, _, List.mem_singleton.1 hv⟩
    · rw [visits_cons_of_ok hrun] at hv
      rcases List.mem_cons.1 hv with hv | hv
      · exact ⟨_, _, _, hv⟩
      · exact ih hv

theorem visits_cases (env : Environment (StateM σ)) (setting : RunSetting) (phases : List Phase)
    (p : Progress) (w : Stopwatch) (s : σ) :
    ((runPhases env setting phases p w s).1.interrupted = none ∧
      (visits env setting phases p s).map Visit.phase = phases ∧
      ∀ v ∈ visits env setting phases p s, v.ending = .ok ()) ∨
    ∃ ended last e after,
      (runPhases env setting phases p w s).1.interrupted = some (last.phase, e) ∧
      visits env setting phases p s = ended ++ [last] ∧
      phases = ended.map Visit.phase ++ last.phase :: after ∧
      (∀ v ∈ ended, v.ending = .ok ()) ∧ last.ending = .error e := by
  induction phases generalizing p w s with
  | nil => exact Or.inl ⟨rfl, rfl, fun v hv => absurd hv List.not_mem_nil⟩
  | cons phase phases ih =>
    rcases hrun : phase.run env setting p (env.now s).2 with ⟨⟨e | ⟨⟩, q⟩, t⟩
    · rw [runPhases_cons_of_error hrun, visits_cons_of_error hrun]
      refine Or.inr ⟨[], _, e, phases, rfl, rfl, rfl, fun v hv => absurd hv List.not_mem_nil, ?_⟩
      exact congrArg (·.1.1) hrun
    · have hending : (phase.visit env setting p (env.now s).2).ending = .ok () :=
        congrArg (·.1.1) hrun
      rw [runPhases_cons_of_ok hrun, visits_cons_of_ok hrun]
      rcases ih q (w.timed phase.name (env.now s).1 (env.now t).1) (env.now t).2 with
        ⟨hnone, hphases, hall⟩ | ⟨ended, last, e, after, hsome, hvisits, hphases, hall, hlast⟩
      · exact Or.inl ⟨hnone, congrArg (phase :: ·) hphases, List.forall_mem_cons.2 ⟨hending, hall⟩⟩
      · exact Or.inr ⟨_ :: ended, last, e, after, hsome, congrArg (_ :: ·) hvisits,
          congrArg (phase :: ·) hphases, List.forall_mem_cons.2 ⟨hending, hall⟩, hlast⟩

theorem progress_runPhases (env : Environment (StateM σ)) (setting : RunSetting) (phases : List Phase)
    (p : Progress) (w : Stopwatch) (s : σ) :
    (runPhases env setting phases p w s).1.progress =
      ((visits env setting phases p s).getLast?.map Visit.after).getD p := by
  induction phases generalizing p w s with
  | nil => rfl
  | cons phase phases ih =>
    rcases hrun : phase.run env setting p (env.now s).2 with ⟨⟨e | ⟨⟩, q⟩, t⟩
    · rw [runPhases_cons_of_error hrun, visits_cons_of_error hrun]
      exact (congrArg (·.1.2) hrun).symm
    · have hafter : (phase.visit env setting p (env.now s).2).after = q :=
        congrArg (·.1.2) hrun
      rw [runPhases_cons_of_ok hrun, visits_cons_of_ok hrun, ih, List.getLast?_cons]
      cases (visits env setting phases q (env.now t).2).getLast? with
      | none => exact hafter.symm
      | some last => rfl

theorem lapNames_timed {name : String} (h : name ∉ w.lapNames) (begun ended : Nat) :
    (w.timed name begun ended).lapNames = w.lapNames ++ [name] := by
  have hkeys : (w.timed name begun ended).lapNames =
      (w.laps.insert name ((w.laps.get? name).getD 0 + (ended - begun))).keys := by
    simp only [Stopwatch.timed, Stopwatch.stop, Stopwatch.start, Table.get?_insert_self]
    rfl
  rw [hkeys, Table.keys_insert]
  exact if_neg h

theorem lapNames_runPhases (env : Environment (StateM σ)) (setting : RunSetting)
    (phases : List Phase) (p : Progress) {w : Stopwatch} (s : σ)
    (distinct : (w.lapNames ++ phases.map Phase.name).Nodup) :
    (runPhases env setting phases p w s).1.stopwatch.lapNames =
      w.lapNames ++ (visits env setting phases p s).map fun v => v.phase.name := by
  induction phases generalizing p w s with
  | nil => exact (List.append_nil _).symm
  | cons phase phases ih =>
    rw [List.map_cons, List.append_cons] at distinct
    have hnew : phase.name ∉ w.lapNames := by
      intro hmem
      have hfirst := (List.nodup_append.1 distinct).1
      exact (List.nodup_append.1 hfirst).2.2 _ hmem _ List.mem_cons_self rfl
    rcases hrun : phase.run env setting p (env.now s).2 with ⟨⟨e | ⟨⟩, q⟩, t⟩
    · rw [runPhases_cons_of_error hrun, visits_cons_of_error hrun]
      exact lapNames_timed hnew _ _
    · rw [runPhases_cons_of_ok hrun, visits_cons_of_ok hrun, List.map_cons, List.append_cons, ih,
        lapNames_timed hnew]
      · rfl
      · rw [lapNames_timed hnew]
        exact distinct

end Visits

end Pipeline

end ComponentGlue
